/-!
# Failures of synchronous operations

An operation that fails says why by one of seven causes. The wording of every cause is given by
`Error.message` alone. A failed task is not an error: its failure is an ordinary value.
-/

namespace DynamicDispatch

/-- A field whose value did not match its descriptor when a record or union was constructed. -/
structure Violation where
  /-- The field's name in a record, its position in a union case. -/
  field : String
  /-- The rendered descriptor. -/
  expected : String
  /-- The rendered value. -/
  actual : String
  deriving DecidableEq, Repr

/-- One line about a violated field. -/
def Violation.text (v : Violation) : String :=
  s!"Field: {v.field} - expected value of type {v.expected} but got: {v.actual}"

/-- The causes for which an operation fails. -/
inductive Error where
  /-- Values did not match the declared fields of a record or union case. -/
  | construction (constructor : String) (violations : List Violation)
  /-- The subject's type has no implementation of a protocol method. -/
  | missingImplementation (protocol method : String) (params : List String) (typeName : String)
  /-- Handlers leave cases of a union uncovered. -/
  | nonExhaustiveMatch (typeName : String) (missing : List String)
  /-- An operand has the wrong type. -/
  | typeMismatch (operation expected got : String)
  /-- A multimethod has no handler for its arguments. -/
  | noMatchingHandler (args : String)
  /-- A union has no such case. -/
  | unknownCase (typeName case : String)
  /-- An operand has the right type and still cannot be used. -/
  | invalidArgument (function detail : String)
  deriving DecidableEq, Repr

/-- The wording of a cause. -/
def Error.message : Error → String
  | .construction constructor violations =>
    s!"invalid values passed into the {constructor} constructor:\n"
      ++ "\n".intercalate (violations.map fun v => "  * " ++ v.text)
  | .missingImplementation protocol method params typeName =>
    s!"no implementation of required function '{method}(" ++ ", ".intercalate params
      ++ s!")' of protocol '{protocol}' found for type '{typeName}'"
  | .nonExhaustiveMatch typeName missing =>
    s!"non-exhaustive pattern matching on {typeName}, missing: " ++ ", ".intercalate missing
      ++ ". Provide all cases or use a wildcard"
  | .typeMismatch operation expected got =>
    s!"'{operation}' expects {expected} but was called with {got}"
  | .noMatchingHandler args => s!"couldn't find a matching handler for argument(s): {args}"
  | .unknownCase typeName case => s!"{typeName} has no case named '{case}'"
  | .invalidArgument function detail => s!"`{function}`: {detail}"

end DynamicDispatch

import DynamicDispatch.Matching
import DynamicDispatch.Methods.Declared
import DynamicDispatch.Script.Operation.Basic

/-!
# Operations on declared types and their instances

Construction, what a type declares, matching on cases, and the standard types.
-/

namespace DynamicDispatch.Script.Operation

open Argument Eval

/-- What a type declares: its name, its parts with the texts of their descriptors, the names of its
parts, and its inspection. -/
def typeInfo : DeclaredType → Eval Datum
  | .record type => do
    let fields ← type.fields.mapM fun (name, t) => do
      return .list [.text name, .text (← t.render)]
    return .list [.text type.name, .list fields, textList type.fieldNames, .text type.inspect]
  | .union type => do
    let cases ← type.caseNames.mapM fun name => do
      let fields ← Descriptor.renderAll ((type.caseFields? name).getD [])
      return .list [.text name, textList fields]
    return .list [.text type.name, .list cases, textList type.caseNames, .text type.inspect]

/-- Operations on declared types. -/
def types : List (String × Operation) :=
  [("new", fun args => do
      let type ← recordType (← text "new" (argument args 0))
      type.construct (← list "new" (argument args 1))),
    ("make", fun args => do
      let type ← unionType (← text "make" (argument args 0))
      let case ← text "make" (argument args 1)
      type.construct case (← list "make" (argument args 2))),
    ("ctor", fun args => do
      let type ← recordType (← text "ctor" (argument args 0))
      return .func (← Action.minting type.constructor)),
    ("case_fn", fun args => do
      let type ← unionType (← text "case_fn" (argument args 0))
      return .func (← type.constructor (← text "case_fn" (argument args 1)))),
    ("type_info", fun args => do
      typeInfo (← declaredType (← text "type_info" (argument args 0)))),
    ("has_case", fun args => do
      let type ← unionType (← text "has_case" (argument args 0))
      return .bool (type.hasCase (← text "has_case" (argument args 1)))),
    ("contains", fun args => do
      let type ← unionType (← text "contains" (argument args 0))
      return .bool (type.contains (argument args 1)))]

/-- Operations on records and union instances. -/
def instances : List (String × Operation) :=
  [("record_get", fun args => do
      match argument args 0 with
      | .record type fields =>
        let name ← text "record_get" (argument args 1)
        return .list (Methods.fieldNamed? type fields name).toList
      | other => refuse "record_get" "a record" other),
    ("cases_of", fun args =>
      match argument args 0 with
      | .union type _ _ => return textList type.caseNames
      | other => refuse "cases_of" "a union" other),
    ("same_case", fun args =>
      match argument args 0, argument args 1 with
      | .union s i _, .union t j _ => return .bool (s.id == t.id && i == j)
      | .union _ _ _, other => refuse "same_case" "a union" other
      | other, _ => refuse "same_case" "a union" other),
    ("case_of", fun args => do
      caseOf (← handlers "case_of" (argument args 1)) (argument args 0)),
    ("cases", fun args => do
      let arms ← handlers "cases" (argument args 1)
      let cases := Cases.ofArms arms
      match argument args 2 with
      | .nil => cases.run (argument args 0)
      | v => (cases.orElse (← func "cases" v)).run (argument args 0))]

/-- Operations on the standard types. -/
def standard : List (String × Operation) :=
  [onValue "some" Maybe.some,
    ("none", fun _ => return Maybe.none),
    onValue "ok" Result.ok,
    onValue "err" Result.err,
    onValue "maybe" Maybe.of,
    ("result", fun args => return Result.of (argument args 0) (argument args 1)),
    ("get_or", fun args => .done (Maybe.getOr (argument args 0) (argument args 1))),
    ("sum", fun args => do return sumOf (← number "sum" (argument args 0))),
    ("product", fun args => do return productOf (← number "product" (argument args 0)))]

end DynamicDispatch.Script.Operation

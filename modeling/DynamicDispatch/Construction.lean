import DynamicDispatch.Conformance
import DynamicDispatch.Currying

/-!
# Construction of records and union instances

Construction checks the values given against the declared fields, a missing value counting as nil,
and either stores exactly as many values as there are fields or reports every field that does not
match. Constructors are functions that collect their arguments first.
-/

namespace DynamicDispatch

variable {C S : Type}

namespace Construction

/-- The fields that do not match, in order, each under its label. -/
def violations : List (String × Descriptor (Value C)) → List (Value C) →
    Action C S (List Violation)
  | [], _ => return []
  | (label, t) :: fields, values => do
    let v := values.headD .nil
    if t.accepts v then violations fields values.tail
    else
      let violation : Violation := ⟨label, ← t.render, ← Generic.display v⟩
      return violation :: (← violations fields values.tail)

/-- The values cut or filled up with nil to a number of them. -/
def fit (n : Nat) (values : List (Value C)) : List (Value C) :=
  values.take n ++ List.replicate (n - values.length) .nil

/-- Fields labelled by their positions. -/
def positions (fields : List (Descriptor (Value C))) : List (String × Descriptor (Value C)) :=
  fields.mapIdx fun i t => (i.repr, t)

end Construction

namespace RecordType

/-- A record of the type, if the values match its fields. -/
def construct (type : RecordType (Value C)) (values : List (Value C)) : Action C S (Value C) := do
  let violations ← Construction.violations type.fields values
  if violations.isEmpty then return .record type (Construction.fit type.fields.length values)
  else
    let signature ← (Descriptor.shape type.fields).render
    .fail (.construction (type.name ++ "(" ++ signature ++ ")") violations)

/-- The constructor as a function that collects one argument per field. -/
def constructor (type : RecordType (Value C)) : StateM Nat (Func C) := do
  let n := type.fields.length
  curryN n (← newFunc type.name n (.recordConstructor type))

end RecordType

namespace UnionType

/-- An instance of a declared case, unchecked. -/
def make (type : UnionType (Value C)) (case : String) (fields : List (Value C)) : Value C :=
  .union type ((type.caseIndex? case).getD 0) fields

/-- An instance of a case, if the type declares it and the values match its fields. -/
def construct (type : UnionType (Value C)) (case : String) (values : List (Value C)) :
    Action C S (Value C) :=
  match type.caseFields? case with
  | none => .fail (.unknownCase type.name case)
  | some fields => do
    let violations ← Construction.violations (Construction.positions fields) values
    if violations.isEmpty then return type.make case (Construction.fit fields.length values)
    else
      let signature := ", ".intercalate (← Descriptor.renderAll fields)
      .fail (.construction (type.name ++ "." ++ case ++ "(" ++ signature ++ ")") violations)

/-- The constructor of a case as a function that collects one argument per field. -/
def constructor (type : UnionType (Value C)) (case : String) : Action C S (Func C) :=
  match type.caseFields? case with
  | none => .fail (.unknownCase type.name case)
  | some fields => Action.minting do
    let n := fields.length
    curryN n (← newFunc (type.name ++ "." ++ case) n (.caseConstructor type case))

end UnionType

end DynamicDispatch

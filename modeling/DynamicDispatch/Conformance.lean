import DynamicDispatch.Dispatch
import DynamicDispatch.Value.Entries
import DynamicDispatch.Value.Equality
import DynamicDispatch.Value.TypeKey

/-!
# Conformance

Whether a value matches a descriptor, and the text of a descriptor. Matching looks at values alone;
rendering may run implementations of `show`, because a literal is rendered as a value.
-/

namespace DynamicDispatch

variable {C S : Type}

namespace UnionType

/-- Whether an absent name admits everything and a present one the same name. -/
def admits (pattern : Option String) (name : String) : Bool :=
  match pattern with
  | none => true
  | some p => p == name

end UnionType

namespace Descriptor

mutual

/-- Whether a value matches a descriptor. -/
def accepts : Descriptor (Value C) → Value C → Bool
  | .any, _ => true
  | .nil, v => v.isNil
  | .bool, .bool _ => true
  | .number, .number _ => true
  | .text, .text _ => true
  | .list, .list _ => true
  | .map, .map _ => true
  | .function, .func _ => true
  | .task, .task _ => true
  | .literal x, v => Value.equal x v
  | .oneOf members, v => someAccepts members v
  | .record name, .record type _ => type.name == name
  | .union name case none, .union type index _ =>
    UnionType.admits case (type.caseName index) && UnionType.admits name type.name
  | .union name case (some fields), .union type index values =>
    UnionType.admits case (type.caseName index) && UnionType.admits name type.name
      && acceptsFields fields values
  | .listOf element, .list items => acceptsAll element items
  | .shape entries, .map values => acceptsEntries entries values
  | _, _ => false

/-- Whether some descriptor of a list accepts a value. -/
def someAccepts : List (Descriptor (Value C)) → Value C → Bool
  | [], _ => false
  | t :: ts, v => accepts t v || someAccepts ts v

/-- Whether every descriptor accepts the value at its position; a missing value counts as nil. -/
def acceptsFields : List (Descriptor (Value C)) → List (Value C) → Bool
  | [], _ => true
  | t :: ts, [] => accepts t .nil && acceptsFields ts []
  | t :: ts, v :: vs => accepts t v && acceptsFields ts vs

/-- Whether a descriptor accepts every value of a list. -/
def acceptsAll : Descriptor (Value C) → List (Value C) → Bool
  | t, vs => vs.all fun v => accepts t v

/-- Whether every listed key is present and holds a value that its descriptor accepts. -/
def acceptsEntries : List (String × Descriptor (Value C)) → List (String × Value C) → Bool
  | [], _ => true
  | (k, t) :: rest, entries =>
    (match Entries.find? k entries with
      | some v => accepts t v
      | none => false) && acceptsEntries rest entries

end

/-- The name of a union pattern without its fields. -/
def patternName : (name case : Option String) → String
  | some n, some c => n ++ "." ++ c
  | some n, none => n
  | none, some c => "Union." ++ c
  | none, none => "Union"

mutual

/-- The text of a descriptor. -/
def render : Descriptor (Value C) → Action C S String
  | .any => return "Any"
  | .nil => return "Null"
  | .bool => return "Boolean"
  | .number => return "Number"
  | .text => return "String"
  | .list => return "Array"
  | .map => return "Object"
  | .function => return "Function"
  | .task => return "Task"
  | .literal v => Generic.display v
  | .oneOf members => do return "OneOf(" ++ ", ".intercalate (← renderAll members) ++ ")"
  | .record name => return name
  | .union name case none => return patternName name case
  | .union name case (some fields) => do
    return patternName name case ++ "(" ++ ", ".intercalate (← renderAll fields) ++ ")"
  | .listOf element => do return "[ " ++ (← render element) ++ " ]"
  | .shape entries => do
    return "\x7b " ++ ", ".intercalate (← renderEntries entries) ++ " \x7d"

/-- The texts of descriptors in order. -/
def renderAll : List (Descriptor (Value C)) → Action C S (List String)
  | [] => return []
  | t :: ts => do return (← render t) :: (← renderAll ts)

/-- The texts of a shape's entries in order. -/
def renderEntries : List (String × Descriptor (Value C)) → Action C S (List String)
  | [] => return []
  | (k, t) :: rest => do return (k ++ ": " ++ (← render t)) :: (← renderEntries rest)

end

end Descriptor

end DynamicDispatch

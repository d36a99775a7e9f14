import DynamicDispatch.Number.Text
import DynamicDispatch.Text.Quoted
import DynamicDispatch.Value.Basic

/-!
# Inspection

The text that shows a value's structure to a programmer: every value under the name of its form,
texts in quotes, functions by name and arity. It asks no protocol and cannot fail.
-/

namespace DynamicDispatch

/-- A function by its name and arity. -/
def Callable.inspect {K : Type} (f : Callable K) : String := s!"<fn {f.name}/{f.arity}>"

/-- A record type by its name. -/
def RecordType.inspect {V : Type} (type : RecordType V) : String := s!"RecordType({type.name})"

/-- A union type by its name. -/
def UnionType.inspect {V : Type} (type : UnionType V) : String := s!"UnionType({type.name})"

namespace Value

variable {C : Type}

/-- The word for a truth value. -/
def boolText (b : Bool) : String := if b then "true" else "false"

/-- A name with the parts that follow it in parentheses, if any. -/
def tuple (name : String) (parts : List String) : String :=
  if parts.isEmpty then name else name ++ "(" ++ ", ".intercalate parts ++ ")"

mutual

/-- The structure of a value as a text. -/
def inspect : Value C → String
  | .nil => "Nil"
  | .bool b => "Bool(" ++ boolText b ++ ")"
  | .number x => "Number(" ++ Number.inspect x ++ ")"
  | .text s => "Str(" ++ Text.quote s ++ ")"
  | .list items => "List([" ++ ", ".intercalate (inspectAll items) ++ "])"
  | .map entries => "Map(\x7b" ++ ", ".intercalate (inspectEntries entries) ++ "\x7d)"
  | .func f => "Func(" ++ f.inspect ++ ")"
  | .record type fields =>
    let parts := type.fieldNames.zipWith (fun name text => name ++ ": " ++ text) (inspectAll fields)
    "Record(" ++ (if parts.isEmpty then type.name
      else type.name ++ " \x7b " ++ ", ".intercalate parts ++ " \x7d") ++ ")"
  | .union type index fields =>
    "Union(" ++ tuple (type.name ++ "." ++ type.caseName index) (inspectAll fields) ++ ")"
  | .task _ => "Task(Task \x7b\x7d)"
  | .placeholder => "Placeholder"

/-- The structure of every value of a list. -/
def inspectAll : List (Value C) → List String
  | [] => []
  | v :: vs => inspect v :: inspectAll vs

/-- The structure of every entry of a map. -/
def inspectEntries : List (String × Value C) → List String
  | [] => []
  | (k, v) :: rest => (Text.quote k ++ ": " ++ inspect v) :: inspectEntries rest

end

end Value

end DynamicDispatch

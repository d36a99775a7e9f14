import DynamicDispatch.Script.Argument

/-!
# Operations on numbers, texts and plain values

What a script does with numbers and texts itself, and the questions it can ask about any value.
-/

namespace DynamicDispatch.Script.Operation

open Argument

/-- An operation on two numbers, the first one checked first. -/
def onNumbers (name : String) (f : Float → Float → Datum) : String × Operation :=
  (name, fun args => do
    let x ← number name (argument args 0)
    let y ← number name (argument args 1)
    return f x y)

/-- An operation on one value that cannot fail. -/
def onValue (name : String) (f : Datum → Datum) : String × Operation :=
  (name, fun args => return f (argument args 0))

/-- A text as it is, any other value as it is displayed. -/
def displayText : Datum → Eval String
  | .text s => return s
  | v => Generic.display v

/-- The kind of a value by name. -/
def kindName : Kind → String
  | .plain => "Plain"
  | .record => "Record"
  | .union => "Union"

/-- Operations on numbers. -/
def numbers : List (String × Operation) :=
  [onNumbers "add" fun x y => .number (x + y),
    onNumbers "sub" fun x y => .number (x - y),
    onNumbers "mul" fun x y => .number (x * y),
    onNumbers "div" fun x y => .number (x / y),
    onNumbers "lt" fun x y => .bool (x < y),
    ("even", fun args => do
      return .bool (Number.isEven (← number "even" (argument args 0)))),
    ("range", fun args => do
      let first ← count "range" (argument args 0)
      let last ← count "range" (argument args 1)
      return .list ((List.range' first (last - first)).map countDatum))]

/-- Operations on texts and lists. -/
def texts : List (String × Operation) :=
  [("str", fun args => do return .text (String.join (← args.mapM displayText))),
    ("repeat", fun args => do
      let s ← text "repeat" (argument args 0)
      let n ← count "repeat" (argument args 1)
      return .text (String.join (List.replicate n s))),
    ("nth", fun args => do
      let xs ← list "nth" (argument args 0)
      let i ← count "nth" (argument args 1)
      return argument xs i)]

/-- Questions about a value. -/
def values : List (String × Operation) :=
  [onValue "not" fun v => .bool (!v.truthy),
    onValue "truthy" fun v => .bool v.truthy,
    onValue "type_name" fun v => .text v.typeName,
    onValue "kind" fun v => .text (kindName v.kind),
    onValue "debug" fun v => .text v.inspect,
    onValue "is_iterable" fun v => .bool v.isIterable,
    ("display", fun args => do return .text (← Generic.display (argument args 0))),
    ("same_type", fun args =>
      return .bool ((argument args 0).typeKey = (argument args 1).typeKey))]

end DynamicDispatch.Script.Operation

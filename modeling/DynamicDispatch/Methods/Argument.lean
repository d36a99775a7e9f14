import DynamicDispatch.Currying
import DynamicDispatch.Dispatch
import DynamicDispatch.Number.Text
import DynamicDispatch.Standard

/-!
# Reading the arguments of a standard method

An implementation receives its arguments with the subject last. What it cannot use, it refuses by an
error that names the method.
-/

namespace DynamicDispatch

variable {C S : Type}

/-- What a type does for a method. -/
abbrev Implementation (C S : Type) := List (Value C) → Action C S (Value C)

namespace Methods

/-- Refuses an argument of the wrong type. -/
def mismatch {α : Type} (m : Method) (expected : String) (got : Option (Value C)) : Action C S α :=
  .fail (.typeMismatch m.name expected (Value.typeName? got))

/-- The subject when it is a list. -/
def listSubject (m : Method) (args : List (Value C)) : Action C S (List (Value C)) :=
  match args.getLast? with
  | some (.list xs) => return xs
  | other => mismatch m "an Array" other

/-- The subject when it is a text, as its characters. -/
def textSubject (m : Method) (args : List (Value C)) : Action C S (List Char) :=
  match args.getLast? with
  | some (.text s) => return s.toList
  | other => mismatch m "a String" other

/-- The subject when it is a map, as its entries. -/
def mapSubject (m : Method) (args : List (Value C)) : Action C S (List (String × Value C)) :=
  match args.getLast? with
  | some (.map entries) => return entries
  | other => mismatch m "an Object" other

/-- The subject when it is a task. -/
def taskSubject (m : Method) (args : List (Value C)) : Action C S (Recipe C) :=
  match args.getLast? with
  | some (.task t) => return t.recipe
  | other => mismatch m "a Task" other

/-- The argument at a position when it is a function. -/
def functionAt (m : Method) (args : List (Value C)) (i : Nat) : Action C S (Func C) :=
  match args[i]? with
  | some (.func f) => return f
  | other => mismatch m "a Function" other

/-- The position that a key addresses in a list or text. -/
def position? : Value C → Option Nat
  | .number x => Number.position? x
  | _ => none

/-- The text under which a key addresses an entry of a map: numbers count as their text. -/
def mapKey (m : Method) : Value C → Except Error String
  | .text s => .ok s
  | .number x => .ok (Number.plain x)
  | other => .error (.invalidArgument m.name
      s!"object keys must be strings or numbers, got {other.typeName}")

/-- One character as a value. -/
def charValue (c : Char) : Value C := .text (String.singleton c)

/-- A number of things as a value. -/
def countValue (n : Nat) : Value C := .number (Number.ofCount n)

/-- The positions below a number, as keys. -/
def positionKeys (n : Nat) : List (Value C) := (List.range n).map countValue

/-- Calls `f` on each value and the result so far. -/
def fold (f : Func C) (initial : Value C) (xs : List (Value C)) : Action C S (Value C) :=
  xs.foldlM (fun acc v => call f [v, acc]) initial

/-- Gives the subject itself. -/
def identity : Implementation C S := fun args => return lastArgument args

/-- Gives the first argument. -/
def firstArgument : Implementation C S := fun args => return argument args 0

/-- Stands where a family provides no such method, and is never registered. -/
def unprovided (m : Method) : Implementation C S := fun args =>
  .fail (.invalidArgument m.name s!"not provided for {(lastArgument args).typeName}")

/-- The result of a check. -/
def lift {α : Type} : Except Error α → Action C S α := .done

end Methods

end DynamicDispatch

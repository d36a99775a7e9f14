import DynamicDispatch.Script.State

/-!
# Reading the arguments of a script's operations

An operation takes values of a certain form by position. A value of another form is refused by an
error that names the operation.
-/

namespace DynamicDispatch.Script

/-- What an operation does with its arguments. -/
abbrev Operation := List Datum → Eval Datum

namespace Argument

/-- Refuses a value. -/
def refuse {α : Type} (operation expected : String) (v : Datum) : Eval α :=
  .fail (.typeMismatch operation expected v.typeName)

/-- A number. -/
def number (operation : String) : Datum → Eval Float
  | .number x => return x
  | v => refuse operation "a Number" v

/-- A count. -/
def count (operation : String) (v : Datum) : Eval Nat := do
  return Number.toCount (← number operation v)

/-- A text. -/
def text (operation : String) : Datum → Eval String
  | .text s => return s
  | v => refuse operation "a String" v

/-- A list. -/
def list (operation : String) : Datum → Eval (List Datum)
  | .list xs => return xs
  | v => refuse operation "an Array" v

/-- A function. -/
def func (operation : String) : Datum → Eval (Func Expr)
  | .func f => return f
  | v => refuse operation "a Function" v

/-- A list of functions. -/
def funcs (operation : String) (v : Datum) : Eval (List (Func Expr)) := do
  (← list operation v).mapM (func operation)

/-- A task. -/
def task (operation : String) : Datum → Eval (Task Expr)
  | .task t => return t
  | v => refuse operation "a Task" v

/-- A list of texts. -/
def texts (operation : String) (v : Datum) : Eval (List String) := do
  (← list operation v).mapM (text operation)

/-- Pairs of a text and something. -/
def pairs {α : Type} (operation : String) (read : Datum → Eval α) (v : Datum) :
    Eval (List (String × α)) := do
  (← list operation v).mapM fun
    | .list [.text name, a] => do return (name, ← read a)
    | other => refuse operation "a pair" other

/-- Functions by name. -/
def handlers (operation : String) : Datum → Eval (List (String × Func Expr)) :=
  pairs operation (func operation)

end Argument

/-- Texts as a list value. -/
def textList (texts : List String) : Datum := .list (texts.map .text)

/-- A count as a value. -/
def countDatum (n : Nat) : Datum := .number (Number.ofCount n)

/-- A function as a value, or nil. -/
def funcOrNil : Option (Func Expr) → Datum
  | some f => .func f
  | none => .nil

end DynamicDispatch.Script

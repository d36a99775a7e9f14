import DynamicDispatch.Protocol

/-!
# The expressions of a script

A script is a list of expressions over variables, functions and the library's operations. A function's
body is an expression that is evaluated at each call; it sees the arguments of its own call only.
-/

namespace DynamicDispatch.Script

/-- What implementations are registered under, as a script names it. -/
inductive KeyName where
  /-- A primitive type, or everything iterable. -/
  | primitive (name : String)
  /-- A type that the script declared, or a standard one. -/
  | declared (label : String)

mutual

/-- An expression. -/
inductive Expr where
  | nil
  | bool (b : Bool)
  | number (x : Float)
  | text (s : String)
  | hole
  | list (items : List Expr)
  | map (entries : List (String × Expr))
  /-- Stores a value in a variable and gives it. -/
  | assign (name : String) (value : Expr)
  | var (name : String)
  /-- A new function. -/
  | function (name : String) (arity : Nat) (body : Expr)
  /-- An argument of the running function; nil when there are fewer. -/
  | arg (i : Nat)
  /-- All arguments of the running function. -/
  | args
  | ite (condition yes no : Expr)
  /-- The last of several values. -/
  | block (items : List Expr)
  /-- Logs a value and gives it. -/
  | log (value : Expr)
  /-- Counts up and gives the count. -/
  | tick (name : String)
  /-- An error with a message. -/
  | fault (detail : String)
  /-- Applies a function to a value a number of times. -/
  | iterate (n : Nat) (f value : Expr)
  /-- An operation on values. -/
  | apply (operation : String) (args : List Expr)
  /-- An operation on a type key and values. -/
  | applyKey (operation : String) (key : KeyName) (args : List Expr)
  /-- Whether a value matches a descriptor. -/
  | conforms (type : TypeExpr) (value : Expr)
  /-- The text of a descriptor. -/
  | showType (type : TypeExpr)
  | defineRecord (label name : String) (fields : List (String × TypeExpr))
  | defineUnion (label name : String) (cases : List (String × List TypeExpr))
  | extendType (key : KeyName) (groups : List (String × List Expr))
  | extendProtocol (label : String) (groups : List (KeyName × List Expr))

/-- An expression for a descriptor. -/
inductive TypeExpr where
  | primitive (name : String)
  | literal (value : Expr)
  | oneOf (members : List TypeExpr)
  | listOf (element : TypeExpr)
  | shape (entries : List (String × TypeExpr))
  /-- A `Maybe` of something. -/
  | maybeOf (type : TypeExpr)
  | declared (label : String)
  | case (label case : String)
  /-- A union by the types of its fields. -/
  | of (label : String) (fields : List TypeExpr)
  | pattern (name case : Option String) (fields : Option (List TypeExpr))

end

end DynamicDispatch.Script

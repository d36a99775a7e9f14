import DynamicDispatch.Descriptor
import DynamicDispatch.Protocol

/-!
# Values, functions and tasks

The dynamic values that every operation works on. A function is known by what it is, not by a
closure: its code is either that of the embedding program, an element of the parameter `C`, or one of
the library's own forms. A task is known by its recipe. Functions and tasks carry an identity, and
two of them are the same exactly when they have it in common.
-/

namespace DynamicDispatch

/-- The two channels on which a task ends. -/
inductive Side where
  | failure
  | success
  deriving DecidableEq, Repr

/-- How a task ends: on which channel, and with which value. -/
structure Outcome (V : Type) where
  side : Side
  value : V

/-- A named function with a declared number of parameters. -/
structure Callable (K : Type) where
  /-- What makes the function different from every other one. -/
  id : Nat
  name : String
  arity : Nat
  code : K

/-- A computation that has not been started. -/
structure Deferred (R : Type) where
  /-- What makes the task different from every other one. -/
  id : Nat
  recipe : R

/-- What becomes of an error that a function gives inside a task: the task fails with the error's
text, or the text takes the place of the function's result. -/
inductive OnError where
  | fail
  | substitute
  deriving DecidableEq, Repr

mutual

/-- A dynamic value. -/
inductive Value (C : Type) : Type where
  | nil
  | bool (b : Bool)
  | number (x : Float)
  | text (s : String)
  | list (items : List (Value C))
  /-- A plain map, its entries in ascending order of their keys. -/
  | map (entries : List (String × Value C))
  | func (f : Callable (Code C))
  | record (type : RecordType (Value C)) (fields : List (Value C))
  /-- An instance of a union: the position of its case among the type's cases, and its fields. -/
  | union (type : UnionType (Value C)) (index : Nat) (fields : List (Value C))
  | task (t : Deferred (Recipe C))
  /-- The hole that a later call of a curried function fills. -/
  | placeholder

/-- What a function is. -/
inductive Code (C : Type) : Type where
  /-- A function of the embedding program. -/
  | host (c : C)
  /-- A standard method as a family of types provides it. -/
  | builtin (family : Family) (method : Method)
  /-- A function that collects `n` arguments for another one. -/
  | curried (n : Nat) (f : Callable (Code C))
  /-- A function that has collected some of its `n` arguments; holes are still open. -/
  | collecting (n : Nat) (f : Callable (Code C)) (slots : List (Value C))
  /-- Functions applied one after the other. -/
  | pipe (stages : List (Callable (Code C)))
  /-- The checked constructor of a record type. -/
  | recordConstructor (type : RecordType (Value C))
  /-- The checked constructor of a union case. -/
  | caseConstructor (type : UnionType (Value C)) (case : String)
  /-- A protocol method, dispatched at each call. -/
  | dispatcher (protocol : Protocol) (method : String)
  /-- A multimethod, with its dispatch function. -/
  | multimethod (id : Nat) (dispatch : Callable (Code C))
  /-- One of the two functions that settle a started task. -/
  | resolver (cell : Nat) (side : Side)
  /-- The step of a fold that looks for a value on which `f` holds. -/
  | anyStep (f : Callable (Code C))
  /-- The step of a fold that looks for a value on which `f` does not hold. -/
  | everyStep (f : Callable (Code C))
  /-- A function of a key and a value that applies `f` to the value. -/
  | onValue (f : Callable (Code C))
  /-- The step of a fold that pours values into a collection. -/
  | conjStep
  /-- The step of a fold that appends values to a list. -/
  | pushStep

/-- What running a task does. -/
inductive Recipe (C : Type) : Type where
  | settled (outcome : Outcome (Value C))
  /-- Never settles. -/
  | never
  /-- Calls a function with two resolvers, for failure and success. -/
  | procedure (f : Callable (Code C))
  /-- Resolves with each outcome in turn; only the first counts. -/
  | resolving (outcomes : List (Outcome (Value C)))
  /-- Calls a function and settles with its result. -/
  | future (f : Callable (Code C))
  /-- Gives up its turn `n` times before it goes on as another task. -/
  | turns (n : Nat) (next : Recipe C)
  /-- Runs a task and goes on from its outcome. -/
  | chain (first : Recipe C) (onSuccess onFailure : Step C)
  /-- Runs tasks side by side and joins their outcomes. -/
  | parallel (children : List (Recipe C))

/-- How a chain goes on from a value that arrived on one channel. -/
inductive Step (C : Type) : Type where
  /-- Ends as the first task did. -/
  | keep
  /-- Ends with a fixed outcome. -/
  | settle (outcome : Outcome (Value C))
  /-- Ends on a channel with the result of `f`, called with the value and further arguments. -/
  | apply (f : Callable (Code C)) (rest : List (Value C)) (side : Side) (onError : OnError)
  /-- Goes on as the task that `f` gives for the value. A result that is no task is an error of the
  named operation, or the success value when no operation insists. -/
  | follow (f : Callable (Code C)) (insists : Option String)
  /-- Goes on as the value when it is a task; otherwise succeeds with it. -/
  | flatten
  /-- Goes on as another task whose value is passed to the function that arrived. -/
  | applyTo (values : Recipe C)
  /-- Succeeds with a copy of the value. -/
  | clone

end

/-- A function on values. -/
abbrev Func (C : Type) := Callable (Code C)

/-- A task with its identity. -/
abbrev Task (C : Type) := Deferred (Recipe C)

namespace Value

variable {C : Type}

/-- Whether a value is a hole. -/
def isPlaceholder : Value C → Bool
  | .placeholder => true
  | _ => false

/-- Whether a value is nil. -/
def isNil : Value C → Bool
  | .nil => true
  | _ => false

/-- Nil and false do not hold; every other value does. -/
def truthy : Value C → Bool
  | .nil | .bool false => false
  | _ => true

/-- A truth value holds when it is true. -/
@[simp]
theorem truthy_bool (b : Bool) : (bool b : Value C).truthy = b := by
  cases b <;> rfl

/-- Lists and texts can be iterated over. -/
def isIterable : Value C → Bool
  | .list _ | .text _ => true
  | _ => false

/-- The name of a value's type as errors give it. -/
def typeName : Value C → String
  | .nil => "Nil"
  | .bool _ => "Boolean"
  | .number _ => "Number"
  | .text _ => "String"
  | .list _ => "Array"
  | .map _ => "Object"
  | .func _ => "Function"
  | .record type _ => type.name
  | .union type _ _ => type.name
  | .task _ => "Task"
  | .placeholder => "Placeholder"

/-- The name of a value's type, or of its absence. -/
def typeName? : Option (Value C) → String
  | some v => v.typeName
  | none => "nothing"

end Value

/-- The argument at a position; nil when the caller gave fewer. -/
def argument {C : Type} (args : List (Value C)) (i : Nat) : Value C := args[i]?.getD .nil

/-- What holds of nil and of all arguments holds of each, be it left out or not. -/
theorem argument_of_forall {C : Type} {p : Value C → Prop} {args : List (Value C)} (hnil : p .nil)
    (h : ∀ v ∈ args, p v) (i : Nat) : p (argument args i) := by
  unfold argument
  cases hi : args[i]? with
  | none => exact hnil
  | some v => exact h v (List.mem_of_getElem? hi)

/-- The last argument; nil when there is none. -/
def lastArgument {C : Type} (args : List (Value C)) : Value C := args.getLast?.getD .nil

namespace UnionType

variable {V : Type}

/-- The name of the case at a position. -/
def caseName (type : UnionType V) (index : Nat) : String :=
  ((type.cases[index]?).map (·.1)).getD ""

end UnionType

end DynamicDispatch

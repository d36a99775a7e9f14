import DynamicDispatch.Currying
import DynamicDispatch.Dispatch
import DynamicDispatch.Value.Inspect

/-!
# Multimethods

A multimethod computes a key from its arguments and runs the first handler, in order of definition,
whose matcher fits the key. A union key fits the matchers of the same type and case, and its fields
are the handler's arguments; any other key fits the values deeply equal to it. A hole as matcher
defines the handler of last resort.
-/

namespace DynamicDispatch

variable {C S : Type}

/-- A multimethod. Its methods are part of the world. -/
structure Multimethod (C : Type) where
  id : Nat
  dispatch : Func C

namespace MethodList

/-- The methods with one more. -/
def define (ms : MethodList C) (matcher : Value C) (handler : Func C) : MethodList C :=
  if matcher.isPlaceholder then { ms with wildcard := some handler }
  else { ms with pairs := ms.pairs ++ [(matcher, handler)] }

/-- The methods by their dispatch function, their number, and whether there is a last resort. -/
def inspect (ms : MethodList C) (dispatch : Func C) : String :=
  "MultiMethod \x7b dispatch: " ++ dispatch.inspect ++ s!", methods: {ms.pairs.length}, wildcard: "
    ++ Value.boolText ms.wildcard.isSome ++ " \x7d"

end MethodList

namespace Multimethod

/-- A multimethod without methods. -/
def new (dispatch : Func C) : Action C S (Multimethod C) := do
  let id ← Action.minting newId
  Action.modify fun w => { w with multimethods := w.multimethods.insert id {} }
  return ⟨id, dispatch⟩

/-- The methods defined so far. -/
def methods (m : Multimethod C) : Action C S (MethodList C) := do
  return ((← Action.world).multimethods.get? m.id).getD {}

/-- Defines a method. -/
def define (m : Multimethod C) (matcher : Value C) (handler : Func C) : Action C S Unit := do
  let methods ← m.methods
  Action.modify fun w =>
    { w with multimethods := w.multimethods.insert m.id (methods.define matcher handler) }

/-- Whether a matcher fits a key. -/
def fits : (key matcher : Value C) → Action C S Bool
  | .union s i _, .union t j _ => return s.id == t.id && i == j
  | .union _ _ _, _ => return false
  | key, matcher => Action.request (.deepEqual key matcher)

/-- The arguments of the handler found for a key. -/
def handlerArgs (key : Value C) (args : List (Value C)) : List (Value C) :=
  match key with
  | .union _ _ fields => fields
  | _ => args

/-- The first handler whose matcher fits a key. -/
def select (key : Value C) : List (Value C × Func C) → Action C S (Option (Func C))
  | [] => return none
  | (matcher, handler) :: rest => do
    if ← fits key matcher then return some handler else select key rest

/-- Calls a multimethod. -/
def call (m : Multimethod C) (args : List (Value C)) : Action C S (Value C) := do
  let key ← DynamicDispatch.call m.dispatch args
  let methods ← m.methods
  match ← select key methods.pairs with
  | some handler => DynamicDispatch.call handler (handlerArgs key args)
  | none =>
    match methods.wildcard with
    | some handler => DynamicDispatch.call handler args
    | none => .fail (.noMatchingHandler (← Generic.render (.list args)))

/-- The multimethod as a function that collects the arguments of its dispatch function. -/
def toFunc (m : Multimethod C) : StateM Nat (Func C) := do
  let f := m.dispatch
  curryN f.arity (← newFunc f.name f.arity (.multimethod m.id f))

end Multimethod

end DynamicDispatch

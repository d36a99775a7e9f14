import DynamicDispatch.Action.Basic
import DynamicDispatch.Number.Binary

/-!
# Dispatch on protocol methods

A protocol method is called with its subject last. The implementation is the one that the registry
has for the subject at that moment. The standard methods have entry points of their own, which check
the form of the result where callers rely on it.
-/

namespace DynamicDispatch

variable {C S : Type}

namespace Protocol

/-- The implementation of a declared method for the last argument. -/
def implementation (p : Protocol) (s : Signature) (args : List (Value C)) :
    Action C S (Func C) := do
  let subject := lastArgument args
  match (← Action.world).registry.resolve subject s.name with
  | some f => return f
  | none => .fail (.missingImplementation p.name s.name s.params subject.typeName)

/-- Calls a method on its arguments. -/
def call (p : Protocol) (method : String) (args : List (Value C)) : Action C S (Value C) :=
  match p.method? method with
  | none => .fail (.invalidArgument method s!"protocol '{p.name}' declares no method '{method}'")
  | some s => do DynamicDispatch.call (← p.implementation s args) args

end Protocol

/-- Calls a standard method. -/
def Method.call (m : Method) (args : List (Value C)) : Action C S (Value C) :=
  m.protocol.call m.name args

namespace Generic

/-- A value as its type renders it. -/
def render (x : Value C) : Action C S String := do
  match ← Method.render.call [x] with
  | .text s => return s
  | other => .fail (.invalidArgument "show"
      s!"implementation for {x.typeName} returned {other.typeName} instead of a string")

/-- The renderings of values in order. -/
def renderAll (xs : List (Value C)) : Action C S (List String) := xs.mapM render

/-- A value as its type renders it, or the name of its type when rendering fails. -/
def display (x : Value C) : Action C S String := do
  match ← (render x).attempt with
  | .ok s => return s
  | .error _ => return s!"<{x.typeName}>"

/-- A text as it is; any other value as its type renders it. -/
def textOf : Value C → Action C S String
  | .text s => return s
  | other => render other

/-- The number of values in a collection. -/
def count (xs : Value C) : Action C S Nat := do
  match ← Method.count.call [xs] with
  | .number n =>
    if 0 ≤ n then return Number.toCount n
    else .fail (.invalidArgument "count" "expected a count, got Number")
  | other => .fail (.invalidArgument "count" s!"expected a count, got {other.typeName}")

/-- The values that a value yields, in iteration order. -/
def iterator (x : Value C) : Action C S (List (Value C)) := do
  match ← Method.iterator.call [x] with
  | .list xs => return xs
  | other => .fail (.invalidArgument "iterator"
      s!"implementation for {x.typeName} returned {other.typeName} instead of an array")

/-- A copy of a value. -/
def clone (x : Value C) : Action C S (Value C) := Method.clone.call [x]

/-- A copy of a value that shares its parts. -/
def shallowClone (x : Value C) : Action C S (Value C) := Method.shallowClone.call [x]

/-- The first value, as a `Maybe`. -/
def first (xs : Value C) : Action C S (Value C) := Method.first.call [xs]

/-- Everything after the first value. -/
def rest (xs : Value C) : Action C S (Value C) := Method.rest.call [xs]

/-- A collection with a value added. -/
def conj (x xs : Value C) : Action C S (Value C) := Method.conj.call [x, xs]

/-- The keys of a collection. -/
def keys (xs : Value C) : Action C S (Value C) := Method.keys.call [xs]

/-- A collection with a value put under a key. -/
def assoc (key value xs : Value C) : Action C S (Value C) := Method.assoc.call [key, value, xs]

/-- A collection without a key. -/
def dissoc (key xs : Value C) : Action C S (Value C) := Method.dissoc.call [key, xs]

/-- The value under a key, as a `Maybe`. -/
def get (key xs : Value C) : Action C S (Value C) := Method.get.call [key, xs]

/-- The empty value of a value's type. -/
def empty (xs : Value C) : Action C S (Value C) := Method.empty.call [xs]

/-- Two values joined, the first one after the second. -/
def append (x xs : Value C) : Action C S (Value C) := Method.append.call [x, xs]

/-- The fold from the left; `f` is called with a value and the result so far. -/
def foldl (f : Func C) (initial xs : Value C) : Action C S (Value C) :=
  Method.foldl.call [.func f, initial, xs]

/-- The fold from the right; `f` is called with a value and the result so far. -/
def foldr (f : Func C) (initial xs : Value C) : Action C S (Value C) :=
  Method.foldr.call [.func f, initial, xs]

/-- A function applied to the values inside a container. -/
def map (f : Func C) (xs : Value C) : Action C S (Value C) := Method.map.call [.func f, xs]

/-- The result of `f` or of `g`, as the value decides. -/
def cata (f g : Func C) (x : Value C) : Action C S (Value C) :=
  Method.cata.call [.func f, .func g, x]

/-- Functions applied to the two sides of a value. -/
def bimap (f g : Func C) (x : Value C) : Action C S (Value C) :=
  Method.bimap.call [.func f, .func g, x]

/-- The functions inside one container applied to the values inside another one. -/
def ap (values functions : Value C) : Action C S (Value C) := Method.ap.call [values, functions]

/-- A value inside a container of the same type as another one. -/
def of (x m : Value C) : Action C S (Value C) := Method.of.call [x, m]

/-- A container of containers as one container. -/
def flatten (m : Value C) : Action C S (Value C) := Method.flatten.call [m]

end Generic

end DynamicDispatch

import DynamicDispatch.Collection.Lookup
import DynamicDispatch.Currying

/-!
# Folding and filtering

Folds over keys and values, the two quantifiers, and the collections of the entries on which a
function holds or does not hold.
-/

namespace DynamicDispatch.Collection

variable {C S : Type}

/-- Calls `f` on the key, the value under it, and the result so far. -/
def foldKey (f : Func C) (xs acc key : Value C) : Action C S (Value C) := do
  call f [key, ← getOrElse key .nil xs, acc]

/-- The fold over keys and values from the first key. -/
def foldlKv (f : Func C) (initial xs : Value C) : Action C S (Value C) := do
  (← keyList xs).foldlM (foldKey f xs) initial

/-- The fold over keys and values from the last key. -/
def foldrKv (f : Func C) (initial xs : Value C) : Action C S (Value C) := do
  (← keyList xs).reverse.foldlM (foldKey f xs) initial

/-- The step of `any`: calls `f` only while nothing was found. -/
def anyStep (f : Func C) (args : List (Value C)) : Action C S (Value C) := do
  if (argument args 1).truthy then return .bool true
  else return .bool (← call f [argument args 0]).truthy

/-- The step of `every`: calls `f` only while it held. -/
def everyStep (f : Func C) (args : List (Value C)) : Action C S (Value C) := do
  if (argument args 1).truthy then return .bool (← call f [argument args 0]).truthy
  else return .bool false

/-- Whether `f` holds on some value. -/
def any (f : Func C) (xs : Value C) : Action C S Bool := do
  let step ← Action.minting (newFunc "any" 2 (.anyStep f))
  return (← Generic.foldl step (.bool false) xs).truthy

/-- Whether `f` holds on every value. -/
def every (f : Func C) (xs : Value C) : Action C S Bool := do
  let step ← Action.minting (newFunc "every" 2 (.everyStep f))
  return (← Generic.foldl step (.bool true) xs).truthy

/-- Whether a value is a map, whose entries are added as pairs. -/
def isMap : Value C → Bool
  | .map _ => true
  | _ => false

/-- Adds the entry under a key to the result when `f` holds on it, or does not hold, as `keep`
says. -/
def keepKey (f : Func C) (keep : Bool) (xs acc key : Value C) : Action C S (Value C) := do
  let value ← getOrElse key .nil xs
  if (← call f [key, value]).truthy == keep then
    Generic.conj (if isMap xs then .list [key, value] else value) acc
  else return acc

/-- The entries on which `f` holds, or does not hold, as a collection of the same type. -/
def keepKv (f : Func C) (keep : Bool) (xs : Value C) : Action C S (Value C) := do
  let keys ← keyList xs
  keys.foldlM (keepKey f keep xs) (← Generic.empty xs)

/-- The entries on whose key and value `f` holds. -/
def filterKv (f : Func C) (xs : Value C) : Action C S (Value C) := keepKv f true xs

/-- The entries on whose key and value `f` does not hold. -/
def removeKv (f : Func C) (xs : Value C) : Action C S (Value C) := keepKv f false xs

/-- A function of a key and a value that applies `f` to the value. -/
def onValue (f : Func C) : StateM Nat (Func C) := newFunc f.name 2 (.onValue f)

/-- The entries on whose value `f` holds. -/
def filter (f : Func C) (xs : Value C) : Action C S (Value C) := do
  filterKv (← Action.minting (onValue f)) xs

/-- The entries on whose value `f` does not hold. -/
def remove (f : Func C) (xs : Value C) : Action C S (Value C) := do
  removeKv (← Action.minting (onValue f)) xs

end DynamicDispatch.Collection

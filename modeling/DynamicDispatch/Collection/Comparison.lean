import DynamicDispatch.Collection.Lookup
import DynamicDispatch.Extension

/-!
# Comparing collections key by key

Two collections of one type that can be looked into and have keys are compared by their keys and by
the values under them: for one level, or at every depth. Other values are compared as they are.
-/

namespace DynamicDispatch.Collection

variable {C S : Type}

/-- Whether two values are compared key by key. -/
def isKeyed (a b : Value C) : Action C S Bool := do
  if a.typeKey ≠ b.typeKey then return false
  else if ← implementsProtocol Method.get.protocol a then
    implementsProtocol Method.keys.protocol b
  else return false

/-- The keys of the second collection, if both have equally many and the first one has them all. -/
def sameKeys (a b : Value C) : Action C S (Option (List (Value C))) := do
  let aKeys ← keyList a
  let bKeys ← keyList b
  return if aKeys.length = bKeys.length ∧ bKeys.all (Value.memberOf · aKeys) then some bKeys else none

/-- Whether two collections have values under each of some keys that compare equal. -/
def agreeOn (compare : Value C → Value C → Action C S Bool) (a b : Value C) :
    List (Value C) → Action C S Bool
  | [] => return true
  | key :: keys => do
    let x ← getOrElse key .nil a
    let y ← getOrElse key .nil b
    if ← compare x y then agreeOn compare a b keys else return false

/-- Whether two keyed collections have the same keys and values that compare equal. -/
def agree (compare : Value C → Value C → Action C S Bool) (a b : Value C) : Action C S Bool := do
  match ← sameKeys a b with
  | some keys => agreeOn compare a b keys
  | none => return false

/-- Equality of one level of keys, with the values compared as they are. -/
def shallowEqual (a b : Value C) : Action C S Bool := do
  if a.isNil || b.isNil then return a.isNil && b.isNil
  else if ← isKeyed a b then agree (fun x y => return Value.equal x y) a b
  else return Value.equal a b

/-- Whether a value is a text. -/
def isText : Value C → Bool
  | .text _ => true
  | _ => false

/-- Equality at every level of keys. -/
def deepEqual (a b : Value C) : Action C S Bool := do
  if a.isNil || b.isNil then return a.isNil && b.isNil
  else if isText a || isText b then return Value.equal a b
  else if ← isKeyed a b then agree (fun x y => Action.request (.deepEqual x y)) a b
  else return Value.equal a b

end DynamicDispatch.Collection

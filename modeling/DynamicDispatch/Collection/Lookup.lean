import DynamicDispatch.Standard

/-!
# Looking up and writing along paths

A path leads through nested collections by one key per level. Nothing here knows a type: every level
is read and written by the protocols its type implements.
-/

namespace DynamicDispatch.Collection

variable {C S : Type}

/-- The value under a key, or another one when it is absent. -/
def getOrElse (key fallback xs : Value C) : Action C S (Value C) := do
  .done (Maybe.getOr fallback (← Generic.get key xs))

/-- The fields of an instance of a case named `Some`. -/
def presentFields? : Value C → Option (List (Value C))
  | .union type index fields => if type.caseName index == "Some" then some fields else none
  | _ => none

/-- The value at the end of a path, as a `Maybe`: none as soon as a key is missing. -/
def getIn : (path : List (Value C)) → Value C → Action C S (Value C)
  | [], xs => return Maybe.of xs
  | [key], xs => Generic.get key xs
  | key :: path, xs => do
    match presentFields? (← Generic.get key xs) with
    | some fields => getIn path (argument fields 0)
    | none => return Maybe.none

/-- The value at the end of a path, or another one when the path breaks. -/
def getInOrElse (path : List (Value C)) (fallback xs : Value C) : Action C S (Value C) := do
  .done (Maybe.getOr fallback (← getIn path xs))

/-- A value put at the end of a path. A missing level is created empty, of its parent's type. -/
def assocIn : (path : List (Value C)) → (value xs : Value C) → Action C S (Value C)
  | [], value, _ => return value
  | [key], value, xs => Generic.assoc key value xs
  | key :: path, value, xs => do
    let child ← match ← getOrElse key .nil xs with
      | .nil => Generic.empty xs
      | found => pure found
    Generic.assoc key (← assocIn path value child) xs

/-- The end of a path removed. A missing level leaves the collection as it is. -/
def dissocIn : (path : List (Value C)) → Value C → Action C S (Value C)
  | [], xs => return xs
  | [key], xs => Generic.dissoc key xs
  | key :: path, xs => do
    match ← getOrElse key .nil xs with
    | .nil => return xs
    | child => Generic.assoc key (← dissocIn path child) xs

/-- The keys of a collection. -/
def keyList (xs : Value C) : Action C S (List (Value C)) := do
  match ← Generic.keys xs with
  | .list keys => return keys
  | other => .fail (.typeMismatch "keys" "an Array of keys" other.typeName)

/-- What a change makes of the value under its key: a map of changes is made in it, a function is
applied to it, and anything else replaces it. -/
def changed (key change subject : Value C) : Action C S (Value C) :=
  match change with
  | .map _ => do
    let empty ← Generic.empty subject
    Action.request (.evolve change (← getOrElse key empty subject))
  | .func f => do call f [← getOrElse key .nil subject]
  | _ => return change

/-- A collection with a nested set of changes made, key by key. -/
def evolve (changes subject : Value C) : Action C S (Value C) := do
  (← keyList changes).foldlM (fun acc key => do
    let change ← getOrElse key .nil changes
    Generic.assoc key (← changed key change acc) acc) subject

end DynamicDispatch.Collection

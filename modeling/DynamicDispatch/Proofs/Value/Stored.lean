import DynamicDispatch.Methods.Declared
import DynamicDispatch.Proofs.Value.Entries
import DynamicDispatch.Standard

/-!
# What a value stores and what looking it up shows

A list, text, map or record has keys and stores a value under each. Looking a key up wraps the stored
value as a `Maybe` and the reader takes it out again, but a stored `Maybe` is not wrapped: it comes
out as what is inside it. `unwrapped` is what comes out of one look-up, and the views of a value have
it in the place of everything stored, on one level or on all of them.
-/

namespace DynamicDispatch

variable {C : Type}

open Methods

/-- What looking up a stored value and taking it out of the `Maybe` gives: the inside of a stored
`Maybe`, nil for one that has none, and any other value itself. -/
def Value.unwrapped : Value C → Value C
  | .union type index fields =>
    if type.id == (UnionType.maybe (C := C)).id then
      if type.caseName index == "Some" then argument fields 0 else .nil
    else .union type index fields
  | v => v

/-- The same with another value in the place of nil when nothing is there. -/
def Value.unwrappedOr (v fallback : Value C) : Value C :=
  match v with
  | .nil => fallback
  | .union type index fields =>
    if type.id == (UnionType.maybe (C := C)).id then
      if type.caseName index == "Some" then argument fields 0 else fallback
    else .union type index fields
  | v => v

/-- Wrapping a value as a `Maybe` and taking it out again, or another value when it is absent. -/
theorem Maybe.getOr_of_fallback (fallback v : Value C) :
    Maybe.getOr fallback (Maybe.of v) = .ok (v.unwrappedOr fallback) := by
  cases v with
  | union type index fields =>
    by_cases hid : (type.id == (UnionType.maybe (C := C)).id) = true
    · have hmaybe : UnionType.maybe.contains (.union type index fields) = true := hid
      rw [Maybe.of, if_pos hmaybe, Maybe.getOr, if_pos hid, Value.unwrappedOr, if_pos hid]
    · have hother : ¬ UnionType.maybe.contains (.union type index fields) = true := hid
      rw [Maybe.of, if_neg hother, Value.unwrappedOr, if_neg hid]
      rfl
  | _ => rfl

/-- With nil in its own place this is the value unwrapped. -/
theorem Value.unwrappedOr_nil (v : Value C) : v.unwrappedOr .nil = v.unwrapped := by
  cases v <;> rfl

/-- It is the other value or the value unwrapped. -/
theorem Value.unwrappedOr_eq_or (v fallback : Value C) :
    v.unwrappedOr fallback = fallback ∨ v.unwrappedOr fallback = v.unwrapped := by
  cases v with
  | nil => exact Or.inl rfl
  | union type index fields =>
    rw [unwrappedOr, unwrapped]
    split
    · split
      · exact Or.inr rfl
      · exact Or.inl rfl
    · exact Or.inr rfl
  | _ => exact Or.inr rfl

/-- Wrapping a value as a `Maybe` and taking it out again unwraps it. -/
theorem Maybe.getOr_of (v : Value C) : Maybe.getOr .nil (Maybe.of v) = .ok v.unwrapped := by
  rw [Maybe.getOr_of_fallback, Value.unwrappedOr_nil]

namespace Value

/-- What is no `Maybe` comes out of a look-up as it is. -/
theorem unwrapped_eq_self {v : Value C} (h : UnionType.maybe.contains v = false) :
    v.unwrapped = v := by
  cases v with
  | union type index fields =>
    have hid : ¬ (type.id == (UnionType.maybe (C := C)).id) = true := by
      rw [Bool.not_eq_true]
      exact h
    rw [unwrapped, if_neg hid]
  | _ => rfl

/-- The keys of a collection in order; other values have none. -/
def keys : Value C → List (Value C)
  | .list items => positionKeys items.length
  | .text s => positionKeys s.toList.length
  | .map entries => (entries.map (·.1)).map .text
  | .record type _ => type.fieldNames.map .text
  | _ => []

/-- Whether a value is a collection with keys. -/
def hasKeys : Value C → Bool
  | .list _ | .text _ | .map _ | .record _ _ => true
  | _ => false

/-- What a collection stores under a key; nil when there is nothing. -/
def storedUnder (v key : Value C) : Value C :=
  match v with
  | .list items => ((position? key).bind (items[·]?)).getD .nil
  | .text s => (((position? key).bind (s.toList[·]?)).map charValue).getD .nil
  | .map entries =>
    match mapKey .get key with
    | .ok name => (Entries.find? name entries).getD .nil
    | .error _ => .nil
  | .record type fields =>
    match key with
    | .text name => (fieldNamed? type fields name).getD .nil
    | _ => .nil
  | _ => .nil

/-- A value with a function applied to everything that it stores. A record is rebuilt field by field
from what is stored under the fields' names. -/
def mapStored (g : Value C → Value C) : Value C → Value C
  | .list items => .list (items.map g)
  | .map entries => .map (entries.map fun e => (e.1, g e.2))
  | .record type fields =>
    .record type (type.fieldNames.map fun name => g ((fieldNamed? type fields name).getD .nil))
  | v => v

/-- Applying a function inside leaves the type. -/
@[simp]
theorem typeKey_mapStored (g : Value C → Value C) (v : Value C) :
    (v.mapStored g).typeKey = v.typeKey := by
  cases v <;> rfl

/-- Nothing is applied inside a value that has no keys. -/
theorem mapStored_eq_self {v : Value C} (h : v.hasKeys = false) (g : Value C → Value C) :
    v.mapStored g = v := by
  cases v <;> first | rfl | cases h

/-- The fields of a record as they are found by name. -/
def byName (type : RecordType (Value C)) (fields : List (Value C)) : List (Value C) :=
  type.fieldNames.map fun name => (fieldNamed? type fields name).getD .nil

mutual

/-- A value with everything stored in it, at every depth, as looking it up shows it. A value that is
itself stored comes out unwrapped. -/
def seen (stored : Bool) : Value C → Value C
  | .list items => .list (seenAll items)
  | .map entries => .map (seenEntries entries)
  | .record type fields => .record type (byName type (seenAll fields))
  | .union type index fields =>
    if stored && type.id == (UnionType.maybe (C := C)).id then
      if type.caseName index == "Some" then seenFirst fields else .nil
    else .union type index fields
  | v => v

/-- The first value of a list, which is no longer stored; nil when there is none. -/
def seenFirst : List (Value C) → Value C
  | [] => .nil
  | v :: _ => seen false v

/-- Every value of a list as looking it up shows it. -/
def seenAll : List (Value C) → List (Value C)
  | [] => []
  | v :: vs => seen true v :: seenAll vs

/-- Every value of a map as looking it up shows it. -/
def seenEntries : List (String × Value C) → List (String × Value C)
  | [] => []
  | (k, v) :: rest => (k, seen true v) :: seenEntries rest

end

/-- A value as comparing it at every depth sees it. -/
def deepView (v : Value C) : Value C := seen false v

/-- A value as comparing one level of it sees it. -/
def shallowView (v : Value C) : Value C := v.mapStored unwrapped

/-- A stored value is seen as the value that it comes out as. -/
theorem seen_stored (v : Value C) : seen true v = v.unwrapped.deepView := by
  cases v with
  | union type index fields =>
    simp only [seen, unwrapped, Bool.true_and]
    by_cases hid : (type.id == (UnionType.maybe (C := C)).id) = true
    · rw [if_pos hid, if_pos hid]
      by_cases hsome : (type.caseName index == "Some") = true
      · rw [if_pos hsome, if_pos hsome]
        cases fields <;> rfl
      · rw [if_neg hsome, if_neg hsome]
        rfl
    · rw [if_neg hid, if_neg hid]
      rfl
  | _ => rfl

/-- The values of a list are seen one by one. -/
theorem seenAll_eq_map (items : List (Value C)) :
    seenAll items = items.map fun v => v.unwrapped.deepView := by
  induction items with
  | nil => rfl
  | cons v items ih => rw [seenAll, seen_stored, ih, List.map_cons]

/-- The values of a map are seen one by one. -/
theorem seenEntries_eq_map (entries : List (String × Value C)) :
    seenEntries entries = entries.map fun e => (e.1, e.2.unwrapped.deepView) := by
  induction entries with
  | nil => rfl
  | cons e entries ih => rw [seenEntries, seen_stored, ih, List.map_cons]

/-- At every depth, what is stored is seen as comparing it in turn sees it. -/
theorem deepView_eq (v : Value C) : v.deepView = v.mapStored fun x => x.unwrapped.deepView := by
  cases v with
  | list items => rw [deepView, seen, seenAll_eq_map, mapStored]
  | map entries => rw [deepView, seen, seenEntries_eq_map, mapStored]
  | record type fields =>
    have hname : ∀ name, (fieldNamed? type (seenAll fields) name).getD .nil =
        ((fieldNamed? type fields name).getD .nil).unwrapped.deepView := by
      intro name
      simp only [fieldNamed?, seenAll_eq_map]
      cases type.fieldNames.findIdx? (· == name) with
      | none => rfl
      | some i =>
        simp only [Option.bind_some, List.getElem?_map]
        cases fields[i]? <;> rfl
    simp only [deepView, seen, byName, hname, mapStored]
  | _ => rfl

end Value

end DynamicDispatch

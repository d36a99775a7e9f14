import DynamicDispatch.Proofs.Value.Equality
import DynamicDispatch.Proofs.Value.Stored

/-!
# Well-formed values

In a well-formed value maps are sorted and record types are known by their identities, at every depth.
This is what keys need: two collections of one type have the same keys as soon as they have equally
many and one has all keys of the other. What is read under a key is smaller than the collection and
well-formed again, so that reading can be followed by induction.
-/

namespace DynamicDispatch.Value

variable {C : Type}

open Methods

/-- The values in which every map is sorted and every record is of one of the given types. -/
inductive WellFormed (types : Nat → Option (RecordType (Value C))) : Value C → Prop
  | nil : WellFormed types .nil
  | bool (b : Bool) : WellFormed types (.bool b)
  | number (x : Float) : WellFormed types (.number x)
  | text (s : String) : WellFormed types (.text s)
  | list {items : List (Value C)} (hitems : ∀ v ∈ items, WellFormed types v) :
      WellFormed types (.list items)
  | map {entries : List (String × Value C)} (hsorted : Entries.Sorted entries)
      (hvalues : ∀ e ∈ entries, WellFormed types e.2) : WellFormed types (.map entries)
  | func (f : Func C) : WellFormed types (.func f)
  | record {type : RecordType (Value C)} {fields : List (Value C)}
      (htype : types type.id = some type) (hfields : ∀ v ∈ fields, WellFormed types v) :
      WellFormed types (.record type fields)
  | union {type : UnionType (Value C)} {index : Nat} {fields : List (Value C)}
      (hfields : ∀ v ∈ fields, WellFormed types v) : WellFormed types (.union type index fields)
  | task (t : Task C) : WellFormed types (.task t)
  | placeholder : WellFormed types .placeholder

/-- The values that a list, map or record stores. -/
def stored : Value C → List (Value C)
  | .list items => items
  | .map entries => entries.map (·.2)
  | .record _ fields => fields
  | _ => []

/-- Under a key of a value that is no text stands something that is stored, or nothing. -/
theorem storedUnder_eq_nil_or_mem (key : Value C) {v : Value C} (htext : ∀ s, v ≠ .text s) :
    v.storedUnder key = .nil ∨ v.storedUnder key ∈ v.stored := by
  cases v with
  | list items =>
    cases hfound : (position? key).bind (items[·]?) with
    | none => exact Or.inl (by simp [storedUnder, hfound])
    | some x =>
      obtain ⟨i, -, hi⟩ := Option.bind_eq_some_iff.mp hfound
      right
      simpa [storedUnder, hfound, stored] using List.mem_of_getElem? hi
  | map entries =>
    simp only [storedUnder]
    cases mapKey .get key with
    | error e => exact Or.inl rfl
    | ok name =>
      cases hfound : Entries.find? name entries with
      | none => exact Or.inl (by simp [hfound])
      | some x =>
        right
        simpa [hfound, stored] using ⟨name, Entries.mem_of_find?_eq_some hfound⟩
  | record type fields =>
    cases key with
    | text name =>
      cases hfound : fieldNamed? type fields name with
      | none => exact Or.inl (by simp [storedUnder, hfound])
      | some x =>
        obtain ⟨i, -, hi⟩ := Option.bind_eq_some_iff.mp hfound
        right
        simpa [storedUnder, hfound, stored] using List.mem_of_getElem? hi
    | _ => exact Or.inl rfl
  | text s => exact absurd rfl (htext s)
  | _ => exact Or.inl rfl

/-- What is stored is smaller than the value that stores it. -/
theorem sizeOf_lt_of_mem_stored {v x : Value C} (hx : x ∈ v.stored) : sizeOf x < sizeOf v := by
  cases v with
  | list items =>
    have hlt : sizeOf x < sizeOf items := List.sizeOf_lt_of_mem hx
    simp only [list.sizeOf_spec]
    omega
  | map entries =>
    obtain ⟨e, he, rfl⟩ := List.mem_map.mp hx
    have hlt := List.sizeOf_lt_of_mem he
    have hvalue : sizeOf e.2 < sizeOf e := by
      cases e
      simp only [Prod.mk.sizeOf_spec]
      omega
    simp only [map.sizeOf_spec]
    omega
  | record type fields =>
    have hlt : sizeOf x < sizeOf fields := List.sizeOf_lt_of_mem hx
    simp only [record.sizeOf_spec]
    omega
  | _ => exact absurd hx List.not_mem_nil

/-- What comes out of a `Maybe` is smaller than it. -/
theorem sizeOf_unwrapped_lt {v : Value C} (h : UnionType.maybe.contains v = true) :
    sizeOf v.unwrapped < sizeOf v := by
  cases v with
  | union type index fields =>
    have hid : (type.id == (UnionType.maybe (C := C)).id) = true := h
    have hnil : sizeOf (.nil : Value C) < sizeOf (union type index fields) := by
      have htype : 0 < sizeOf type := by
        cases type
        simp only [UnionType.mk.sizeOf_spec]
        omega
      simp only [nil.sizeOf_spec, union.sizeOf_spec]
      omega
    rw [unwrapped, if_pos hid]
    split
    · refine argument_of_forall (p := (sizeOf · < sizeOf (union type index fields))) hnil
        (fun x hx => ?_) 0
      have hlt := List.sizeOf_lt_of_mem hx
      simp only [union.sizeOf_spec]
      omega
    · exact hnil
  | _ => cases h

/-- What comes out of a look-up is no greater than what is stored. -/
theorem sizeOf_unwrapped_le (v : Value C) : sizeOf v.unwrapped ≤ sizeOf v := by
  cases h : UnionType.maybe.contains v with
  | true => exact Nat.le_of_lt (sizeOf_unwrapped_lt h)
  | false => exact Nat.le_of_eq (congrArg sizeOf (unwrapped_eq_self h))

/-- Induction along what comparing a value sees: a property holds of every value if it holds of one
whenever it holds of everything stored in it, unwrapped. -/
theorem viewInduction {motive : Value C → Prop}
    (step : ∀ v, (∀ x ∈ v.stored, motive x.unwrapped) → motive v) (v : Value C) : motive v := by
  induction hsize : sizeOf v using Nat.strongRecOn generalizing v with
  | ind n ih =>
    refine step v fun x hx => ih (sizeOf x.unwrapped) ?_ x.unwrapped rfl
    have hle := sizeOf_unwrapped_le x
    have hlt := sizeOf_lt_of_mem_stored hx
    omega

variable {types : Nat → Option (RecordType (Value C))}

/-- What comes out of a look-up is well-formed if the stored value is. -/
theorem WellFormed.unwrapped {v : Value C} (h : WellFormed types v) :
    WellFormed types v.unwrapped := by
  cases v with
  | union type index fields =>
    cases h with
    | union hfields =>
      rw [Value.unwrapped]
      split
      · split
        · exact argument_of_forall .nil hfields 0
        · exact .nil
      · exact .union hfields
  | _ => exact h

/-- Everything stored in a well-formed value is well-formed. -/
theorem WellFormed.of_mem_stored {v x : Value C} (h : WellFormed types v) (hx : x ∈ v.stored) :
    WellFormed types x := by
  cases h with
  | list hitems => exact hitems x hx
  | record _ hfields => exact hfields x hx
  | map _ hvalues =>
    obtain ⟨e, he, rfl⟩ := List.mem_map.mp hx
    exact hvalues e he
  | _ => exact absurd hx List.not_mem_nil

/-- What stands under a key of a well-formed value is well-formed. -/
theorem WellFormed.storedUnder {v : Value C} (h : WellFormed types v) (key : Value C) :
    WellFormed types (v.storedUnder key) := by
  by_cases htext : ∀ s, v ≠ .text s
  · rcases storedUnder_eq_nil_or_mem key htext with hnil | hmem
    · rw [hnil]
      exact .nil
    · exact h.of_mem_stored hmem
  · simp only [ne_eq, not_forall, not_not] at htext
    obtain ⟨s, rfl⟩ := htext
    rw [Value.storedUnder]
    cases (position? key).bind (s.toList[·]?) with
    | none => exact .nil
    | some c => exact .text _

/-- A text is among the texts made of some names exactly when it is one of them. -/
theorem memberOf_map_text {name : String} {names : List String} :
    memberOf (.text (C := C) name) (names.map .text) = true ↔ name ∈ names := by
  simp [memberOf, equal]

/-- Declared record types of one identity are the same. -/
theorem recordType_eq {s t : RecordType (Value C)} (hs : types s.id = some s)
    (ht : types t.id = some t) (hid : s.id = t.id) : s = t :=
  Option.some.inj ((hs.symm.trans (congrArg types hid)).trans ht)

/-- Sorted maps have the same keys as soon as they have equally many and one has all keys of the
other. -/
theorem keys_map_eq {entries other : List (String × Value C)} (hentries : Entries.Sorted entries)
    (hother : Entries.Sorted other)
    (hlength : (keys (.map entries)).length = (keys (.map other)).length)
    (hall : (keys (.map other)).all (memberOf · (keys (.map entries))) = true) :
    keys (.map entries) = keys (.map other) := by
  have hsubset : other.map (·.1) ⊆ entries.map (·.1) := fun name hname =>
    memberOf_map_text.mp (List.all_eq_true.mp hall (.text name) (List.mem_map_of_mem hname))
  have hnames : entries.map (·.1) = other.map (·.1) :=
    Entries.keys_eq_of_subset hentries.keys hother.keys (by simpa [keys] using hlength) hsubset
  exact congrArg (List.map Value.text) hnames

/-- Lists of positions are the same when they have the same length. -/
theorem positionKeys_eq {m n : Nat}
    (h : (positionKeys (C := C) m).length = (positionKeys (C := C) n).length) :
    positionKeys (C := C) m = positionKeys n := by
  rw [show m = n by simpa [positionKeys] using h]

/-- Well-formed values of one type have equally many keys, with all keys of one in the other, exactly
when the keys are the same and each is equal to itself. -/
theorem WellFormed.sameKeys_iff {a b : Value C} (ha : WellFormed types a) (hb : WellFormed types b)
    (htype : a.typeKey = b.typeKey) :
    (a.keys.length = b.keys.length ∧ b.keys.all (memberOf · a.keys) = true) ↔
      a.keys = b.keys ∧ b.keys.all (memberOf · b.keys) = true := by
  suffices h : a.keys.length = b.keys.length → b.keys.all (memberOf · a.keys) = true →
      a.keys = b.keys by
    constructor
    · rintro ⟨hlength, hall⟩
      have heq := h hlength hall
      exact ⟨heq, heq ▸ hall⟩
    · rintro ⟨heq, hall⟩
      exact ⟨congrArg List.length heq, heq ▸ hall⟩
  intro hlength hall
  cases ha with
  | list _ => cases hb <;> first | exact positionKeys_eq hlength | cases htype
  | text _ => cases hb <;> first | exact positionKeys_eq hlength | cases htype
  | map hentries _ =>
    cases hb with
    | map hother _ => exact keys_map_eq hentries hother hlength hall
    | _ => cases htype
  | record hs _ =>
    cases hb with
    | record ht _ => rw [recordType_eq hs ht (TypeKey.record.inj htype)]; rfl
    | _ => cases htype
  | _ => cases hb <;> first | rfl | cases htype

end DynamicDispatch.Value

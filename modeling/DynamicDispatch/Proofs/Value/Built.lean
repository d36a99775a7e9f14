import DynamicDispatch.Proofs.Number.Counting
import DynamicDispatch.Proofs.Value.WellFormed

/-!
# Built values

Values come from constructors that keep maps sorted, give a record as many fields as its type has and
know every type by its identity. For such values what is stored can be read back key by key, so that
two of them are equal inside exactly when they have the same keys and are equal under each. The one
assumption about numbers is that a position survives being a number.
-/

namespace DynamicDispatch.Value

variable {C : Type}

open Methods

/-- Every position below a length is addressed by its own number. -/
def Addressable (length : Nat) : Prop :=
  ∀ i < length, Number.position? (Number.ofCount i) = some i

/-- A length up to `2 ^ 53` is addressable. -/
theorem addressable_of_le {length : Nat} (h : length ≤ 2 ^ 53) : Addressable length :=
  fun _ hi => Number.position?_ofCount (Nat.lt_of_lt_of_le hi h)

/-- The values that constructors and operations give, when the record types are those given. -/
inductive Built (types : Nat → Option (RecordType (Value C))) : Value C → Prop
  | nil : Built types .nil
  | bool (b : Bool) : Built types (.bool b)
  | number (x : Float) : Built types (.number x)
  | text {s : String} (haddressable : Addressable s.toList.length) : Built types (.text s)
  | list {items : List (Value C)} (haddressable : Addressable items.length)
      (hitems : ∀ v ∈ items, Built types v) : Built types (.list items)
  | map {entries : List (String × Value C)} (hsorted : Entries.Sorted entries)
      (hvalues : ∀ e ∈ entries, Built types e.2) : Built types (.map entries)
  | func (f : Func C) : Built types (.func f)
  | record {type : RecordType (Value C)} {fields : List (Value C)}
      (htype : types type.id = some type) (hlength : fields.length = type.fields.length)
      (hfields : ∀ v ∈ fields, Built types v) : Built types (.record type fields)
  | union {type : UnionType (Value C)} {index : Nat} {fields : List (Value C)}
      (hmaybe : type.id = (UnionType.maybe (C := C)).id → type = .maybe)
      (hfields : ∀ v ∈ fields, Built types v) : Built types (.union type index fields)
  | task (t : Task C) : Built types (.task t)
  | placeholder : Built types .placeholder

variable {types : Nat → Option (RecordType (Value C))}

/-- An argument that callers may leave out is built if the given ones are. -/
theorem built_argument {args : List (Value C)} (h : ∀ v ∈ args, Built types v) (i : Nat) :
    Built types (argument args i) := argument_of_forall .nil h i

/-- What comes out of a look-up is built if the stored value is. -/
theorem built_unwrapped {v : Value C} (h : Built types v) : Built types v.unwrapped := by
  cases v with
  | union type index fields =>
    cases h with
    | union hmaybe hfields =>
      rw [unwrapped]
      split
      · split
        · exact built_argument hfields 0
        · exact .nil
      · exact .union hmaybe hfields
  | _ => exact h

/-- Everything stored in a built value is built. -/
theorem Built.of_mem_stored {v x : Value C} (h : Built types v) (hx : x ∈ v.stored) :
    Built types x := by
  cases h with
  | list _ hitems => exact hitems x hx
  | record _ _ hfields => exact hfields x hx
  | map _ hvalues =>
    obtain ⟨e, he, rfl⟩ := List.mem_map.mp hx
    exact hvalues e he
  | _ => exact absurd hx List.not_mem_nil

/-- A single character is a built text. -/
theorem built_charValue (c : Char) : Built types (charValue (C := C) c) := by
  refine .text fun i hi => ?_
  have hlength : (String.singleton c).toList.length = 1 := by simp
  obtain rfl : i = 0 := by omega
  decide +kernel

/-- What stands under a key of a built value is built. -/
theorem built_storedUnder {v : Value C} (h : Built types v) (key : Value C) :
    Built types (v.storedUnder key) := by
  by_cases htext : ∀ s, v ≠ .text s
  · rcases storedUnder_eq_nil_or_mem key htext with hnil | hmem
    · rw [hnil]
      exact .nil
    · exact h.of_mem_stored hmem
  · simp only [ne_eq, not_forall, not_not] at htext
    obtain ⟨s, rfl⟩ := htext
    rw [storedUnder]
    cases (position? key).bind (s.toList[·]?) with
    | none => exact .nil
    | some c => exact built_charValue c

/-- Induction along what comparing a value sees: a property holds of every built value if it holds of
one whenever it holds of everything stored in it, unwrapped. -/
theorem Built.viewInduction {motive : Value C → Prop}
    (step : ∀ v, Built types v → (∀ x ∈ v.stored, motive x.unwrapped) → motive v) {v : Value C}
    (h : Built types v) : motive v := by
  refine Value.viewInduction (motive := fun v => Built types v → motive v) (fun v ih hv => ?_) v h
  exact step v hv fun x hx => ih x hx (built_unwrapped (hv.of_mem_stored hx))

/-- Below a length that is addressable, a position's number leads back to it. -/
theorem position?_countValue {length i : Nat} (h : Addressable length) (hi : i < length) :
    position? (countValue (C := C) i) = some i := h i hi

/-- A list is read back from its positions. -/
theorem map_storedUnder_list {items : List (Value C)} (h : Addressable items.length) :
    (keys (.list items)).map (storedUnder (.list items)) = items := by
  apply List.ext_getElem
  · simp [keys, positionKeys]
  · intro i hi hi'
    simp [keys, positionKeys, storedUnder, position?_countValue h hi', hi']

/-- The characters of a text are read back from its positions. -/
theorem map_storedUnder_text {s : String} (h : Addressable s.toList.length) :
    (keys (.text s)).map (storedUnder (C := C) (.text s)) =
      s.toList.map charValue := by
  apply List.ext_getElem
  · simp [keys, positionKeys]
  · intro i hi hi'
    rw [List.length_map] at hi'
    simp only [keys, positionKeys, storedUnder, List.map_map, List.getElem_map,
      List.getElem_range, Function.comp_apply, position?_countValue h hi', Option.bind_some,
      List.getElem?_eq_getElem hi', Option.map_some, Option.getD_some]

/-- A key of a built value is equal to itself. -/
theorem Built.equal_key_self {v : Value C} (h : Built types v) : ∀ k ∈ v.keys, equal k k = true := by
  have hpositions : ∀ length, Addressable length →
      ∀ k ∈ positionKeys (C := C) length, equal k k = true := by
    intro length haddressable k hk
    obtain ⟨i, hi, rfl⟩ := List.mem_map.mp hk
    exact Number.beq_self_of_position? (haddressable i (List.mem_range.mp hi))
  intro k hk
  cases h with
  | list haddressable _ => exact hpositions _ haddressable k hk
  | text haddressable => exact hpositions _ haddressable k hk
  | map _ _ =>
    obtain ⟨name, -, rfl⟩ := List.mem_map.mp hk
    simp [equal]
  | record _ _ _ =>
    obtain ⟨name, -, rfl⟩ := List.mem_map.mp hk
    simp [equal]
  | _ => exact absurd hk List.not_mem_nil

/-- Built values are well-formed. -/
theorem Built.wellFormed {v : Value C} (h : Built types v) : WellFormed types v := by
  induction h with
  | nil => exact .nil
  | bool b => exact .bool b
  | number x => exact .number x
  | text _ => exact .text _
  | list _ _ ih => exact .list ih
  | map hsorted _ ih => exact .map hsorted ih
  | func f => exact .func f
  | record htype _ _ ih => exact .record htype ih
  | union _ _ ih => exact .union ih
  | task t => exact .task t
  | placeholder => exact .placeholder

/-- The keys of a built value are all among themselves. -/
theorem Built.all_memberOf_keys {v : Value C} (h : Built types v) :
    v.keys.all (memberOf · v.keys) = true :=
  List.all_eq_true.mpr fun k hk => List.any_eq_true.mpr ⟨k, hk, h.equal_key_self k hk⟩

/-- Texts are equal exactly when they are character by character, each as a value. -/
theorem equal_text_iff {s t : String} :
    equal (.text (C := C) s) (.text t) = true ↔
      List.Forall₂ (fun x y => equal x y = true) (s.toList.map (charValue (C := C)))
        (t.toList.map charValue) := by
  have hchar : ∀ c d : Char,
      equal (charValue (C := C) c) (charValue d) = true ↔ c = d := by
    intro c d
    simp [charValue, equal, String.singleton_inj]
  simp only [List.forall₂_map_left_iff, List.forall₂_map_right_iff, hchar, List.forall₂_eq_eq_eq,
    String.toList_inj, equal, beq_iff_eq]

/-- Two collections have the same keys and, under each of them, values that a function makes
equal. -/
def AgreeUnder (g : Value C → Value C) (a b : Value C) : Prop :=
  a.keys = b.keys ∧ ∀ k ∈ b.keys, equal (g (a.storedUnder k)) (g (b.storedUnder k)) = true

/-- Lists are equal inside when they agree under their positions. -/
theorem equal_mapStored_list_iff {items other : List (Value C)} (hitems : Addressable items.length)
    (hother : Addressable other.length) (g : Value C → Value C) :
    equal (mapStored g (.list items)) (mapStored g (.list other)) = true ↔
      AgreeUnder g (.list items) (.list other) := by
  conv_lhs => rw [← map_storedUnder_list hitems, ← map_storedUnder_list hother]
  rw [mapStored, mapStored, equal, equalAll_iff, List.map_map, List.map_map,
    List.forall₂_map_left_iff, List.forall₂_map_right_iff]
  exact forall₂_iff_same fun h => positionKeys_eq h.length_eq

/-- Texts are equal when they agree under their positions, if texts are left as they are. -/
theorem equal_mapStored_text_iff {s t : String} (hs : Addressable s.toList.length)
    (ht : Addressable t.toList.length) {g : Value C → Value C} (hg : ∀ s, g (.text s) = .text s) :
    equal (mapStored g (.text s)) (mapStored g (.text t)) = true ↔
      AgreeUnder g (.text s) (.text t) := by
  have hfixed : ∀ u : String, u.toList.map (charValue (C := C)) =
      (u.toList.map charValue).map g := by
    intro u
    simp [List.map_map, Function.comp_def, charValue, hg]
  change equal (.text s) (.text t) = true ↔ _
  rw [equal_text_iff, hfixed s, hfixed t, ← map_storedUnder_text hs, ← map_storedUnder_text ht,
    List.map_map, List.map_map, List.forall₂_map_left_iff, List.forall₂_map_right_iff]
  exact forall₂_iff_same fun h => positionKeys_eq h.length_eq

/-- Sorted maps are equal inside when they agree under their keys. -/
theorem equal_mapStored_map_iff {entries other : List (String × Value C)}
    (hentries : Entries.Sorted entries) (hother : Entries.Sorted other) (g : Value C → Value C) :
    equal (mapStored g (.map entries)) (mapStored g (.map other)) = true ↔
      AgreeUnder g (.map entries) (.map other) := by
  have hkeys : keys (.map entries) = keys (.map other) ↔
      entries.map (·.1) = other.map (·.1) := List.map_inj_right fun _ _ h => Value.text.inj h
  rw [mapStored, mapStored, equal, hentries.map_eq_map_find? g .nil,
    hother.map_eq_map_find? g .nil, equalEntries_map_iff, AgreeUnder, hkeys]
  refine and_congr_right fun _ => ?_
  rw [keys, List.forall_mem_map (f := Value.text)]
  rfl

/-- Records of one type are equal inside when they agree under the names of the fields. -/
theorem equal_mapStored_record_iff (type : RecordType (Value C)) (as bs : List (Value C))
    (g : Value C → Value C) :
    equal (mapStored g (.record type as)) (mapStored g (.record type bs)) = true ↔
      AgreeUnder g (.record type as) (.record type bs) := by
  rw [mapStored, mapStored, equal, beq_self_eq_true, Bool.true_and, equalAll_iff,
    List.forall₂_map_left_iff, List.forall₂_map_right_iff, List.forall₂_same, AgreeUnder, keys,
    keys, List.forall_mem_map]
  exact (and_iff_right rfl).symm

/-- Built collections of one type are equal inside exactly when they agree under their keys. The
characters of a text are what they are, so the function may not change texts. -/
theorem Built.equal_mapStored_iff {a b : Value C} (ha : Built types a) (hb : Built types b)
    (htype : a.typeKey = b.typeKey) (hkeyed : a.hasKeys = true) {g : Value C → Value C}
    (hg : ∀ s, g (.text s) = .text s) :
    equal (a.mapStored g) (b.mapStored g) = true ↔ AgreeUnder g a b := by
  cases ha with
  | list hitems _ =>
    cases hb with
    | list hother _ => exact equal_mapStored_list_iff hitems hother g
    | _ => cases htype
  | text hs =>
    cases hb with
    | text ht => exact equal_mapStored_text_iff hs ht hg
    | _ => cases htype
  | map hentries _ =>
    cases hb with
    | map hother _ => exact equal_mapStored_map_iff hentries hother g
    | _ => cases htype
  | @record s as hs _ _ =>
    cases hb with
    | @record t bs ht _ _ =>
      obtain rfl := recordType_eq hs ht (TypeKey.record.inj htype)
      exact equal_mapStored_record_iff s as bs g
    | _ => cases htype
  | _ => cases hkeyed

end DynamicDispatch.Value

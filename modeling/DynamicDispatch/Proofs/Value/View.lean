import DynamicDispatch.Proofs.Value.Built
import Mathlib.Data.List.Nodup

/-!
# Views and equality

The views of a value forget the `Maybe` around a stored value and all but the first of several fields
of one name, and nothing else: equal values have equal views, and where neither occurs a value is its
own view.
-/

namespace DynamicDispatch.Value

variable {C : Type} {types : Nat → Option (RecordType (Value C))}

open Methods

/-- Equal built values come out equal when they are unwrapped. -/
theorem equal_unwrapped {a b : Value C} (ha : Built types a) (hb : Built types b)
    (h : equal a b = true) : equal a.unwrapped b.unwrapped = true := by
  cases ha with
  | @union s i as hs _ =>
    cases hb with
    | @union t j bs ht _ =>
      simp only [equal, Bool.and_eq_true, beq_iff_eq] at h
      obtain ⟨⟨hid, rfl⟩, hfields⟩ := h
      by_cases hmaybe : s.id = (UnionType.maybe (C := C)).id
      · obtain rfl := hs hmaybe
        obtain rfl := ht (hid.symm.trans hmaybe)
        have hfirst : equal (argument as 0) (argument bs 0) = true := by
          cases equalAll_iff.mp hfields with
          | nil => rfl
          | cons h _ => exact h
        simp only [unwrapped, beq_self_eq_true, if_true]
        split
        · exact hfirst
        · rfl
      · have hother : t.id ≠ (UnionType.maybe (C := C)).id := fun ht => hmaybe (hid.trans ht)
        simp only [unwrapped, beq_iff_eq, if_neg hother, equal, hid,
          beq_self_eq_true, Bool.true_and, hfields]
    | _ => simp [equal] at h
  | _ =>
    cases hb with
    | union _ _ => simp [equal] at h
    | _ => exact h

/-- What is found by one name in equal lists of fields is equal. -/
theorem equal_fieldNamed? {type : RecordType (Value C)} {as bs : List (Value C)}
    (h : equalAll as bs = true) {g : Value C → Value C} (hnil : g .nil = .nil)
    (hg : ∀ x ∈ as, ∀ y ∈ bs, equal x y = true → equal (g x) (g y) = true) (name : String) :
    equal (g ((fieldNamed? type as name).getD .nil)) (g ((fieldNamed? type bs name).getD .nil)) =
      true := by
  have hall := List.forall₂_iff_get.mp (equalAll_iff.mp h)
  unfold fieldNamed?
  cases type.fieldNames.findIdx? (· == name) with
  | none => simp [hnil, equal]
  | some i =>
    simp only [Option.bind_some]
    by_cases hi : i < as.length
    · have hi' : i < bs.length := hall.1 ▸ hi
      rw [List.getElem?_eq_getElem hi, List.getElem?_eq_getElem hi', Option.getD_some,
        Option.getD_some]
      exact hg _ (List.getElem_mem hi) _ (List.getElem_mem hi') (hall.2 i hi hi')
    · have hi' : ¬ i < bs.length := hall.1 ▸ hi
      rw [List.getElem?_eq_none (by omega), List.getElem?_eq_none (by omega), Option.getD_none, hnil]
      rfl

/-- What holds position by position implies what follows from it for members. -/
theorem forall₂_imp_of_mem {A B : Type} {R P : A → B → Prop} {as : List A} {bs : List B}
    (h : List.Forall₂ R as bs) (himp : ∀ a ∈ as, ∀ b ∈ bs, R a b → P a b) :
    List.Forall₂ P as bs := by
  rw [List.forall₂_iff_zip] at h ⊢
  refine ⟨h.1, fun hab => ?_⟩
  have hmem := List.of_mem_zip hab
  exact himp _ hmem.1 _ hmem.2 (h.2 hab)

/-- A function that keeps stored values equal keeps the values that store them equal. -/
theorem equal_mapStored {a b : Value C} (ha : Built types a) (hb : Built types b)
    {g : Value C → Value C} (hnil : g .nil = .nil)
    (hg : ∀ x ∈ a.stored, ∀ y ∈ b.stored, equal x y = true → equal (g x) (g y) = true)
    (h : equal a b = true) : equal (a.mapStored g) (b.mapStored g) = true := by
  cases ha with
  | list _ _ =>
    cases hb with
    | list _ _ =>
      rw [mapStored, mapStored, equal, equalAll_iff, List.forall₂_map_left_iff,
        List.forall₂_map_right_iff]
      rw [equal, equalAll_iff] at h
      exact forall₂_imp_of_mem h hg
    | _ => simp [equal] at h
  | map _ _ =>
    cases hb with
    | map _ _ =>
      rw [mapStored, mapStored, equal, equalEntries_iff, List.forall₂_map_left_iff,
        List.forall₂_map_right_iff]
      rw [equal, equalEntries_iff] at h
      refine forall₂_imp_of_mem h fun x hx y hy hxy => ⟨hxy.1, ?_⟩
      exact hg x.2 (List.mem_map_of_mem hx) y.2 (List.mem_map_of_mem hy) hxy.2
    | _ => simp [equal] at h
  | record hs _ _ =>
    cases hb with
    | record ht _ _ =>
      rw [equal, Bool.and_eq_true, beq_iff_eq] at h
      obtain rfl := recordType_eq hs ht h.1
      rw [mapStored, mapStored, equal, beq_self_eq_true, Bool.true_and, equalAll_iff,
        List.forall₂_map_left_iff, List.forall₂_map_right_iff, List.forall₂_same]
      exact fun name _ => equal_fieldNamed? h.2 hnil hg name
    | _ => simp [equal] at h
  | text _ =>
    cases hb with
    | text _ => exact h
    | _ => simp [equal] at h
  | _ => cases hb <;> exact h

/-- Equal built values are seen equal on one level. -/
theorem equal_shallowView {a b : Value C} (ha : Built types a) (hb : Built types b)
    (h : equal a b = true) : equal a.shallowView b.shallowView = true :=
  equal_mapStored ha hb rfl
    (fun _ hx _ hy hxy => equal_unwrapped (ha.of_mem_stored hx) (hb.of_mem_stored hy) hxy) h

/-- Equal built values are seen equal at every depth. -/
theorem equal_deepView {a b : Value C} (ha : Built types a) (hb : Built types b)
    (h : equal a b = true) : equal a.deepView b.deepView = true := by
  revert b
  refine Built.viewInduction (motive := fun a => ∀ {b}, Built types b → equal a b = true →
    equal a.deepView b.deepView = true) (fun v hv ih b hb h => ?_) ha
  rw [deepView_eq v, deepView_eq b]
  refine equal_mapStored hv hb rfl (fun x hx y hy hxy => ?_) h
  exact ih x hx (built_unwrapped (hb.of_mem_stored hy))
    (equal_unwrapped (hv.of_mem_stored hx) (hb.of_mem_stored hy) hxy)

/-- Values in which nothing is hidden by a look-up: no `Maybe` is stored at any depth, and the fields
of a record have different names. The inside of a union instance is not looked up. -/
inductive Transparent : Value C → Prop
  | list {items : List (Value C)} (hmaybe : ∀ v ∈ items, UnionType.maybe.contains v = false)
      (hitems : ∀ v ∈ items, Transparent v) : Transparent (.list items)
  | map {entries : List (String × Value C)}
      (hmaybe : ∀ e ∈ entries, UnionType.maybe.contains e.2 = false)
      (hvalues : ∀ e ∈ entries, Transparent e.2) : Transparent (.map entries)
  | record {type : RecordType (Value C)} {fields : List (Value C)} (hnames : type.fieldNames.Nodup)
      (hmaybe : ∀ v ∈ fields, UnionType.maybe.contains v = false)
      (hfields : ∀ v ∈ fields, Transparent v) : Transparent (.record type fields)
  | leaf {v : Value C} (hstored : v.stored = []) (hrecord : v.kind ≠ .record) : Transparent v

/-- Fields of different names are found by name where they stand. -/
theorem byName_eq_self {type : RecordType (Value C)} {fields : List (Value C)}
    (hnames : type.fieldNames.Nodup) (hlength : fields.length = type.fields.length) :
    byName type fields = fields := by
  have hcount : type.fieldNames.length = fields.length := by
    rw [hlength, RecordType.fieldNames, List.length_map]
  apply List.ext_getElem
  · rw [byName, List.length_map, hcount]
  · intro i hi hi'
    have hname : i < type.fieldNames.length := hcount.symm ▸ hi'
    have hfound : type.fieldNames.findIdx? (· == type.fieldNames[i]) = some i := by
      rw [List.findIdx?_eq_some_iff_getElem]
      refine ⟨hname, beq_self_eq_true _, fun j hj heq => ?_⟩
      exact absurd ((List.Nodup.getElem_inj_iff hnames).mp (beq_iff_eq.mp heq)) (Nat.ne_of_lt hj)
    simp [byName, fieldNamed?, hfound, hi']

/-- A function that leaves stored values as they are leaves a transparent value as it is. -/
theorem Transparent.mapStored_eq_self {v : Value C} (hv : Built types v) (h : Transparent v)
    {g : Value C → Value C} (hg : ∀ x ∈ v.stored, g x = x) : v.mapStored g = v := by
  cases hv with
  | @list items _ _ =>
    have hitems : items.map g = items := (List.map_congr_left hg).trans (List.map_id items)
    rw [mapStored, hitems]
  | @map entries _ _ =>
    have hentries : entries.map (fun e => (e.1, g e.2)) = entries := by
      refine (List.map_congr_left fun e he => ?_).trans (List.map_id entries)
      rw [hg e.2 (List.mem_map_of_mem he)]
      rfl
    rw [mapStored, hentries]
  | @record type fields _ hlength _ =>
    have hbyName : byName type fields = fields := by
      cases h with
      | record hnames _ _ => exact byName_eq_self hnames hlength
      | leaf _ hrecord => exact absurd rfl hrecord
    have hfields : fields.map g = fields := (List.map_congr_left hg).trans (List.map_id fields)
    have hmap : (type.fieldNames.map fun name => g ((fieldNamed? type fields name).getD .nil)) =
        (byName type fields).map g := by
      rw [byName, List.map_map]
      rfl
    rw [mapStored, hmap, hbyName, hfields]
  | _ => rfl

/-- What is stored in a transparent value is transparent and no `Maybe`. -/
theorem Transparent.of_mem_stored {v x : Value C} (h : Transparent v) (hx : x ∈ v.stored) :
    Transparent x ∧ x.unwrapped = x := by
  cases h with
  | list hmaybe hitems => exact ⟨hitems x hx, unwrapped_eq_self (hmaybe x hx)⟩
  | map hmaybe hvalues =>
    obtain ⟨e, he, rfl⟩ := List.mem_map.mp hx
    exact ⟨hvalues e he, unwrapped_eq_self (hmaybe e he)⟩
  | record _ hmaybe hfields => exact ⟨hfields x hx, unwrapped_eq_self (hmaybe x hx)⟩
  | leaf hstored _ => exact absurd (hstored ▸ hx) List.not_mem_nil

/-- A transparent value is its own view on one level. -/
theorem Transparent.shallowView_eq_self {v : Value C} (hv : Built types v) (h : Transparent v) :
    v.shallowView = v :=
  h.mapStored_eq_self hv fun _ hx => (h.of_mem_stored hx).2

/-- A transparent value is its own view at every depth. -/
theorem Transparent.deepView_eq_self {v : Value C} (hv : Built types v) (h : Transparent v) :
    v.deepView = v := by
  revert h
  refine Built.viewInduction (motive := fun v => Transparent v → v.deepView = v)
    (fun v hv ih h => ?_) hv
  rw [deepView_eq]
  refine h.mapStored_eq_self hv fun x hx => ?_
  obtain ⟨htransparent, hself⟩ := h.of_mem_stored hx
  exact (ih x hx (hself.symm ▸ htransparent)).trans hself

end DynamicDispatch.Value

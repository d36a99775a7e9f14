import DynamicDispatch.Interpreter
import DynamicDispatch.Proofs.Collection.Lookup
import DynamicDispatch.Proofs.Value.View

/-!
# Comparing collections

Comparing two built values key by key always ends with an answer, and the answer is the equality of
their views: of one level for the shallow comparison, of every level for the deep one. So equal values
always compare equal, and values that hide nothing from a look-up compare equal only if they are. A
`Maybe` stored under a key is hidden, and so is a field whose name an earlier field has.
-/

namespace DynamicDispatch.Collection

variable {C S : Type} {types : Nat → Option (RecordType (Value C))} {w : World C S}

open DynamicDispatch.Action Value

/-- Values that are not compared key by key are as equal as their insides. -/
theorem equal_mapStored_of_not_keyed {a b : Value C}
    (h : (decide (a.typeKey = b.typeKey) && a.hasKeys) = false) (g : Value C → Value C) :
    equal (a.mapStored g) (b.mapStored g) = equal a b := by
  by_cases htype : a.typeKey = b.typeKey
  · rw [decide_eq_true htype, Bool.true_and] at h
    rw [mapStored_eq_self h, mapStored_eq_self (hasKeys_eq_of_typeKey_eq htype ▸ h)]
  · have hne : ¬ equal a b = true := fun heq => htype (typeKey_eq_of_equal heq)
    have hview : ¬ equal (a.mapStored g) (b.mapStored g) = true := fun heq =>
      htype (by simpa using typeKey_eq_of_equal heq)
    rw [Bool.not_eq_true] at hne hview
    rw [hne, hview]

/-- Nil is equal to itself alone, and so is the inside of it. -/
theorem equal_mapStored_of_isNil {a b : Value C} (h : (a.isNil || b.isNil) = true)
    (g : Value C → Value C) :
    equal (a.mapStored g) (b.mapStored g) = (a.isNil && b.isNil) := by
  rcases Bool.or_eq_true_iff.mp h with h | h
  · cases a with
    | nil => cases b <;> rfl
    | _ => cases h
  · cases b with
    | nil => cases a <;> rfl
    | _ => cases h

variable [Embedding C S]

/-- The keys of two collections of one type are found the same exactly when they are, and each of them
is equal to itself. -/
theorem yields_sameKeys (hw : w.registry.StandardLookup types) {a b : Value C}
    (ha : a.WellFormed types) (hb : b.WellFormed types) (htype : a.typeKey = b.typeKey)
    (hakeys : a.hasKeys = true) (hbkeys : b.hasKeys = true) :
    ∃ same : Option (List (Value C)), (sameKeys a b).Yields w (.ok same) w ∧
      (a.keys = b.keys ∧ b.keys.all (memberOf · b.keys) = true → same = some b.keys) ∧
      (¬ (a.keys = b.keys ∧ b.keys.all (memberOf · b.keys) = true) → same = none) := by
  refine ⟨_, (yields_keyList hw ha hakeys).bind ((yields_keyList hw hb hbkeys).bind
    (yields_pure _ w)), fun hsame => ?_, fun hother => ?_⟩
  · exact if_pos ((ha.sameKeys_iff hb htype).mpr hsame)
  · exact if_neg fun h => hother ((ha.sameKeys_iff hb htype).mp h)

/-- Comparing two collections under some keys ends with whether every comparison holds. -/
theorem yields_agreeOn (hw : w.registry.StandardLookup types) {a b : Value C}
    (ha : a.WellFormed types) (hb : b.WellFormed types) (hakeys : a.hasKeys = true)
    (hbkeys : b.hasKeys = true) {compare : Value C → Value C → Action C S Bool}
    {holds : Value C → Bool} {keys : List (Value C)}
    (hkeys : ∀ k ∈ keys, k.isPlaceholder = false)
    (hcompare : ∀ k ∈ keys, (compare (a.storedUnder k).unwrapped (b.storedUnder k).unwrapped).Yields
      w (.ok (holds k)) w) :
    (agreeOn compare a b keys).Yields w (.ok (keys.all holds)) w := by
  induction keys with
  | nil => exact yields_pure true w
  | cons k keys ih =>
    obtain ⟨hk, hkeys⟩ := List.forall_mem_cons.mp hkeys
    obtain ⟨hfirst, hcompare⟩ := List.forall_mem_cons.mp hcompare
    rw [List.all_cons]
    refine (yields_getOrElse hw ha hakeys hk).bind ((yields_getOrElse hw hb hbkeys hk).bind ?_)
    refine hfirst.bind ?_
    cases holds k with
    | false => exact yields_pure false w
    | true => exact ih hkeys hcompare

/-- Comparing two collections of one type key by key ends with the equality of their insides, when
comparing what is read under each key ends with the equality of what is stored there. -/
theorem yields_agree (hw : w.registry.StandardLookup types) {a b : Value C} (ha : a.Built types)
    (hb : b.Built types) (htype : a.typeKey = b.typeKey) (hakeys : a.hasKeys = true)
    {compare : Value C → Value C → Action C S Bool} {g : Value C → Value C}
    (hg : ∀ s, g (.text s) = .text s)
    (hcompare : ∀ k ∈ b.keys, (compare (a.storedUnder k).unwrapped (b.storedUnder k).unwrapped).Yields
      w (.ok (equal (g (a.storedUnder k)) (g (b.storedUnder k)))) w) :
    (agree compare a b).Yields w (.ok (equal (a.mapStored g) (b.mapStored g))) w := by
  have hbkeys : b.hasKeys = true := hasKeys_eq_of_typeKey_eq htype ▸ hakeys
  have hiff := ha.equal_mapStored_iff hb htype hakeys hg
  obtain ⟨same, hsame, hpos, hneg⟩ :=
    yields_sameKeys hw ha.wellFormed hb.wellFormed htype hakeys hbkeys
  refine hsame.bind ?_
  by_cases hkeys : a.keys = b.keys
  · have hall : equal (a.mapStored g) (b.mapStored g) =
        b.keys.all fun k => equal (g (a.storedUnder k)) (g (b.storedUnder k)) := by
      rw [Bool.eq_iff_iff, List.all_eq_true, hiff, AgreeUnder, and_iff_right hkeys]
    rw [hpos ⟨hkeys, hb.all_memberOf_keys⟩, hall]
    exact yields_agreeOn hw ha.wellFormed hb.wellFormed hakeys hbkeys
      (fun k hk => isPlaceholder_key hk) hcompare
  · have hfalse : equal (a.mapStored g) (b.mapStored g) = false := by
      rw [← Bool.not_eq_true, hiff]
      exact fun h => hkeys h.1
    rw [hneg fun h => hkeys h.1, hfalse]
    exact yields_pure false w

/-- Comparing two values key by key where both have keys, and as they are otherwise, ends with the equality
of their insides. -/
theorem yields_keyed (hw : w.registry.StandardLookup types) {a b : Value C} (ha : a.Built types)
    (hb : b.Built types) {compare : Value C → Value C → Action C S Bool} {g : Value C → Value C}
    (hg : ∀ s, g (.text s) = .text s)
    (hcompare : ∀ k ∈ b.keys, (compare (a.storedUnder k).unwrapped (b.storedUnder k).unwrapped).Yields
      w (.ok (equal (g (a.storedUnder k)) (g (b.storedUnder k)))) w) :
    (isKeyed a b >>= fun keyed => if keyed then agree compare a b else return equal a b).Yields w
      (.ok (equal (a.mapStored g) (b.mapStored g))) w := by
  refine (yields_isKeyed hw ha.wellFormed hb.wellFormed).bind ?_
  cases hkeyed : decide (a.typeKey = b.typeKey) && a.hasKeys with
  | false =>
    rw [equal_mapStored_of_not_keyed hkeyed]
    exact yields_pure _ w
  | true =>
    simp only [Bool.and_eq_true, decide_eq_true_eq] at hkeyed
    exact yields_agree hw ha hb hkeyed.1 hkeyed.2 hg hcompare

/-- The shallow comparison ends with the equality of the values as one level of them is seen. -/
theorem yields_shallowEqual (hw : w.registry.StandardLookup types) {a b : Value C}
    (ha : a.Built types) (hb : b.Built types) :
    (shallowEqual a b).Yields w (.ok (equal a.shallowView b.shallowView)) w := by
  unfold shallowEqual shallowView
  by_cases hnil : (a.isNil || b.isNil) = true
  · rw [if_pos hnil, equal_mapStored_of_isNil hnil]
    exact yields_pure _ w
  · rw [if_neg hnil]
    exact yields_keyed hw ha hb (fun _ => rfl) fun _ _ => yields_pure _ w

/-- A text is equal to nothing but itself, and is seen as it is. -/
theorem equal_mapStored_of_isText {a b : Value C} (h : (isText a || isText b) = true)
    (g : Value C → Value C) : equal (a.mapStored g) (b.mapStored g) = equal a b := by
  rcases Bool.or_eq_true_iff.mp h with h | h
  · cases a with
    | text s => cases b <;> rfl
    | _ => cases h
  · cases b with
    | text s => cases a <;> rfl
    | _ => cases h

/-- Nil is compared with any value at once. -/
theorem yields_deepEqual_of_isNil {a b : Value C} (h : (a.isNil || b.isNil) = true) :
    (deepEqual a b).Yields w (.ok (equal a.deepView b.deepView)) w := by
  rw [deepView_eq a, deepView_eq b, equal_mapStored_of_isNil h, deepEqual, if_pos h]
  exact yields_pure _ w

/-- The deep comparison ends with the equality of the values as every level of them is seen. -/
theorem yields_deepEqual (hw : w.registry.StandardLookup types) {a b : Value C}
    (ha : a.Built types) (hb : b.Built types) :
    (deepEqual a b).Yields w (.ok (equal a.deepView b.deepView)) w := by
  revert b
  refine Built.viewInduction (motive := fun a => ∀ {b}, b.Built types →
    (deepEqual a b).Yields w (.ok (equal a.deepView b.deepView)) w) (fun a ha ih b hb => ?_) ha
  by_cases hnil : (a.isNil || b.isNil) = true
  · exact yields_deepEqual_of_isNil hnil
  rw [deepView_eq a, deepView_eq b, deepEqual, if_neg hnil]
  by_cases htext : (isText a || isText b) = true
  · rw [if_pos htext, equal_mapStored_of_isText htext]
    exact yields_pure _ w
  rw [if_neg htext]
  refine yields_keyed hw ha hb (fun _ => rfl) fun k _ => ?_
  apply Yields.request
  have hbk := built_unwrapped (built_storedUnder hb k)
  have hnotext : ∀ s, a ≠ .text s := by
    rintro s rfl
    exact htext rfl
  rcases storedUnder_eq_nil_or_mem k hnotext with hnone | hmem
  · rw [hnone]
    exact yields_deepEqual_of_isNil rfl
  · exact ih _ hmem hbk

/-- With look-up as it was installed, the deep and the shallow comparison of any two built values end
with an answer and change nothing. The answers are the equality of the views at every depth and on
one level: so equal values always compare equal, and values in which no `Maybe` is stored under a key
and no record type repeats a field's name compare equal only when they are. -/
theorem comparisons_eq_views (hw : w.registry.StandardLookup types) {a b : Value C}
    (ha : a.Built types) (hb : b.Built types) :
    (deepEqual a b).Yields w (.ok (equal a.deepView b.deepView)) w ∧
    (shallowEqual a b).Yields w (.ok (equal a.shallowView b.shallowView)) w ∧
    (equal a b = true → equal a.deepView b.deepView = true ∧
      equal a.shallowView b.shallowView = true) ∧
    (a.Transparent → b.Transparent → equal a.deepView b.deepView = equal a b ∧
      equal a.shallowView b.shallowView = equal a b) := by
  refine ⟨yields_deepEqual hw ha hb, yields_shallowEqual hw ha hb, fun h => ?_,
    fun hta htb => ⟨?_, ?_⟩⟩
  · exact ⟨equal_deepView ha hb h, equal_shallowView ha hb h⟩
  · rw [hta.deepView_eq_self ha, htb.deepView_eq_self hb]
  · rw [hta.shallowView_eq_self ha, htb.shallowView_eq_self hb]

/-- A list that holds a map and an accepted result, compared with itself at the start. -/
theorem comparisons_eq_views_nested :
    let v : Value Empty := .list [.map [("x", .list [.nil])], Result.ok (.bool true)]
    let w : World Empty Unit := World.initial ()
    v.Built Registry.initialTypes ∧ (deepEqual v v).Yields w (.ok true) w ∧
      (shallowEqual v v).Yields w (.ok true) w := by
  intro v w
  have hresult : (Result.ok (.bool true) : Value Empty).Built Registry.initialTypes :=
    .union (fun h => absurd h (by decide)) (List.forall_mem_singleton.mpr (.bool true))
  have hmap : (Value.map [("x", .list [.nil])] : Value Empty).Built Registry.initialTypes :=
    .map (List.pairwise_singleton _ _) (List.forall_mem_singleton.mpr
      (.list (by unfold Addressable; decide +kernel) (List.forall_mem_singleton.mpr .nil)))
  have hv : v.Built Registry.initialTypes :=
    .list (by unfold Addressable; decide +kernel)
      (List.forall_mem_cons.mpr ⟨hmap, List.forall_mem_singleton.mpr hresult⟩)
  have hw : w.registry.StandardLookup Registry.initialTypes :=
    Registry.standardLookup_standard firstFreeId
  have h := comparisons_eq_views hw hv hv
  exact ⟨hv, h.1, h.2.1⟩

/-- A list of a present `Maybe` compares equal to the list of what is in it, and two records compare
equal that differ in the second of two fields of one name; none of them are equal. -/
theorem comparisons_ne_equal :
    let stored : Value Empty := .list [Maybe.some (.bool true)]
    let bare : Value Empty := .list [.bool true]
    let type : RecordType (Value Empty) := ⟨4, "R", [("x", .any), ("x", .any)]⟩
    let w : World Empty Unit := World.initial ()
    let w' : World Empty Unit :=
      { w with registry := ((w.registry.installPart (Registry.recordPart type)).run w.nextId).1 }
    (equal stored bare = false ∧ (deepEqual stored bare).Yields w (.ok true) w ∧
      (shallowEqual stored bare).Yields w (.ok true) w) ∧
    equal (.record type [.nil, .bool true]) (.record type [.nil, .bool false]) = false ∧
    (deepEqual (.record type [.nil, .bool true]) (.record type [.nil, .bool false])).Yields w'
      (.ok true) w' ∧
    (shallowEqual (.record type [.nil, .bool true]) (.record type [.nil, .bool false])).Yields w'
      (.ok true) w' := by
  intro stored bare type w w'
  have hw : w.registry.StandardLookup Registry.initialTypes :=
    Registry.standardLookup_standard firstFreeId
  have hw' := hw.declareRecord type w.nextId
  have hsome : (Maybe.some (.bool true) : Value Empty).Built Registry.initialTypes :=
    .union (fun _ => rfl) (List.forall_mem_singleton.mpr (.bool true))
  have hstored : stored.Built Registry.initialTypes :=
    .list (by unfold Addressable; decide +kernel) (List.forall_mem_singleton.mpr hsome)
  have hbare : bare.Built Registry.initialTypes :=
    .list (by unfold Addressable; decide +kernel) (List.forall_mem_singleton.mpr (.bool true))
  have hrecord : ∀ b, (Value.record type [.nil, .bool b] : Value Empty).Built
      (Function.update Registry.initialTypes type.id (some type)) := fun b =>
    .record (Function.update_self ..) rfl
      (List.forall_mem_cons.mpr ⟨.nil, List.forall_mem_singleton.mpr (.bool b)⟩)
  exact ⟨⟨rfl, yields_deepEqual hw hstored hbare, yields_shallowEqual hw hstored hbare⟩, rfl,
    yields_deepEqual (w := w') hw' (hrecord true) (hrecord false),
    yields_shallowEqual (w := w') hw' (hrecord true) (hrecord false)⟩

end DynamicDispatch.Collection

import DynamicDispatch.Proofs.Collection.Comparison

/-!
# What the deep comparison compares

Two values are alike when they are equal, or, for collections of one type, when they have the same keys
and what is read under each key is alike. The deep comparison of well-formed values ends with whether
they are, whatever is in them. Likeness is symmetric and transitive, so the comparison is too; it is not
reflexive, since a number may differ from itself.
-/

namespace DynamicDispatch.Collection

variable {C S : Type} {types : Nat → Option (RecordType (Value C))} {w : World C S}

open DynamicDispatch.Action Value

/-- Whether two values are compared key by key at every depth: collections of one type, but no
texts. -/
def comparedByKeys (a b : Value C) : Bool :=
  decide (a.typeKey = b.typeKey) && a.hasKeys && !isText a

/-- Values that are the same to the deep comparison. -/
inductive Alike : Value C → Value C → Prop
  | plain {a b : Value C} (hplain : comparedByKeys a b = false) (heq : equal a b = true) : Alike a b
  | keyed {a b : Value C} (hkeyed : comparedByKeys a b = true) (hkeys : a.keys = b.keys)
      (hself : b.keys.all (memberOf · b.keys) = true)
      (hunder : ∀ k ∈ b.keys, Alike (a.storedUnder k).unwrapped (b.storedUnder k).unwrapped) :
      Alike a b

/-- Whether values are compared key by key is a matter of their types. -/
theorem comparedByKeys_congr {a a' b b' : Value C} (ha : a.typeKey = a'.typeKey)
    (hb : b.typeKey = b'.typeKey) : comparedByKeys a b = comparedByKeys a' b' := by
  have htext : isText a = isText a' := by
    cases a <;> cases a' <;> first | rfl | cases ha
  rw [comparedByKeys, comparedByKeys, ha, hb, hasKeys_eq_of_typeKey_eq ha, htext]

/-- Values that are compared key by key are of one type. -/
theorem typeKey_eq_of_comparedByKeys {a b : Value C} (h : comparedByKeys a b = true) :
    a.typeKey = b.typeKey := by
  simp only [comparedByKeys, Bool.and_eq_true, decide_eq_true_eq] at h
  exact h.1.1

/-- Other values are alike when they are equal. -/
theorem alike_iff_equal {a b : Value C} (h : comparedByKeys a b = false) :
    Alike a b ↔ equal a b = true := by
  constructor
  · rintro (⟨-, heq⟩ | ⟨hkeyed, -, -, -⟩)
    · exact heq
    · rw [h] at hkeyed
      cases hkeyed
  · exact .plain h

/-- Collections of one type are alike when they have the same keys, each equal to itself, and what is
read under each of them is alike. -/
theorem alike_iff_keyed {a b : Value C} (h : comparedByKeys a b = true) :
    Alike a b ↔ (a.keys = b.keys ∧ b.keys.all (memberOf · b.keys) = true) ∧
      ∀ k ∈ b.keys, Alike (a.storedUnder k).unwrapped (b.storedUnder k).unwrapped := by
  constructor
  · rintro (⟨hplain, -⟩ | ⟨-, hkeys, hself, hunder⟩)
    · rw [h] at hplain
      cases hplain
    · exact ⟨⟨hkeys, hself⟩, hunder⟩
  · rintro ⟨⟨hkeys, hself⟩, hunder⟩
    exact .keyed h hkeys hself hunder

namespace Alike

/-- Values that are alike are of one type. -/
theorem typeKey_eq {a b : Value C} (h : Alike a b) : a.typeKey = b.typeKey := by
  cases h with
  | plain _ heq => exact typeKey_eq_of_equal heq
  | keyed hkeyed _ _ _ => exact typeKey_eq_of_comparedByKeys hkeyed

/-- Likeness is symmetric. -/
theorem symm {a b : Value C} (h : Alike a b) : Alike b a := by
  induction h with
  | @plain a b hplain heq =>
    have htype := typeKey_eq_of_equal heq
    refine .plain ?_ (equal_symm a b heq)
    rw [comparedByKeys_congr htype.symm htype, hplain]
  | @keyed a b hkeyed hkeys hself _ ih =>
    have htype := typeKey_eq_of_comparedByKeys hkeyed
    refine .keyed ?_ hkeys.symm (hkeys ▸ hself) fun k hk => ih k (hkeys ▸ hk)
    rw [comparedByKeys_congr htype.symm htype, hkeyed]

/-- Likeness is transitive. -/
theorem trans {a b c : Value C} (h : Alike a b) (h' : Alike b c) : Alike a c := by
  induction h generalizing c with
  | @plain a b hplain heq =>
    have htype := typeKey_eq_of_equal heq
    cases h' with
    | plain hplain' heq' =>
      refine .plain ?_ (equal_trans a b c heq heq')
      rw [comparedByKeys_congr htype rfl, hplain']
    | keyed hkeyed' _ _ _ =>
      -- The type of a value decides how it is compared, so this cannot be.
      have htype' := typeKey_eq_of_comparedByKeys hkeyed'
      rw [comparedByKeys_congr htype htype', hkeyed'] at hplain
      cases hplain
  | @keyed a b hkeyed hkeys hself _ ih =>
    have htype := typeKey_eq_of_comparedByKeys hkeyed
    cases h' with
    | plain hplain' heq' =>
      have htype' := typeKey_eq_of_equal heq'
      rw [comparedByKeys_congr htype htype', hplain'] at hkeyed
      cases hkeyed
    | keyed hkeyed' hkeys' hself' hunder' =>
      refine .keyed ?_ (hkeys.trans hkeys') hself' fun k hk => ih k (hkeys' ▸ hk) (hunder' k hk)
      rw [comparedByKeys_congr htype rfl, hkeyed']

end Alike

/-- Nil is not compared key by key. -/
theorem comparedByKeys_of_isNil {a b : Value C} (h : (a.isNil || b.isNil) = true) :
    comparedByKeys a b = false := by
  cases a with
  | nil => simp [comparedByKeys, hasKeys]
  | _ =>
    cases b with
    | nil => rfl
    | _ => cases h

/-- A text is not compared key by key at every depth. -/
theorem comparedByKeys_of_isText {a b : Value C} (h : (isText a || isText b) = true) :
    comparedByKeys a b = false := by
  cases a with
  | text s => simp [comparedByKeys, isText]
  | _ =>
    cases b with
    | text s => rfl
    | _ => cases h

/-- Nil is alike to itself alone. -/
theorem alike_iff_of_isNil {a b : Value C} (h : (a.isNil || b.isNil) = true) :
    Alike a b ↔ (a.isNil && b.isNil) = true := by
  rw [alike_iff_equal (comparedByKeys_of_isNil h)]
  cases a <;> cases b <;> first | rfl | cases h

variable [Embedding C S]

open Classical in
/-- Nil is compared with any value at once. -/
theorem yields_deepEqual_alike_of_isNil {a b : Value C} (h : (a.isNil || b.isNil) = true) :
    (deepEqual a b).Yields w (.ok (decide (Alike a b))) w := by
  have hdecide : decide (Alike a b) = (a.isNil && b.isNil) := by
    rw [Bool.eq_iff_iff, decide_eq_true_iff, alike_iff_of_isNil h]
  rw [deepEqual, if_pos h, hdecide]
  exact yields_pure _ w

open Classical in
/-- Comparing two collections key by key ends with whether they are alike, when comparing what is read
under each key does. -/
theorem yields_agree_alike (hw : w.registry.StandardLookup types) {a b : Value C}
    (ha : a.WellFormed types) (hb : b.WellFormed types) (hkeyed : comparedByKeys a b = true)
    {compare : Value C → Value C → Action C S Bool}
    (hcompare : ∀ k ∈ b.keys, (compare (a.storedUnder k).unwrapped (b.storedUnder k).unwrapped).Yields
      w (.ok (decide (Alike (a.storedUnder k).unwrapped (b.storedUnder k).unwrapped))) w) :
    (agree compare a b).Yields w (.ok (decide (Alike a b))) w := by
  have htype := typeKey_eq_of_comparedByKeys hkeyed
  have hakeys : a.hasKeys = true := by
    simp only [comparedByKeys, Bool.and_eq_true] at hkeyed
    exact hkeyed.1.2
  have hbkeys : b.hasKeys = true := hasKeys_eq_of_typeKey_eq htype ▸ hakeys
  obtain ⟨same, hsame, hpos, hneg⟩ := yields_sameKeys hw ha hb htype hakeys hbkeys
  refine hsame.bind ?_
  by_cases hkeys : a.keys = b.keys ∧ b.keys.all (memberOf · b.keys) = true
  · have hall : decide (Alike a b) = b.keys.all fun k =>
        decide (Alike (a.storedUnder k).unwrapped (b.storedUnder k).unwrapped) := by
      rw [Bool.eq_iff_iff, decide_eq_true_iff, alike_iff_keyed hkeyed, and_iff_right hkeys,
        List.all_eq_true]
      simp only [decide_eq_true_iff]
    rw [hpos hkeys, hall]
    exact yields_agreeOn hw ha hb hakeys hbkeys (fun k hk => isPlaceholder_key hk) hcompare
  · have hnot : decide (Alike a b) = false :=
      decide_eq_false fun h => hkeys ((alike_iff_keyed hkeyed).mp h).1
    rw [hneg hkeys, hnot]
    exact yields_pure false w

open Classical in
/-- The deep comparison of well-formed values ends with whether they are alike. -/
theorem yields_deepEqual_alike (hw : w.registry.StandardLookup types) {a b : Value C}
    (ha : a.WellFormed types) (hb : b.WellFormed types) :
    (deepEqual a b).Yields w (.ok (decide (Alike a b))) w := by
  revert b ha
  induction a using viewInduction with
  | step a ih =>
    intro b ha hb
    by_cases hnil : (a.isNil || b.isNil) = true
    · exact yields_deepEqual_alike_of_isNil hnil
    have hplain : comparedByKeys a b = false → decide (Alike a b) = equal a b := by
      intro h
      rw [Bool.eq_iff_iff, decide_eq_true_iff, alike_iff_equal h]
    rw [deepEqual, if_neg hnil]
    by_cases htext : (isText a || isText b) = true
    · rw [if_pos htext, hplain (comparedByKeys_of_isText htext)]
      exact yields_pure _ w
    have hnotext : isText a = false := by
      simp only [Bool.or_eq_true, not_or, Bool.not_eq_true] at htext
      exact htext.1
    have hcompared : (decide (a.typeKey = b.typeKey) && a.hasKeys) = comparedByKeys a b := by
      rw [comparedByKeys, hnotext, Bool.not_false, Bool.and_true]
    rw [if_neg htext]
    refine (yields_isKeyed hw ha hb).bind ?_
    rw [hcompared]
    cases hkeyed : comparedByKeys a b with
    | false =>
      rw [hplain hkeyed]
      exact yields_pure _ w
    | true =>
      refine yields_agree_alike hw ha hb hkeyed fun k _ => Yields.request ?_
      have hnotextValue : ∀ s, a ≠ .text s := by
        rintro s rfl
        cases hnotext
      rcases storedUnder_eq_nil_or_mem k hnotextValue with hnone | hmem
      · rw [hnone]
        exact yields_deepEqual_alike_of_isNil rfl
      · exact ih _ hmem (ha.storedUnder k).unwrapped (hb.storedUnder k).unwrapped

end DynamicDispatch.Collection

import DynamicDispatch.Proofs.Number.Equality
import DynamicDispatch.Value.Equality
import DynamicDispatch.Value.TypeKey
import Mathlib.Data.List.Forall2

/-!
# Equality of values, read off their parts

Two lists of values are equal when they are so position by position, and two maps when they have the
same keys in addition. Equal values have one type. Equality is symmetric and transitive; it is not
reflexive, since a number may differ from itself.
-/

namespace DynamicDispatch.Value

variable {C K : Type}

/-- Lists are equal when they are position by position. -/
theorem equalAll_iff {as bs : List (Value C)} :
    equalAll as bs = true ↔ List.Forall₂ (fun a b => equal a b = true) as bs := by
  induction as generalizing bs with
  | nil => cases bs <;> simp [equalAll]
  | cons a as ih => cases bs <;> simp [equalAll, ih]

/-- Entries are equal when their keys are the same and their values equal, position by position. -/
theorem equalEntries_iff {as bs : List (String × Value C)} :
    equalEntries as bs = true ↔
      List.Forall₂ (fun a b => a.1 = b.1 ∧ equal a.2 b.2 = true) as bs := by
  induction as generalizing bs with
  | nil => cases bs <;> simp [equalEntries]
  | cons a as ih => cases bs <;> simp [equalEntries, ih]

/-- Values that are equal are of one type. -/
theorem typeKey_eq_of_equal {a b : Value C} (h : equal a b = true) : a.typeKey = b.typeKey := by
  cases a <;> cases b <;> simp_all [equal, typeKey, RecordType.key, UnionType.key]

mutual

/-- Equality is symmetric. -/
theorem equal_symm : ∀ (a b : Value C), equal a b = true → equal b a = true
  | .number x, b, h => by
    cases b with
    | number y => exact Number.beq_symm h
    | _ => cases h
  | .list as, b, h => by
    cases b with
    | list bs => exact equalAll_symm as bs h
    | _ => cases h
  | .map as, b, h => by
    cases b with
    | map bs => exact equalEntries_symm as bs h
    | _ => cases h
  | .record s as, b, h => by
    cases b with
    | record t bs =>
      simp only [equal, Bool.and_eq_true, beq_iff_eq] at h ⊢
      exact ⟨h.1.symm, equalAll_symm as bs h.2⟩
    | _ => cases h
  | .union s i as, b, h => by
    cases b with
    | union t j bs =>
      simp only [equal, Bool.and_eq_true, beq_iff_eq] at h ⊢
      exact ⟨⟨h.1.1.symm, h.1.2.symm⟩, equalAll_symm as bs h.2⟩
    | _ => cases h
  | .bool _, b, h | .text _, b, h | .func _, b, h | .task _, b, h => by
    cases b <;> first | exact beq_iff_eq.mpr (beq_iff_eq.mp h).symm | cases h
  | .nil, b, h | .placeholder, b, h => by cases b <;> first | rfl | cases h

/-- Equality of lists is symmetric. -/
theorem equalAll_symm : ∀ (as bs : List (Value C)), equalAll as bs = true → equalAll bs as = true
  | [], bs, h => by cases bs <;> first | rfl | cases h
  | a :: as, bs, h => by
    cases bs with
    | nil => cases h
    | cons b bs =>
      simp only [equalAll, Bool.and_eq_true] at h ⊢
      exact ⟨equal_symm a b h.1, equalAll_symm as bs h.2⟩

/-- Equality of entries is symmetric. -/
theorem equalEntries_symm : ∀ (as bs : List (String × Value C)),
    equalEntries as bs = true → equalEntries bs as = true
  | [], bs, h => by cases bs <;> first | rfl | cases h
  | (_, a) :: as, bs, h => by
    cases bs with
    | nil => cases h
    | cons b bs =>
      simp only [equalEntries, Bool.and_eq_true, beq_iff_eq] at h ⊢
      exact ⟨⟨h.1.1.symm, equal_symm a b.2 h.1.2⟩, equalEntries_symm as bs h.2⟩

end

mutual

/-- Equality is transitive. -/
theorem equal_trans : ∀ (a b c : Value C), equal a b = true → equal b c = true → equal a c = true
  | .number x, b, c, h, h' => by
    cases b with
    | number y =>
      cases c with
      | number z => exact Number.beq_trans h h'
      | _ => cases h'
    | _ => cases h
  | .list as, b, c, h, h' => by
    cases b with
    | list bs =>
      cases c with
      | list cs => exact equalAll_trans as bs cs h h'
      | _ => cases h'
    | _ => cases h
  | .map as, b, c, h, h' => by
    cases b with
    | map bs =>
      cases c with
      | map cs => exact equalEntries_trans as bs cs h h'
      | _ => cases h'
    | _ => cases h
  | .record s as, b, c, h, h' => by
    cases b with
    | record t bs =>
      cases c with
      | record u cs =>
        simp only [equal, Bool.and_eq_true, beq_iff_eq] at h h' ⊢
        exact ⟨h.1.trans h'.1, equalAll_trans as bs cs h.2 h'.2⟩
      | _ => cases h'
    | _ => cases h
  | .union s i as, b, c, h, h' => by
    cases b with
    | union t j bs =>
      cases c with
      | union u k cs =>
        simp only [equal, Bool.and_eq_true, beq_iff_eq] at h h' ⊢
        exact ⟨⟨h.1.1.trans h'.1.1, h.1.2.trans h'.1.2⟩, equalAll_trans as bs cs h.2 h'.2⟩
      | _ => cases h'
    | _ => cases h
  | .bool _, b, c, h, h' | .text _, b, c, h, h' | .func _, b, c, h, h' | .task _, b, c, h, h' => by
    cases b <;> first
      | cases h
      | cases c <;> first
        | cases h'
        | exact beq_iff_eq.mpr ((beq_iff_eq.mp h).trans (beq_iff_eq.mp h'))
  | .nil, b, c, h, h' | .placeholder, b, c, h, h' => by
    cases b <;> first | exact h' | cases h

/-- Equality of lists is transitive. -/
theorem equalAll_trans : ∀ (as bs cs : List (Value C)),
    equalAll as bs = true → equalAll bs cs = true → equalAll as cs = true
  | [], bs, cs, h, h' => by cases bs <;> first | exact h' | cases h
  | a :: as, bs, cs, h, h' => by
    cases bs with
    | nil => cases h
    | cons b bs =>
      cases cs with
      | nil => cases h'
      | cons c cs =>
        simp only [equalAll, Bool.and_eq_true] at h h' ⊢
        exact ⟨equal_trans a b c h.1 h'.1, equalAll_trans as bs cs h.2 h'.2⟩

/-- Equality of entries is transitive. -/
theorem equalEntries_trans : ∀ (as bs cs : List (String × Value C)),
    equalEntries as bs = true → equalEntries bs cs = true → equalEntries as cs = true
  | [], bs, cs, h, h' => by cases bs <;> first | exact h' | cases h
  | (_, a) :: as, bs, cs, h, h' => by
    cases bs with
    | nil => cases h
    | cons b bs =>
      cases cs with
      | nil => cases h'
      | cons c cs =>
        simp only [equalEntries, Bool.and_eq_true, beq_iff_eq] at h h' ⊢
        exact ⟨⟨h.1.1.trans h'.1.1, equal_trans a b.2 c.2 h.1.2 h'.1.2⟩,
          equalEntries_trans as bs cs h.2 h'.2⟩

end

/-- When lists that are related position by position are the same, being related means being the same
and related to itself. -/
theorem forall₂_iff_same {R : K → K → Prop} {ks ls : List K}
    (hsame : List.Forall₂ R ks ls → ks = ls) :
    List.Forall₂ R ks ls ↔ ks = ls ∧ ∀ k ∈ ls, R k k := by
  constructor
  · intro h
    obtain rfl := hsame h
    exact ⟨rfl, List.forall₂_same.mp h⟩
  · rintro ⟨rfl, h⟩
    exact List.forall₂_same.mpr h

/-- Entries read off two lists of keys are equal when the keys are the same and the values under each
are equal. -/
theorem equalEntries_map_iff {ks ls : List String} {f g : String → Value C} :
    equalEntries (ks.map fun k => (k, f k)) (ls.map fun k => (k, g k)) = true ↔
      ks = ls ∧ ∀ k ∈ ls, equal (f k) (g k) = true := by
  rw [equalEntries_iff, List.forall₂_map_left_iff, List.forall₂_map_right_iff,
    forall₂_iff_same fun h => List.forall₂_eq_eq_eq ▸ h.imp fun _ _ hkl => hkl.1]
  simp

end DynamicDispatch.Value

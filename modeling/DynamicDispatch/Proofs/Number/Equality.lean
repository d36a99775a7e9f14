import DynamicDispatch.Number.Binary

/-!
# Equality of numbers

Doubles are compared by unpacking their bits. Only what is no number differs from itself, and such a
double addresses no position: so the keys of a list are equal to themselves. Between numbers equality
is sameness up to the sign of zero, so it is symmetric and transitive.
-/

namespace DynamicDispatch.Number

open Float.Model (UnpackedFloat)

/-- An unpacked double that is a number compares equal to itself. -/
theorem compare_self {u : UnpackedFloat} (h : u ≠ .notANumber) : u.compare u = some .eq := by
  cases u with
  | notANumber => exact absurd rfl h
  | infinity sign => cases sign <;> rfl
  | zero sign => rfl
  | finite sign m e hm =>
    have heq : (compare e e).then (compare m m) = .eq := by
      simp [compare, compareOfLessAndEq]
    cases sign with
    | positive =>
      change some ((compare e e).then (compare m m)) = some .eq
      rw [heq]
    | negative =>
      change some ((compare e e).then (compare m m)).swap = some .eq
      rw [heq]
      rfl

/-- An unpacked double as equality sees it: the sign of zero does not count. -/
def signless : UnpackedFloat → UnpackedFloat
  | .zero _ => .zero .positive
  | u => u

/-- Exponents and mantissas are compared one after the other. -/
theorem eq_of_compare_then {e e' : Int} {m m' : Nat}
    (h : (compare e e').then (compare m m') = .eq) : e = e' ∧ m = m' := by
  rw [Ordering.then_eq_eq] at h
  exact ⟨Std.compare_eq_iff_eq.mp h.1, Std.compare_eq_iff_eq.mp h.2⟩

/-- Unpacked doubles that compare equal are numbers, and the same up to the sign of zero. -/
theorem signless_eq_of_compare {u v : UnpackedFloat} (h : u.compare v = some .eq) :
    u ≠ .notANumber ∧ signless u = signless v := by
  cases u with
  | notANumber => cases h
  | infinity s =>
    cases v with
    | infinity t => cases s <;> cases t <;> first | exact ⟨nofun, rfl⟩ | cases h
    | _ => cases s <;> cases h
  | zero s =>
    cases v with
    | zero t => exact ⟨nofun, rfl⟩
    | notANumber => cases h
    | _ t => cases t <;> cases h
  | finite s m e hm =>
    cases v with
    | finite t m' e' hm' =>
      have hsame : s = t ∧ (compare e e').then (compare m m') = .eq := by
        cases s <;> cases t
        · exact ⟨rfl, Ordering.swap_inj.mp (Option.some.inj h)⟩
        · cases h
        · cases h
        · exact ⟨rfl, Option.some.inj h⟩
      obtain ⟨rfl, hcompare⟩ := hsame
      obtain ⟨rfl, rfl⟩ := eq_of_compare_then hcompare
      exact ⟨nofun, rfl⟩
    | notANumber => cases s <;> cases h
    | infinity t => cases s <;> cases t <;> cases h
    | zero t => cases s <;> cases h

/-- Two unpacked doubles compare equal exactly when they are numbers and the same up to the sign of
zero. -/
theorem compare_eq_iff {u v : UnpackedFloat} :
    u.compare v = some .eq ↔ u ≠ .notANumber ∧ signless u = signless v := by
  refine ⟨signless_eq_of_compare, fun ⟨hnumber, heq⟩ => ?_⟩
  cases u with
  | notANumber => exact absurd rfl hnumber
  | zero s =>
    cases v with
    | zero t => rfl
    | _ => cases heq
  | _ =>
    cases v with
    | zero t => cases heq
    | _ => cases heq <;> exact compare_self hnumber

/-- Two doubles are equal exactly when they are numbers and the same up to the sign of zero. -/
theorem beq_iff {x y : Float} : (x == y) = true ↔
    x.toModel.unpack ≠ .notANumber ∧ signless x.toModel.unpack = signless y.toModel.unpack := by
  change (x.toModel.unpack.compare y.toModel.unpack == some .eq) = true ↔ _
  rw [beq_iff_eq, compare_eq_iff]

/-- Only what is no number looks like it. -/
theorem signless_eq_notANumber {u : UnpackedFloat} :
    signless u = .notANumber ↔ u = .notANumber := by
  cases u with
  | zero s => exact ⟨nofun, nofun⟩
  | _ => exact Iff.rfl

/-- Equality of doubles is symmetric. -/
theorem beq_symm {x y : Float} (h : (x == y) = true) : (y == x) = true := by
  obtain ⟨hx, heq⟩ := beq_iff.mp h
  refine beq_iff.mpr ⟨fun hy => hx ?_, heq.symm⟩
  rw [← signless_eq_notANumber, heq, signless_eq_notANumber, hy]

/-- Equality of doubles is transitive. -/
theorem beq_trans {x y z : Float} (h : (x == y) = true) (h' : (y == z) = true) :
    (x == z) = true := by
  obtain ⟨hx, heq⟩ := beq_iff.mp h
  exact beq_iff.mpr ⟨hx, heq.trans (beq_iff.mp h').2⟩

/-- The bits of the exponent are the ones that unpacking reads. -/
theorem exponentField_eq (bits : UInt64) :
    ((bits >>> 52) &&& 0x7FF).toNat =
      (@UnpackedFloat.unpackExponent .binary64 bits.toBitVec).toNat := by
  simp only [UnpackedFloat.unpackExponent, BitVec.extractLsb, BitVec.toNat_cast,
    BitVec.extractLsb'_toNat, UInt64.toNat_and, UInt64.toNat_shiftRight]
  exact Nat.and_two_pow_sub_one_eq_mod _ 11

/-- A double that unpacks to no number has all bits of the exponent set. -/
theorem exponentField_of_notANumber {x : Float} (h : x.toModel.unpack = .notANumber) :
    ((x.toBits >>> 52) &&& 0x7FF).toNat = 0x7FF := by
  unfold Float.Model.unpack UnpackedFloat.unpack at h
  dsimp only at h
  by_cases hset : @UnpackedFloat.unpackExponent .binary64 x.toModel.toBits.toBitVec = -1#11
  · rw [exponentField_eq]
    exact congrArg BitVec.toNat hset
  · rw [if_neg hset] at h
    by_cases hclear : @UnpackedFloat.unpackExponent .binary64 x.toModel.toBits.toBitVec = 0#11
    · rw [if_pos hclear] at h
      by_cases hmantissa : @UnpackedFloat.unpackMantissa .binary64 x.toModel.toBits.toBitVec = 0#52
      · rw [dif_pos hmantissa] at h
        cases h
      · rw [dif_neg hmantissa] at h
        cases h
    · rw [if_neg hclear] at h
      cases h

/-- A number that addresses a position is equal to itself. -/
theorem beq_self_of_position? {x : Float} {i : Nat} (h : position? x = some i) :
    (x == x) = true := by
  have hnumber : x.toModel.unpack ≠ .notANumber := by
    intro hnan
    unfold position? Binary.ofFloat Binary.ofBits at h
    simp only [exponentField_of_notANumber hnan, if_true] at h
    split at h
    · rename_i heq
      split at heq <;> cases heq
    · cases h
  change (x.toModel.unpack.compare x.toModel.unpack == some .eq) = true
  rw [compare_self hnumber]
  rfl

end DynamicDispatch.Number

import Mathlib
import DynamicDispatch.Proofs.Number.Equality

/-!
# Numbers that count

A natural number below `2 ^ 53` is a double without rounding: its significant bits fit, whatever is
multiplied by one stays as it is, and packing loses nothing. So positions and counts of that size are
read back from the numbers that stand for them.
-/

namespace DynamicDispatch.Number

open Float.Model (UnpackedFloat Format totalExponent)
open Float.Model.UnpackedFloat

/-- Shifting out zero bits is exact. -/
theorem shiftRight_zeros (m s : Nat) :
    (⟨m * 2 ^ s, false, false⟩ : ExtendedMantissa) >>> s = ⟨m, false, false⟩ := by
  induction s generalizing m with
  | zero => rw [Nat.pow_zero, Nat.mul_one]; rfl
  | succ s ih =>
    have hdouble : m * 2 ^ (s + 1) = 2 * m * 2 ^ s := by rw [Nat.pow_succ]; ac_rfl
    have hstep : (⟨m * 2 ^ (s + 1), false, false⟩ : ExtendedMantissa) >>> (s + 1) =
        ((⟨2 * m * 2 ^ s, false, false⟩ : ExtendedMantissa) >>> s).shiftRightOne := by
      rw [hdouble]
      rfl
    rw [hstep, ih]
    simp [ExtendedMantissa.shiftRightOne]

/-- The leading bit moves with the scale. -/
theorem log2_scaled {m : Nat} (hm : 0 < m) (s : Nat) : (m * 2 ^ s).log2 = m.log2 + s := by
  have hpos : m * 2 ^ s ≠ 0 := Nat.ne_of_gt (Nat.mul_pos hm (Nat.two_pow_pos s))
  obtain ⟨hle, hlt⟩ := (Nat.log2_eq_iff (Nat.ne_of_gt hm)).mp rfl
  refine (Nat.log2_eq_iff hpos).mpr ⟨?_, ?_⟩
  · rw [Nat.pow_add]
    exact Nat.mul_le_mul_right _ hle
  · rw [show m.log2 + s + 1 = m.log2 + 1 + s by omega, Nat.pow_add]
    exact Nat.mul_lt_mul_of_pos_right hlt (Nat.two_pow_pos s)

/-- A mantissa of 53 bits has the exponent that its format asks for. -/
theorem targetExponent_eq {m : Nat} {e : Int} (hlog : m.log2 = 52) (he : -1074 ≤ e) :
    Format.binary64.targetExponent (totalExponent m e) = e := by
  simp only [Format.targetExponent, totalExponent, hlog, Format.mantissaBits, Format.minExponent]
  omega

/-- Bringing a mantissa of 53 bits to its exponent takes off the zero bits behind it. -/
theorem shiftToTargetExponent_scaled {m : Nat} {e : Int} (hpos : 0 < m) (hlog : m.log2 = 52)
    (he : -1074 ≤ e) (s : Nat) :
    shiftToTargetExponent .binary64 (m * 2 ^ s) (e - s) .exact = (⟨m, false, false⟩, e) := by
  have htotal : totalExponent (m * 2 ^ s) (e - s) = totalExponent m e := by
    simp only [totalExponent, log2_scaled hpos]
    omega
  have hshift : (e - (e - s)).toNat = s := by omega
  simp only [shiftToTargetExponent, shiftToExponent, htotal, targetExponent_eq hlog he, hshift,
    ExtendedMantissa.ofMantissaAndAccuracy, shiftRight_zeros, Int.sub_add_cancel]

/-- Rounding takes off the zero bits behind a mantissa of 53 bits and nothing else. -/
theorem roundWithAccuracy_scaled {m : Nat} {e : Int} (hpos : 0 < m) (hlog : m.log2 = 52)
    (he : -1074 ≤ e) (s : Nat) :
    roundWithAccuracy .binary64 .positive (m * 2 ^ s) (e - s) .exact = .finite .positive m e hpos := by
  have hself : shiftToTargetExponent .binary64 m e .exact = (⟨m, false, false⟩, e) := by
    simpa using shiftToTargetExponent_scaled hpos hlog he 0
  rw [roundWithAccuracy, shiftToTargetExponent_scaled hpos hlog he s]
  simp [ExtendedMantissa.roundedMantissa, ExtendedMantissa.accuracy, Accuracy.roundToNearestEven,
    hself, Nat.ne_of_gt hpos]

/-- The unpacked double of a number of at most 53 bits. -/
def counted (n : Nat) (hpos : 0 < n) : UnpackedFloat :=
  .finite .positive (n * 2 ^ (52 - n.log2)) (-(52 - n.log2 : Nat))
    (Nat.mul_pos hpos (Nat.two_pow_pos _))

/-- Scaled to 53 bits, it has them. -/
theorem log2_counted {n : Nat} (hpos : 0 < n) (hlog : n.log2 ≤ 52) :
    (n * 2 ^ (52 - n.log2)).log2 = 52 := by
  rw [log2_scaled hpos]
  omega

/-- Such a number is rounded to itself. -/
theorem round_eq_counted {n : Nat} (hpos : 0 < n) (hlog : n.log2 ≤ 52) :
    UnpackedFloat.round .binary64 .positive n 0 = counted n hpos := by
  have htarget : Format.binary64.targetExponent (totalExponent n 0) = -(52 - n.log2 : Nat) := by
    simp only [Format.targetExponent, totalExponent, Format.mantissaBits, Format.minExponent]
    omega
  have hscaled := roundWithAccuracy_scaled (e := -(52 - n.log2 : Nat))
    (Nat.mul_pos hpos (Nat.two_pow_pos _)) (log2_counted hpos hlog) (by omega) 0
  rw [UnpackedFloat.round, htarget, decreaseExponent]
  simpa [Nat.shiftLeft_eq, counted] using hscaled

/-- A mantissa of 53 bits is packed without its leading bit, the exponent beside it. -/
theorem pack_finite {m : Nat} {e : Int} (hpos : 0 < m) (hlog : m.log2 = 52)
    (hmin : -1074 ≤ e) (hmax : e ≤ 971) :
    pack .binary64 (.finite .positive m e hpos) =
      packComponents .binary64 .positive (BitVec.ofNat 11 (e + 1075).toNat) (BitVec.ofNat 52 m) := by
  have hbiased : (e + Format.binary64.exponentBias + (52 : Nat)).toNat = (e + 1075).toNat := by
    change (e + (1023 : Nat) + (52 : Nat)).toNat = _
    omega
  simp only [pack, hlog, hbiased]
  rw [if_neg (by omega), if_pos (by decide)]

/-- A leading bit before the 52 bits of a mantissa adds its value. -/
theorem toNat_leading_append (v : BitVec 52) : (1#1 ++ v).toNat = 2 ^ 52 + v.toNat := by
  rw [BitVec.toNat_append, ← Nat.shiftLeft_add_eq_or_of_lt v.isLt, Nat.shiftLeft_eq]
  rfl

/-- Unpacking a mantissa of 53 bits puts the leading bit back. -/
theorem toNat_leading_append_ofNat {m : Nat} (hlog : m.log2 = 52) :
    (1#1 ++ BitVec.ofNat 52 m).toNat = m := by
  have hpos : m ≠ 0 := by
    rintro rfl
    cases hlog
  obtain ⟨hlower, hupper⟩ := (Nat.log2_eq_iff hpos).mp hlog
  rw [toNat_leading_append, BitVec.toNat_ofNat]
  omega

/-- Packing a mantissa of 53 bits loses nothing. -/
theorem unpack_pack {m : Nat} {e : Int} (hpos : 0 < m) (hlog : m.log2 = 52)
    (hmin : -1074 ≤ e) (hmax : e ≤ 971) :
    unpack .binary64 (pack .binary64 (.finite .positive m e hpos)) = .finite .positive m e hpos := by
  have hexponent : (BitVec.ofNat 11 (e + 1075).toNat).toNat = (e + 1075).toNat := by
    rw [BitVec.toNat_ofNat, Nat.mod_eq_of_lt (by omega)]
  have hfull : BitVec.ofNat 11 (e + 1075).toNat ≠ -1#11 := fun h => by
    have hbits : (e + 1075).toNat = 2047 := hexponent ▸ congrArg BitVec.toNat h
    omega
  have hclear : BitVec.ofNat 11 (e + 1075).toNat ≠ 0#11 := fun h => by
    have hbits : (e + 1075).toNat = 0 := hexponent ▸ congrArg BitVec.toNat h
    omega
  have hunbiased : ((e + 1075).toNat : Int) -
      ((Format.binary64.exponentBias : Nat) + (52 : Nat)) = e := by
    change ((e + 1075).toNat : Int) - ((1023 : Nat) + (52 : Nat)) = e
    omega
  rw [pack_finite hpos hlog hmin hmax, unpack]
  simp only [unpackMantissa_packComponents, unpackExponent_packComponents,
    unpackSign_packComponents, Sign.ofBitVec_toBitVec, if_neg hfull, if_neg hclear, hexponent,
    hunbiased, toNat_leading_append_ofNat hlog]

/-- Multiplying by one changes nothing. -/
theorem mul_one_eq {m : Nat} {e : Int} (hpos : 0 < m) (hlog : m.log2 = 52) (he : -1074 ≤ e) :
    UnpackedFloat.mul .binary64 (.finite .positive m e hpos)
        (Float.ofBits 0x3FF0000000000000).toModel.unpack =
      .finite .positive m e hpos := by
  have hone : (Float.ofBits 0x3FF0000000000000).toModel.unpack =
      .finite .positive (2 ^ 52) (-52) (by decide) := by
    rfl
  rw [hone]
  exact roundWithAccuracy_scaled hpos hlog he 52

/-- A word of at most 53 bits is converted to the double of its number. -/
theorem unpack_toFloat {n : Nat} (hpos : 0 < n) (hn : n < 2 ^ 53) :
    n.toUInt64.toFloat.toModel.unpack = counted n hpos := by
  have hlog : n.log2 ≤ 52 := Nat.le_of_lt_succ ((Nat.log2_lt (Nat.ne_of_gt hpos)).mpr hn)
  have hword : n.toUInt64.toNat = n := Nat.mod_eq_of_lt (by omega)
  have hsign : compare ((n : Nat) : Int) 0 = .gt := by
    rw [Std.compare_eq_gt]
    omega
  have hround : ofUInt64 .binary64 n.toUInt64 = counted n hpos := by
    rw [ofUInt64, hword, ofNat, ofInt, UnpackedFloat.normalize, hsign]
    exact round_eq_counted hpos hlog
  have hunpack : n.toUInt64.toFloat.toModel.unpack =
      unpack .binary64 (pack .binary64 (ofUInt64 .binary64 n.toUInt64)) := rfl
  rw [hunpack, hround]
  exact unpack_pack _ (log2_counted hpos hlog) (by omega) (by omega)

/-- A count below `2 ^ 53` is a double without rounding. -/
theorem unpack_ofCount {n : Nat} (hpos : 0 < n) (hn : n < 2 ^ 53) :
    (ofCount n).toModel.unpack = counted n hpos := by
  have hlog : n.log2 ≤ 52 := Nat.le_of_lt_succ ((Nat.log2_lt (Nat.ne_of_gt hpos)).mpr hn)
  -- A mantissa below `2 ^ 53` is converted as a word and multiplied by the power of ten, which is one.
  have hscientific : ofCount n = n.toUInt64.toFloat * Float.ofBits 0x3FF0000000000000 := by
    change Float.ofScientific n false 0 = _
    rw [Float.ofScientific, dif_pos ⟨hn, Nat.zero_le 22⟩]
    rfl
  have hunpack : (n.toUInt64.toFloat * Float.ofBits 0x3FF0000000000000).toModel.unpack =
      unpack .binary64 (pack .binary64 (mul .binary64 n.toUInt64.toFloat.toModel.unpack
        (Float.ofBits 0x3FF0000000000000).toModel.unpack)) := rfl
  rw [hscientific, hunpack, unpack_toFloat hpos hn, counted,
    mul_one_eq _ (log2_counted hpos hlog) (by omega)]
  exact unpack_pack _ (log2_counted hpos hlog) (by omega) (by omega)

/-- What an unpacked double stands for. -/
def Binary.ofUnpacked : UnpackedFloat → Binary
  | .notANumber => .notANumber
  | .infinity s => .infinite (s == .negative)
  | .zero s => .finite (s == .negative) 0 (-1074)
  | .finite s m e _ => .finite (s == .negative) m e

/-- The bits of the mantissa are the ones that unpacking reads. -/
theorem mantissaField_eq (bits : UInt64) :
    (bits &&& 0xFFFFFFFFFFFFF).toNat = (@unpackMantissa .binary64 bits.toBitVec).toNat := by
  simp only [unpackMantissa, BitVec.extractLsb, BitVec.toNat_cast, BitVec.extractLsb'_toNat,
    UInt64.toNat_and]
  exact Nat.and_two_pow_sub_one_eq_mod _ 52

/-- The bit of the sign is the one that unpacking reads. -/
theorem signField_eq (bits : UInt64) :
    (bits >>> 63 == 1) = (Sign.ofBitVec (@unpackSign .binary64 bits.toBitVec) == .negative) := by
  have hlt : bits.toNat >>> 63 < 2 := by
    rw [Nat.shiftRight_eq_div_pow]
    have := bits.toNat_lt
    omega
  have hsign : (@unpackSign .binary64 bits.toBitVec).toNat = bits.toNat >>> 63 := by
    simp only [unpackSign, BitVec.extractLsb, BitVec.toNat_cast, BitVec.extractLsb'_toNat]
    exact Nat.mod_eq_of_lt hlt
  have hword : (bits >>> 63).toNat = bits.toNat >>> 63 := rfl
  by_cases hclear : bits.toNat >>> 63 = 0
  · have hvec : @unpackSign .binary64 bits.toBitVec = 0#1 :=
      BitVec.eq_of_toNat_eq (hsign.trans hclear)
    have hzero : bits >>> 63 = 0 := UInt64.toNat_inj.mp (hword.trans hclear)
    rw [hvec, hzero]
    rfl
  · have hset : bits.toNat >>> 63 = 1 := by omega
    have hvec : @unpackSign .binary64 bits.toBitVec = 1#1 :=
      BitVec.eq_of_toNat_eq (hsign.trans hset)
    have hone : bits >>> 63 = 1 := UInt64.toNat_inj.mp (hword.trans hset)
    rw [hvec, hone]
    rfl

/-- The meaning of 64 bits is that of the double that they unpack to. -/
theorem ofBits_eq_ofUnpacked (bits : UInt64) :
    Binary.ofBits bits = Binary.ofUnpacked (unpack .binary64 bits.toBitVec) := by
  have hbias : (Format.binary64.exponentBias : Int) + (52 : Nat) = 1075 := rfl
  have hfull : @unpackExponent .binary64 bits.toBitVec = -1#11 ↔
      (@unpackExponent .binary64 bits.toBitVec).toNat = 0x7FF := BitVec.toNat_inj.symm
  have hclear : @unpackExponent .binary64 bits.toBitVec = 0#11 ↔
      (@unpackExponent .binary64 bits.toBitVec).toNat = 0 := BitVec.toNat_inj.symm
  have hzero : @unpackMantissa .binary64 bits.toBitVec = 0#52 ↔
      (@unpackMantissa .binary64 bits.toBitVec).toNat = 0 := BitVec.toNat_inj.symm
  simp only [Binary.ofBits, exponentField_eq, mantissaField_eq, signField_eq, unpack, hbias,
    toNat_leading_append, hfull, hclear]
  by_cases hexponent : (@unpackExponent .binary64 bits.toBitVec).toNat = 0x7FF
  · rw [if_pos hexponent, if_pos hexponent]
    by_cases hmantissa : (@unpackMantissa .binary64 bits.toBitVec).toNat = 0
    · rw [if_pos hmantissa, if_pos (hzero.mpr hmantissa)]
      rfl
    · rw [if_neg hmantissa, if_neg (mt hzero.mp hmantissa)]
      rfl
  · rw [if_neg hexponent, if_neg hexponent]
    by_cases hsubnormal : (@unpackExponent .binary64 bits.toBitVec).toNat = 0
    · rw [if_pos hsubnormal, if_pos hsubnormal]
      by_cases hmantissa : (@unpackMantissa .binary64 bits.toBitVec).toNat = 0
      · rw [dif_pos (hzero.mpr hmantissa), hmantissa]
        rfl
      · rw [dif_neg (mt hzero.mp hmantissa), hsubnormal]
        rfl
    · rw [if_neg hsubnormal, if_neg hsubnormal]
      rfl

/-- A count below `2 ^ 53` means itself, on a scale that takes its bits. -/
theorem ofFloat_ofCount {n : Nat} (hn : n < 2 ^ 53) :
    ∃ k : Nat, Binary.ofFloat (ofCount n) = .finite false (n * 2 ^ k) (-k : Int) := by
  rcases Nat.eq_zero_or_pos n with rfl | hpos
  · have hzero : Binary.ofFloat (ofCount 0) = .finite false 0 (-1074) := by decide +kernel
    exact ⟨1074, (Nat.zero_mul (2 ^ 1074)).symm ▸ hzero⟩
  · have hmeaning : Binary.ofFloat (ofCount n) = Binary.ofUnpacked (ofCount n).toModel.unpack :=
      ofBits_eq_ofUnpacked _
    rw [hmeaning, unpack_ofCount hpos hn]
    exact ⟨52 - n.log2, rfl⟩

/-- What is scaled up and down is what it was. -/
theorem floorScaled_scaled (n k : Nat) : floorScaled (n * 2 ^ k) (-k : Int) = n := by
  have hup : (-k : Int).toNat = 0 := by omega
  have hdown : (-(-k : Int)).toNat = k := by omega
  rw [floorScaled, hup, hdown]
  exact (congrArg (· / 2 ^ k) (Nat.mul_one (n * 2 ^ k))).trans
    (Nat.mul_div_cancel n (Nat.two_pow_pos k))

/-- What is scaled up is whole when it is scaled down. -/
theorem isWholeScaled_scaled (n k : Nat) : isWholeScaled (n * 2 ^ k) (-k : Int) = true := by
  have hdown : (-(-k : Int)).toNat = k := by omega
  rw [isWholeScaled, hdown]
  exact beq_iff_eq.mpr (Nat.mul_mod_left n (2 ^ k))

/-- A position is read back from its number. -/
theorem position?_ofCount {n : Nat} (hn : n < 2 ^ 53) : position? (ofCount n) = some n := by
  obtain ⟨k, hmeaning⟩ := ofFloat_ofCount hn
  have hmax : min n maxCount = n := Nat.min_eq_left (by change n ≤ 2 ^ 64 - 1; omega)
  simp [position?, hmeaning, isWholeScaled_scaled, floorScaled_scaled, hmax]

/-- Unpacked doubles that are the same up to the sign of zero are the same, or both are zero. -/
theorem eq_or_zeros_of_signless_eq {u v : UnpackedFloat} (h : signless u = signless v) :
    u = v ∨ ∃ s t, u = .zero s ∧ v = .zero t := by
  cases u with
  | zero s =>
    cases v with
    | zero t => exact Or.inr ⟨s, t, rfl, rfl⟩
    | _ => cases h
  | _ =>
    cases v with
    | zero t => cases h
    | _ => exact Or.inl h

/-- Equal numbers address the same position: either zero addresses the first one. -/
theorem position?_eq_of_beq {x y : Float} (h : (x == y) = true) : position? x = position? y := by
  have hmeaning : ∀ z : Float, Binary.ofFloat z = Binary.ofUnpacked z.toModel.unpack :=
    fun z => ofBits_eq_ofUnpacked z.toBits
  rw [position?, position?, hmeaning, hmeaning]
  rcases eq_or_zeros_of_signless_eq (beq_iff.mp h).2 with hsame | ⟨s, t, hx, hy⟩
  · rw [hsame]
  · rw [hx, hy]
    cases s <;> cases t <;> rfl

/-- A count is read back from its number. -/
theorem toCount_ofCount {n : Nat} (hn : n < 2 ^ 53) : toCount (ofCount n) = n := by
  obtain ⟨k, hmeaning⟩ := ofFloat_ofCount hn
  have hmax : min n maxCount = n := Nat.min_eq_left (by change n ≤ 2 ^ 64 - 1; omega)
  simp [toCount, hmeaning, floorScaled_scaled, hmax]

/-- No count is below zero. -/
theorem zero_le_ofCount {n : Nat} (hn : n < 2 ^ 53) : (0 : Float) ≤ ofCount n := by
  rcases Nat.eq_zero_or_pos n with rfl | hpos
  · decide +kernel
  · have hcompare : (0 : Float).toModel.unpack.le (ofCount n).toModel.unpack = true := by
      rw [unpack_ofCount hpos hn]
      rfl
    exact decide_eq_true hcompare

end DynamicDispatch.Number

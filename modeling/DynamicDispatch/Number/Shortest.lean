import DynamicDispatch.Number.Binary

/-!
# The fewest digits that read back

Every double is written with the fewest decimal digits that lie among the reals rounding to it, and
with those nearest to it among equally many. All comparisons are between naturals.
-/

namespace DynamicDispatch.Number

/-- The decimal `digits * 10 ^ exponent`. -/
structure Decimal where
  digits : Nat
  exponent : Int
  deriving DecidableEq, Repr

/-- The same decimal without trailing zeros in its digits, for digits below `10 ^ fuel`. -/
def Decimal.strip : (fuel : Nat) → Decimal → Decimal
  | 0, d => d
  | fuel + 1, d =>
    if d.digits ≠ 0 ∧ d.digits % 10 = 0 then
      Decimal.strip fuel ⟨d.digits / 10, d.exponent + 1⟩
    else d

/-- A positive value `value / unit` with its distances, in the same unit, to the two ends of the
interval of reals that round to it. The ends belong to the interval when `closed`. -/
structure Rounding where
  value : Nat
  unit : Nat
  below : Nat
  above : Nat
  closed : Bool

/-- The interval of `m * 2 ^ e`. The gap below a power of two is half as wide as the gap above it,
except above the least exponent. -/
def Rounding.ofBinary (m : Nat) (e : Int) : Rounding where
  value := 4 * m * Nat.pow 2 e.toNat
  unit := 4 * Nat.pow 2 (-e).toNat
  below := (if m = Nat.pow 2 52 ∧ e > -1074 then 1 else 2) * Nat.pow 2 e.toNat
  above := 2 * Nat.pow 2 e.toNat
  closed := m % 2 == 0

/-- The least `k` for which the value lies below `10 ^ k`. -/
def Rounding.magnitude (r : Rounding) : Int :=
  if r.unit ≤ r.value then (Nat.toDigits 10 (r.value / r.unit)).length
  else 1 - ((Nat.toDigits 10 ((r.unit - 1) / r.value)).length : Int)

/-- The nearest decimal of the interval on the grid of multiples of `10 ^ k`, if the value's two
neighbours on this grid are not both outside. Of two neighbours at the same distance it is the
upper one. -/
def Rounding.onGrid (r : Rounding) (k : Int) : Option Decimal :=
  let value := r.value * Nat.pow 10 (-k).toNat
  let unit := r.unit * Nat.pow 10 k.toNat
  let quotient := value / unit
  let down := value % unit
  let up := unit - down
  let within (distance gap : Nat) : Bool :=
    distance < gap * Nat.pow 10 (-k).toNat || (r.closed && distance == gap * Nat.pow 10 (-k).toNat)
  match within down r.below, within up r.above with
  | true, true => some ⟨if down < up then quotient else quotient + 1, k⟩
  | true, false => some ⟨quotient, k⟩
  | false, true => some ⟨quotient + 1, k⟩
  | false, false => none

/-- The fewest digits that read back to the value. Seventeen are always enough; were they not, the
value would be given to its last digit. -/
def Rounding.shortest (r : Rounding) : Decimal :=
  let found := (List.range 17).findSome? fun (n : Nat) => r.onGrid (r.magnitude - (n + 1 : Nat))
  (found.getD ⟨r.value * Nat.pow 10 1076 / r.unit, -1076⟩).strip 1500

/-- The shortest decimal of a positive value `m * 2 ^ e`. -/
def shortest (m : Nat) (e : Int) : Decimal := (Rounding.ofBinary m e).shortest

end DynamicDispatch.Number

/-!
# What a double stands for

A double is not a number, an infinity, or a signed value `m * 2 ^ e`. Positions, counts and parity
are read off this form in exact integer arithmetic.
-/

namespace DynamicDispatch.Number

/-- The meaning of a double. -/
inductive Binary where
  | notANumber
  | infinite (negative : Bool)
  /-- The value `mantissa * 2 ^ exponent`, with a sign that zero has too. -/
  | finite (negative : Bool) (mantissa : Nat) (exponent : Int)
  deriving DecidableEq, Repr

/-- The meaning of 64 bits: a sign, eleven bits of exponent and 52 bits of mantissa. -/
def Binary.ofBits (bits : UInt64) : Binary :=
  let negative := bits >>> 63 == 1
  let field := ((bits >>> 52) &&& 0x7FF).toNat
  let fraction := (bits &&& 0xFFFFFFFFFFFFF).toNat
  if field = 0x7FF then
    if fraction = 0 then .infinite negative else .notANumber
  else if field = 0 then .finite negative fraction (-1074)
  else .finite negative (Nat.pow 2 52 + fraction) (field - 1075)

/-- The meaning of a double. -/
def Binary.ofFloat (x : Float) : Binary := Binary.ofBits x.toBits

/-- The integer part of `m * 2 ^ e`. -/
def floorScaled (m : Nat) (e : Int) : Nat := m * Nat.pow 2 e.toNat / Nat.pow 2 (-e).toNat

/-- Whether `m * 2 ^ e` is an integer. -/
def isWholeScaled (m : Nat) (e : Int) : Bool := m % Nat.pow 2 (-e).toNat == 0

/-- The largest count. -/
def maxCount : Nat := Nat.pow 2 64 - 1

/-- The position that a number addresses: itself, when it is whole and not below zero. Zero has one
position whatever its sign; an infinity has none. -/
def position? (x : Float) : Option Nat :=
  match Binary.ofFloat x with
  | .finite negative m e =>
    if isWholeScaled m e && (!negative || m == 0) then some (min (floorScaled m e) maxCount) else none
  | _ => none

/-- The count that a number asks for: its integer part, kept between zero and `maxCount`. -/
def toCount (x : Float) : Nat :=
  match Binary.ofFloat x with
  | .finite false m e => min (floorScaled m e) maxCount
  | .infinite false => maxCount
  | _ => 0

/-- Whether a number leaves no remainder when halved. -/
def isEven (x : Float) : Bool :=
  match Binary.ofFloat x with
  | .finite _ m e => m % Nat.pow 2 (1 - e).toNat == 0
  | _ => false

/-- The number that stands for a count. -/
def ofCount (n : Nat) : Float := Float.ofNat n

end DynamicDispatch.Number

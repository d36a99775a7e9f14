import DynamicDispatch.Number.Shortest

/-!
# The text of numbers

Two layouts of the shortest digits: the plain one, always positional, for texts that are shown, and
the one of inspection, which marks whole numbers by `.0` and writes very large and very small
numbers with an exponent. `read?` accepts both.
-/

namespace DynamicDispatch.Number

/-- The decisions of a layout. -/
structure Layout where
  /-- The exponents of a leading digit that is written positionally; every exponent if absent. -/
  positional : Option (Int × Int)
  /-- Whether a whole number written positionally ends in `.0`. -/
  marksWhole : Bool

/-- The layout of shown numbers: positional, and nothing added to whole numbers. -/
def plainLayout : Layout := ⟨none, false⟩

/-- The layout of inspected numbers: positional from `10 ^ -4` to below `10 ^ 16`. -/
def inspectionLayout : Layout := ⟨some (-4, 15), true⟩

/-- `n` zeros. -/
def zeros (n : Nat) : List Char := List.replicate n '0'

/-- The digits of `digits`, the point before the digit of weight `10 ^ (point - 1)`. -/
def positionalText (layout : Layout) (digits : List Char) (point : Int) : List Char :=
  if point ≤ 0 then '0' :: '.' :: zeros (-point).toNat ++ digits
  else if digits.length ≤ point then
    digits ++ zeros (point.toNat - digits.length) ++ (if layout.marksWhole then ['.', '0'] else [])
  else digits.take point.toNat ++ '.' :: digits.drop point.toNat

/-- One digit, the other digits after a point, and the exponent of the first digit. -/
def exponentText (digits : List Char) (exponent : Int) : List Char :=
  digits.take 1 ++ (if digits.length ≤ 1 then [] else '.' :: digits.drop 1)
    ++ 'e' :: (toString exponent).toList

/-- The text of a finite number without its sign. -/
def magnitudeText (layout : Layout) (m : Nat) (e : Int) : List Char :=
  if m = 0 then positionalText layout ['0'] 1
  else
    let decimal := shortest m e
    let digits := Nat.toDigits 10 decimal.digits
    let point := decimal.exponent + digits.length
    match layout.positional with
    | none => positionalText layout digits point
    | some (least, most) =>
      if least ≤ point - 1 ∧ point - 1 ≤ most then positionalText layout digits point
      else exponentText digits (point - 1)

/-- The text of a number in a layout. -/
def text (layout : Layout) (x : Float) : String :=
  match Binary.ofFloat x with
  | .notANumber => "NaN"
  | .infinite negative => if negative then "-inf" else "inf"
  | .finite negative m e =>
    String.ofList ((if negative then ['-'] else []) ++ magnitudeText layout m e)

/-- The shown text of a number. -/
def plain (x : Float) : String := text plainLayout x

/-- The inspected text of a number. -/
def inspect (x : Float) : String := text inspectionLayout x

/-- The value of a list of digits, if it is one. -/
def digits? (cs : List Char) : Option Nat :=
  if cs.all Char.isDigit then some (Nat.ofDigitChars 10 cs 0) else none

/-- The whole number with an optional sign that the characters spell. -/
def exponent? : List Char → Option Int
  | '-' :: cs => if cs.isEmpty then none else (digits? cs).map fun n => -(n : Int)
  | '+' :: cs => if cs.isEmpty then none else (digits? cs).map fun n => (n : Int)
  | cs => if cs.isEmpty then none else (digits? cs).map fun n => (n : Int)

/-- The number `digits * 10 ^ exponent`. -/
def ofDecimal (digits : Nat) (exponent : Int) : Float :=
  Float.ofScientific digits (exponent < 0) exponent.natAbs

/-- The unsigned number that the characters spell: `inf`, `infinity`, `nan`, or digits with at most
one point and an optional exponent. -/
def readMagnitude? (cs : List Char) : Option Float :=
  let word := cs.map Char.toLower
  if word = "inf".toList ∨ word = "infinity".toList then some (1.0 / 0.0)
  else if word = "nan".toList then some (0.0 / 0.0)
  else
    let isMark (c : Char) : Bool := c == 'e' || c == 'E'
    let body := cs.takeWhile (!isMark ·)
    let scale := match cs.dropWhile (!isMark ·) with
      | [] => some 0
      | _ :: rest => exponent? rest
    let whole := body.takeWhile (· ≠ '.')
    let fraction := (body.dropWhile (· ≠ '.')).drop 1
    if whole.isEmpty && fraction.isEmpty then none
    else match digits? (whole ++ fraction), scale with
      | some digits, some scale => some (ofDecimal digits (scale - fraction.length))
      | _, _ => none

/-- The number that a text spells, if it spells one. -/
def read? (s : String) : Option Float :=
  match s.toList with
  | '-' :: cs => (readMagnitude? cs).map fun x => -x
  | '+' :: cs => readMagnitude? cs
  | cs => readMagnitude? cs

end DynamicDispatch.Number

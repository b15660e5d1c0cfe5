import Overlay.Numeral.Binary

/-!
# Shortest decimal numbers

The shortest decimal number that reads back as a given pattern, and of those the
nearest to the number itself. It is searched on ever finer decimal grids: when a
grid has a point that rounds to the pattern, then one of the two grid points next
to the number does.
-/

namespace Overlay.Numeral

/-- The number `digits * 10 ^ exponent`. -/
structure Decimal where
  digits : Nat
  exponent : Int
deriving DecidableEq, Repr

def digitCount (n : Nat) : Nat := (Nat.toDigits 10 n).length

/-- The exponent of the largest power of ten up to a positive quotient. -/
def floorLog10 (numerator denominator : Nat) : Int :=
  if denominator ≤ numerator then (digitCount (numerator / denominator) : Int) - 1
  else
    let count := digitCount (denominator / numerator)
    if denominator ≤ numerator * Nat.pow 10 (count - 1) then 1 - (count : Int) else -(count : Int)

namespace BinaryFormat

/-- A finite positive pattern as a quotient. -/
def toQuotient (format : BinaryFormat) (bits : Nat) : Nat × Nat :=
  let biased := bits / Nat.pow 2 format.fraction
  let fraction := bits % Nat.pow 2 format.fraction
  if biased = 0 then scaled fraction 1 (-format.minExponent)
  else scaled (Nat.pow 2 format.fraction + fraction) 1 (-(format.minExponent + (biased - 1 : Nat)))

/-- Do `digits * 10 ^ exponent` round to the pattern? -/
def readsBack (format : BinaryFormat) (bits digits : Nat) (exponent : Int) : Bool :=
  format.ofQuotient (digits * Nat.pow 10 exponent.toNat) (Nat.pow 10 (-exponent).toNat) == bits

/-- The nearest point of the grid with step `10 ^ exponent` that reads back. -/
def onGrid? (format : BinaryFormat) (bits : Nat) (exponent : Int) : Option Decimal :=
  let (n, d) := format.toQuotient bits
  let (n, d) := (n * Nat.pow 10 (-exponent).toNat, d * Nat.pow 10 exponent.toNat)
  let below := n / d
  let candidates := if 2 * (n % d) ≤ d then [below, below + 1] else [below + 1, below]
  (candidates.find? fun digits => format.readsBack bits digits exponent).map (⟨·, exponent⟩)

end BinaryFormat

/-- Without the zeros at the end, of which there are at most `fuel`. -/
def Decimal.stripZeros (fuel : Nat) (decimal : Decimal) : Decimal :=
  match fuel with
  | 0 => decimal
  | fuel + 1 =>
    if decimal.digits % 10 = 0 then
      Decimal.stripZeros fuel ⟨decimal.digits / 10, decimal.exponent + 1⟩
    else decimal

/-- The shortest decimal number that reads back as a finite positive pattern.
Seventeen digits are enough for the formats here. -/
def BinaryFormat.shortest (format : BinaryFormat) (bits : Nat) : Decimal :=
  let (n, d) := format.toQuotient bits
  let top := floorLog10 n d
  let found := (List.range 17).findSome? fun (i : Nat) => format.onGrid? bits (top - i)
  (found.getD ⟨n / d, 0⟩).stripZeros 17

/-- Positional notation with a point and at least one digit behind it. -/
def Decimal.positional (decimal : Decimal) : String :=
  let digits := Nat.toDigits 10 decimal.digits
  if 0 ≤ decimal.exponent then
    String.ofList (digits ++ List.replicate decimal.exponent.toNat '0') ++ ".0"
  else
    let places := (-decimal.exponent).toNat
    let digits := List.replicate (places + 1 - digits.length) '0' ++ digits
    String.ofList (digits.take (digits.length - places)) ++ "." ++
      String.ofList (digits.drop (digits.length - places))

/-- One digit before the point, and the power of ten behind an `e`. -/
def Decimal.scientific (decimal : Decimal) : String :=
  let digits := Nat.toDigits 10 decimal.digits
  let exponent := decimal.exponent + (digits.length - 1 : Nat)
  let mantissa :=
    match digits with
    | [] => ""
    | [d] => String.ofList [d]
    | d :: rest => String.ofList (d :: '.' :: rest)
  mantissa ++ "e" ++ toString exponent

/-- How a number is shown: positional from a ten-thousandth up to below
`10 ^ 16`, scientific beyond. -/
def BinaryFormat.describe (format : BinaryFormat) (bits : Nat) : String :=
  if format.isNan bits then "NaN"
  else
    let sign := if format.isNegative bits then "-" else ""
    let magnitude := format.magnitude bits
    if magnitude = format.infinity then sign ++ "inf"
    else if magnitude = 0 then sign ++ "0.0"
    else
      let decimal := format.shortest magnitude
      let (n, d) := format.toQuotient magnitude
      if d ≤ n * 10000 ∧ n < d * 10000000000000000 then sign ++ decimal.positional
      else sign ++ decimal.scientific

end Overlay.Numeral

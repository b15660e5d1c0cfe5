import Overlay.Numeral.Whole

/-!
# Binary floating point

Interchange formats by their bit patterns. A finite pattern without its sign
denotes a whole number of the format's smallest steps scaled by a power of two,
and patterns are in the order of the numbers they denote; so rounding needs only
a quotient rounded to the nearest whole number, ties to the even one.
-/

namespace Overlay.Numeral

structure BinaryFormat where
  /-- Bits of the fraction. -/
  fraction : Nat
  /-- Bits of the exponent. -/
  exponent : Nat
deriving DecidableEq, Repr

namespace BinaryFormat

def single : BinaryFormat := ⟨23, 8⟩
def double : BinaryFormat := ⟨52, 11⟩

def width (format : BinaryFormat) : Nat := 1 + format.exponent + format.fraction

/-- The pattern of positive infinity; every finite pattern is below it. -/
def infinity (format : BinaryFormat) : Nat := 
  (Nat.pow 2 format.exponent - 1) * Nat.pow 2 format.fraction

/-- The pattern of the quiet number that is none. -/
def nan (format : BinaryFormat) : Nat := format.infinity + Nat.pow 2 (format.fraction - 1)

/-- The bit that is set in negative numbers. -/
def signBit (format : BinaryFormat) : Nat := Nat.pow 2 (format.exponent + format.fraction)

/-- The power of two that the smallest step stands for. -/
def minExponent (format : BinaryFormat) : Int :=
  2 - (Nat.pow 2 (format.exponent - 1) : Int) - (format.fraction : Int)

def magnitude (format : BinaryFormat) (bits : Nat) : Nat := bits % format.signBit

def isNegative (format : BinaryFormat) (bits : Nat) : Bool := format.signBit ≤ bits

def isNan (format : BinaryFormat) (bits : Nat) : Bool := format.infinity < format.magnitude bits

/-- Equality of the numbers that two patterns denote: both zeros are equal, and
what is no number equals nothing. -/
def equal (format : BinaryFormat) (a b : Nat) : Bool :=
  !format.isNan a && !format.isNan b &&
    (a == b || (format.magnitude a == 0 && format.magnitude b == 0))

/-- The whole number nearest to a quotient; of two, the even one. -/
def roundQuotient (numerator denominator : Nat) : Nat :=
  let quotient := numerator / denominator
  let twice := 2 * (numerator % denominator)
  if twice < denominator then quotient
  else if denominator < twice then quotient + 1
  else quotient + quotient % 2

/-- `numerator / denominator` as a quotient in which the power of two is taken out. -/
def scaled (numerator denominator : Nat) (power : Int) : Nat × Nat :=
  (numerator * Nat.pow 2 (-power).toNat, denominator * Nat.pow 2 power.toNat)

/-- The exponent of the largest power of two up to a positive quotient. -/
def floorLog2 (numerator denominator : Nat) : Int :=
  let guess : Int := (Nat.log2 numerator : Int) - Nat.log2 denominator
  let (n, d) := scaled numerator denominator guess
  if d ≤ n then guess else guess - 1

/-- The pattern of the number nearest to a quotient. -/
def ofQuotient (format : BinaryFormat) (numerator denominator : Nat) : Nat :=
  if numerator = 0 then 0
  else
    let power := max format.minExponent (floorLog2 numerator denominator - format.fraction)
    let (n, d) := scaled numerator denominator power
    let bits := (power - format.minExponent).toNat * Nat.pow 2 format.fraction + roundQuotient n d
    min bits format.infinity

/-- Beyond this power of ten every format here overflows, and below its inverse
everything rounds to zero. -/
def decimalReach : Int := 400

/-- The pattern of the number nearest to `digits * 10 ^ exponent`, where `digits`
has `count` digits. -/
def ofDecimal (format : BinaryFormat) (digits count : Nat) (exponent : Int) : Nat :=
  if digits = 0 then 0
  else if decimalReach < exponent + count then format.infinity
  else if exponent + count < -decimalReach then 0
  else format.ofQuotient (digits * Nat.pow 10 exponent.toNat) (Nat.pow 10 (-exponent).toNat)

end BinaryFormat

inductive FloatFault
  | empty
  | invalid
deriving DecidableEq, Repr

def FloatFault.message : FloatFault → String
  | .empty => "cannot parse float from empty string"
  | .invalid => "invalid float literal"

/-- The exponent behind its letter: digits with an optional sign. -/
def readExponent : List Char → Option Int
  | '+' :: digits => if digits ≠ [] ∧ digits.all isDigit then some (ofDigits digits) else none
  | '-' :: digits => if digits ≠ [] ∧ digits.all isDigit then some (-(ofDigits digits)) else none
  | digits => if digits ≠ [] ∧ digits.all isDigit then some (ofDigits digits) else none

/-- The pattern of an unsigned decimal number: digits with at most one point and
an optional exponent, at least one digit before or after the point. -/
def readMagnitude (format : BinaryFormat) (text : List Char) : Option Nat :=
  let before := text.takeWhile isDigit
  let rest := text.dropWhile isDigit
  let (after, rest) :=
    match rest with
    | '.' :: rest => (rest.takeWhile isDigit, rest.dropWhile isDigit)
    | rest => ([], rest)
  if before.isEmpty && after.isEmpty then none
  else
    let exponent :=
      match rest with
      | [] => some 0
      | 'e' :: rest | 'E' :: rest => readExponent rest
      | _ => none
    exponent.map fun exponent =>
      let digits := (before ++ after).dropWhile (· == '0')
      format.ofDecimal (ofDigits digits) digits.length (exponent - after.length)

/-- An unsigned number: decimal, or a word for infinity or for no number. -/
def readUnsigned (format : BinaryFormat) (text : List Char) : Option Nat :=
  let word := String.ofList (text.map Char.toLower)
  if word = "inf" ∨ word = "infinity" then some format.infinity
  else if word = "nan" then some format.nan
  else readMagnitude format text

/-- Read a number into the format's nearest pattern. -/
def BinaryFormat.read (format : BinaryFormat) : List Char → Except FloatFault Nat
  | [] => .error .empty
  | '-' :: text =>
    match readUnsigned format text with
    | some bits => .ok (format.signBit + bits)
    | none => .error .invalid
  | text =>
    match readUnsigned format (if text.head? = some '+' then text.tail else text) with
    | some bits => .ok bits
    | none => .error .invalid

end Overlay.Numeral

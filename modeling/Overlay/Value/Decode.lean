import Overlay.Text.Blank
import Overlay.Text.Pieces
import Overlay.Value

/-!
# Decoding values

From the text of a value to the value. A decoder is a function that either
succeeds or says what is wrong with which text. Lists and sets cut their text at
a delimiter, drop blank items and decode the others with the decoder of the
items; the first item that fails decides the error.
-/

namespace Overlay

open Numeral (WholeType WholeFault BinaryFormat FloatFault isDigit readDigits)

/-- What is wrong with a text. -/
inductive DecodeReason
  | notTruth
  | whole (fault : WholeFault)
  | float (fault : FloatFault)
  | noCharacter
  | manyCharacters
  | unknownUnit (unit : String)
  /-- The words of a decoder that is not built in. -/
  | custom (words : String)
deriving DecidableEq, Repr

def DecodeReason.message : DecodeReason → String
  | .notTruth => "expected true/false, yes/no or on/off"
  | .whole fault => fault.message
  | .float fault => fault.message
  | .noCharacter => "cannot parse char from empty string"
  | .manyCharacters => "too many characters in string"
  | .unknownUnit unit => s!"unknown unit '{unit}'"
  | .custom words => words

structure DecodeError where
  raw : String
  typeName : String
  reason : DecodeReason
deriving DecidableEq, Repr

def DecodeError.message (error : DecodeError) : String :=
  s!"cannot decode '{error.raw}' as {error.typeName}: {error.reason.message}"

/-- A way to read values of type `V` from their text. -/
abbrev Decoder (V : Type) := String → Except DecodeError V

namespace Decode

def truth : Decoder Bool := fun raw =>
  let word := String.ofList ((Text.trim raw.toList).map Char.toLower)
  if word = "true" ∨ word = "yes" ∨ word = "on" then .ok true
  else if word = "false" ∨ word = "no" ∨ word = "off" then .ok false
  else .error ⟨raw, "bool", .notTruth⟩

def whole (type : WholeType) : Decoder Int := fun raw =>
  (type.read (Text.trim raw.toList)).mapError fun fault => ⟨raw, type.name, .whole fault⟩

def float (format : BinaryFormat) (typeName : String) : Decoder Nat := fun raw =>
  (format.read (Text.trim raw.toList)).mapError fun fault => ⟨raw, typeName, .float fault⟩

def character : Decoder Char := fun raw =>
  match Text.trim raw.toList with
  | [] => .error ⟨raw, "char", .noCharacter⟩
  | [c] => .ok c
  | _ => .error ⟨raw, "char", .manyCharacters⟩

/-- The largest number of seconds in a duration. -/
def maxSeconds : Nat := WholeType.u64.max

/-- The milliseconds in an amount of a unit. Minutes and hours beyond the largest
number of seconds stay there. -/
def unitMillis (amount : Nat) (unit : String) : Option Nat :=
  if unit = "" ∨ unit = "ms" then some amount
  else if unit = "s" then some (amount * 1000)
  else if unit = "m" then some (min (amount * 60) maxSeconds * 1000)
  else if unit = "h" then some (min (amount * 3600) maxSeconds * 1000)
  else none

/-- A count and a unit, in milliseconds. A count alone is one of milliseconds. -/
def duration : Decoder Nat := fun raw => do
  let text := Text.trim raw.toList
  let digits := text.takeWhile isDigit
  let unit := String.ofList (Text.trim (text.dropWhile isDigit))
  let fail := fun reason => DecodeError.mk raw "core::time::Duration" reason
  let amount ← (WholeType.u64.read digits).mapError fun fault => fail (.whole fault)
  match unitMillis amount.toNat unit with
  | some millis => .ok millis
  | none => .error (fail (.unknownUnit unit))

/-- The items of a list: the pieces between delimiters, trimmed, without the
empty ones. An empty delimiter stands for a comma. -/
def items (delimiter raw : String) : List String :=
  let separator := if delimiter.isEmpty then [','] else delimiter.toList
  (((Text.pieces separator raw.toList).map Text.trim).filter (!·.isEmpty)).map String.ofList

/-- The items of a list, each decoded. -/
def list {V : Type} (item : Decoder V) (delimiter : String) : Decoder (List V) := fun raw =>
  (items delimiter raw).mapM item

/-- Read a value of a built-in type. -/
def value (delimiter : String) : ValueType → Decoder Value
  | .string => fun raw => .ok (.text raw)
  | .bool => fun raw => (truth raw).map .truth
  | .whole type => fun raw => (whole type raw).map .whole
  | .single => fun raw => (float .single "f32" raw).map .single
  | .double => fun raw => (float .double "f64" raw).map .double
  | .char => fun raw => (character raw).map .character
  | .duration => fun raw => (duration raw).map .millis
  | .list item => fun raw => (list (value delimiter item) delimiter raw).map .list
  | .set item | .bag item => fun raw =>
    (list (value delimiter item) delimiter raw).map fun found => .set (Value.ascending found)

end Decode

end Overlay

import Overlay.Numeral.Binary
import Overlay.Toml
import Overlay.Toml.Lexical

/-!
# Scalars of TOML

Truth values, numbers, dates and times. Numbers may have underscores between two
digits. An integer must fit into 64 bits with sign, and a float must not exceed
the largest one; dates must exist.
-/

namespace Overlay.Toml

open Numeral (isDigit ofDigits BinaryFormat)

/-- Digits of a kind with single underscores between them, without these; the text
follows a digit. -/
def digitRun (isDigit : Char → Bool) : List Char → List Char × List Char
  | [] => ([], [])
  | '_' :: c :: rest =>
    if isDigit c then
      let (digits, rest) := digitRun isDigit rest
      (c :: digits, rest)
    else ([], '_' :: c :: rest)
  | c :: rest =>
    if isDigit c then
      let (digits, rest) := digitRun isDigit rest
      (c :: digits, rest)
    else ([], c :: rest)

/-- At least one digit. -/
def digits (isDigit : Char → Bool) : Reader (List Char)
  | [] => none
  | c :: rest =>
    if isDigit c then
      let (digits, rest) := digitRun isDigit rest
      some (c :: digits, rest)
    else none

/-- The digits of a decimal whole number. A zero stands alone. -/
def wholeDigits : Reader (List Char)
  | '0' :: rest => some (['0'], rest)
  | text => digits isDigit text

/-- A sign, if there is one: is it a minus? -/
def sign : List Char → Bool × List Char
  | '+' :: rest => (false, rest)
  | '-' :: rest => (true, rest)
  | text => (false, text)

def fitsInteger (number : Int) : Bool := -9223372036854775808 ≤ number && number ≤ 9223372036854775807

def integerValue (number : Int) (rest : List Char) : Option (Value × List Char) :=
  if fitsInteger number then some (.integer number, rest) else none

/-- Digits to a base of at least 10 that is a power of two, or less. -/
def baseDigits (base : Nat) (text : List Char) : Option (Value × List Char) := do
  let isDigit := fun c => match hexValue? c with
    | some n => decide (n < base)
    | none => false
  let (found, rest) ← digits isDigit text
  let number := found.foldl (fun n c => n * base + (hexValue? c).getD 0) 0
  integerValue number rest

def integer : Reader Value
  | '0' :: 'x' :: rest => baseDigits 16 rest
  | '0' :: 'o' :: rest => baseDigits 8 rest
  | '0' :: 'b' :: rest => baseDigits 2 rest
  | text => do
    let (negative, rest) := sign text
    let (found, rest) ← wholeDigits rest
    let number : Int := ofDigits found
    integerValue (if negative then -number else number) rest

/-- The exponent of a float, from its letter on. -/
def exponent : Reader Int
  | c :: rest => do
    if c != 'e' && c != 'E' then none
    let (negative, rest) := sign rest
    let (found, rest) ← digits isDigit rest
    let number : Int := ofDigits found
    return (if negative then -number else number, rest)
  | [] => none

/-- A float with these digits before and after the point, unless it is too large. -/
def floatValue (negative : Bool) (before after : List Char) (exponent : Int)
    (rest : List Char) : Option (Value × List Char) :=
  let found := (before ++ after).dropWhile (· == '0')
  let bits := BinaryFormat.double.ofDecimal (ofDigits found) found.length (exponent - after.length)
  if !negative && bits == BinaryFormat.double.infinity then none else some (.float, rest)

def float : Reader Value := fun text => do
  let (negative, rest) := sign text
  match rest with
  | 'i' :: 'n' :: 'f' :: rest => return (.float, rest)
  | 'n' :: 'a' :: 'n' :: rest => return (.float, rest)
  | _ =>
    let (before, rest) ← wholeDigits rest
    match rest with
    | '.' :: rest =>
      let (after, rest) ← digits isDigit rest
      match exponent rest with
      | some (e, rest) => floatValue negative before after e rest
      | none => floatValue negative before after 0 rest
    | rest =>
      let (e, rest) ← exponent rest
      floatValue negative before [] e rest

-- ---------------------------------------------------------------------------
-- Dates and times
-- ---------------------------------------------------------------------------

/-- A number of exactly this many digits. -/
def fixedDigits (count : Nat) : Reader Nat := fun text =>
  let found := text.take count
  if found.length = count ∧ found.all isDigit then some (ofDigits found, text.drop count) else none

def expect (c : Char) : Reader Unit
  | d :: rest => if c = d then some ((), rest) else none
  | [] => none

def isLeapYear (year : Nat) : Bool := year % 4 == 0 && (year % 100 != 0 || year % 400 == 0)

def daysInMonth (year month : Nat) : Nat :=
  if month = 2 then if isLeapYear year then 29 else 28
  else if month ∈ [4, 6, 9, 11] then 30
  else 31

def date : Reader Unit := fun text => do
  let (year, rest) ← fixedDigits 4 text
  let (_, rest) ← expect '-' rest
  let (month, rest) ← fixedDigits 2 rest
  let (_, rest) ← expect '-' rest
  let (day, rest) ← fixedDigits 2 rest
  if 1 ≤ month ∧ month ≤ 12 ∧ 1 ≤ day ∧ day ≤ daysInMonth year month then return ((), rest)
  else none

def hourMinute : Reader Unit := fun text => do
  let (hour, rest) ← fixedDigits 2 text
  let (_, rest) ← expect ':' rest
  let (minute, rest) ← fixedDigits 2 rest
  if hour ≤ 23 ∧ minute ≤ 59 then return ((), rest) else none

/-- A time of day with an optional fraction of a second; a second may be a leap
second. -/
def time : Reader Unit := fun text => do
  let (_, rest) ← hourMinute text
  let (_, rest) ← expect ':' rest
  let (second, rest) ← fixedDigits 2 rest
  if 60 < second then none
  match rest with
  | '.' :: c :: more => return ((), if isDigit c then more.dropWhile isDigit else rest)
  | _ => return ((), rest)

/-- The distance from universal time, if it is given. -/
def offset (text : List Char) : List Char :=
  match text with
  | 'Z' :: rest | 'z' :: rest => rest
  | '+' :: rest | '-' :: rest => ((hourMinute rest).map (·.2)).getD text
  | _ => text

/-- A date, a time, or both with an optional offset. -/
def datetime : Reader Value := fun text =>
  match date text with
  | some (_, rest) =>
    match rest with
    | c :: more =>
      if c = 'T' ∨ c = 't' ∨ c = ' ' then
        match time more with
        | some (_, more) => some (.datetime, offset more)
        | none => some (.datetime, rest)
      else some (.datetime, rest)
    | [] => some (.datetime, rest)
  | none => (time text).map fun (_, rest) => (.datetime, rest)

/-- A value that holds no others. -/
def scalar : Reader Value := fun text =>
  match text with
  | '"' :: _ | '\'' :: _ => (string text).map fun (s, rest) => (.string s, rest)
  | 't' :: 'r' :: 'u' :: 'e' :: rest => some (.boolean true, rest)
  | 'f' :: 'a' :: 'l' :: 's' :: 'e' :: rest => some (.boolean false, rest)
  | _ => ((datetime text).or (float text)).or (integer text)

end Overlay.Toml

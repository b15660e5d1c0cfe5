/-!
# Whole numbers of a fixed width

Reading decimal digits into a bounded integer. A sign may stand in front: a plus
always, a minus only where the type has negative values. The first problem from
the left is reported; at one character a bad digit comes before an overflow.
-/

namespace Overlay.Numeral

inductive WholeFault
  | empty
  | invalidDigit
  | tooLarge
  | tooSmall
deriving DecidableEq, Repr

def WholeFault.message : WholeFault → String
  | .empty => "cannot parse integer from empty string"
  | .invalidDigit => "invalid digit found in string"
  | .tooLarge => "number too large to fit in target type"
  | .tooSmall => "number too small to fit in target type"

/-- A range of integers: `bits` wide, with or without negative ones. -/
structure WholeType where
  name : String
  signed : Bool
  bits : Nat
deriving DecidableEq, Repr

namespace WholeType

def i8 : WholeType := ⟨"i8", true, 8⟩
def i16 : WholeType := ⟨"i16", true, 16⟩
def i32 : WholeType := ⟨"i32", true, 32⟩
def i64 : WholeType := ⟨"i64", true, 64⟩
def i128 : WholeType := ⟨"i128", true, 128⟩
def isize : WholeType := ⟨"isize", true, 64⟩
def u8 : WholeType := ⟨"u8", false, 8⟩
def u16 : WholeType := ⟨"u16", false, 16⟩
def u32 : WholeType := ⟨"u32", false, 32⟩
def u64 : WholeType := ⟨"u64", false, 64⟩
def u128 : WholeType := ⟨"u128", false, 128⟩
def usize : WholeType := ⟨"usize", false, 64⟩

/-- The types that properties can have. -/
def all : List WholeType := [i8, i16, i32, i64, i128, isize, u8, u16, u32, u64, u128, usize]

/-- The largest member. -/
def max (type : WholeType) : Nat := Nat.pow 2 (type.bits - if type.signed then 1 else 0) - 1

/-- How far below zero the members reach. -/
def negativeMax (type : WholeType) : Nat := if type.signed then Nat.pow 2 (type.bits - 1) else 0

end WholeType

def isDigit (c : Char) : Bool := '0' ≤ c && c ≤ '9'

def digitValue (c : Char) : Nat := c.toNat - '0'.toNat

/-- Read digits behind a number read so far, up to a limit; `overflow` is the
fault of passing it. -/
def readDigits (limit : Nat) (overflow : WholeFault) : Nat → List Char → Except WholeFault Nat
  | number, [] => .ok number
  | number, c :: rest =>
    if isDigit c then
      let next := number * 10 + digitValue c
      if next ≤ limit then readDigits limit overflow next rest else .error overflow
    else .error .invalidDigit

/-- The number that digits denote. -/
def ofDigits (digits : List Char) : Nat :=
  digits.foldl (fun number c => number * 10 + digitValue c) 0

/-- Read an integer of the type. A sign on its own is a bad digit. -/
def WholeType.read (type : WholeType) : List Char → Except WholeFault Int
  | [] => .error .empty
  | ['+'] | ['-'] => .error .invalidDigit
  | '+' :: digits => (readDigits type.max .tooLarge 0 digits).map Int.ofNat
  | '-' :: digits =>
    if type.signed then
      (readDigits type.negativeMax .tooSmall 0 digits).map fun number => -(number : Int)
    else .error .invalidDigit
  | digits => (readDigits type.max .tooLarge 0 digits).map Int.ofNat

theorem foldl_digits_le (number : Nat) (digits : List Char) :
    number ≤ digits.foldl (fun number c => number * 10 + digitValue c) number := by
  induction digits generalizing number with
  | nil => exact Nat.le_refl _
  | cons c rest ih =>
    have : number ≤ number * 10 + digitValue c := by omega
    exact Nat.le_trans this (ih _)

/-- Digits are too many only if the number they denote is beyond the limit. -/
theorem readDigits_of_digits {limit : Nat} {overflow : WholeFault} {number : Nat}
    {digits : List Char} (hdigits : ∀ c ∈ digits, isDigit c) (hlimit : number ≤ limit) :
    readDigits limit overflow number digits =
      if digits.foldl (fun number c => number * 10 + digitValue c) number ≤ limit then
        .ok (digits.foldl (fun number c => number * 10 + digitValue c) number)
      else .error overflow := by
  induction digits generalizing number with
  | nil => exact (if_pos hlimit).symm
  | cons c rest ih =>
    rw [readDigits, if_pos (hdigits c List.mem_cons_self), List.foldl_cons]
    by_cases hnext : number * 10 + digitValue c ≤ limit
    · exact (if_pos hnext).trans (ih (fun d hd => hdigits d (List.mem_cons_of_mem _ hd)) hnext)
    · have hbeyond := foldl_digits_le (number * 10 + digitValue c) rest
      exact (if_neg hnext).trans (if_neg fun hle => hnext (Nat.le_trans hbeyond hle)).symm

/-- Digits without a sign are read as the number they denote. -/
theorem WholeType.read_of_digits (type : WholeType) {digits : List Char} (hsome : digits ≠ [])
    (hdigits : ∀ c ∈ digits, isDigit c) :
    type.read digits =
      if ofDigits digits ≤ type.max then .ok (ofDigits digits : Int) else .error .tooLarge := by
  have hread : type.read digits = (readDigits type.max .tooLarge 0 digits).map Int.ofNat := by
    unfold WholeType.read
    split
    · exact absurd rfl hsome
    · exact absurd (hdigits '+' List.mem_cons_self) (by decide)
    · exact absurd (hdigits '-' List.mem_cons_self) (by decide)
    · exact absurd (hdigits '+' List.mem_cons_self) (by decide)
    · exact absurd (hdigits '-' List.mem_cons_self) (by decide)
    · rfl
  rw [hread, readDigits_of_digits hdigits (Nat.zero_le _)]
  show Except.map Int.ofNat (if ofDigits digits ≤ type.max then _ else _) = _
  split <;> rfl

-- ---------------------------------------------------------------------------
-- Decimal digits
-- ---------------------------------------------------------------------------

theorem range_of_isDigit {c : Char} (h : isDigit c = true) : 0x30 ≤ c.toNat ∧ c.toNat ≤ 0x39 := by
  simpa [isDigit, Char.le_def, UInt32.le_iff_toNat_le] using h

theorem digitValue_lt {c : Char} (h : isDigit c = true) : digitValue c < 10 := by
  have hrange := range_of_isDigit h
  have hvalue : digitValue c = c.toNat - 0x30 := rfl
  omega

theorem digitChar_digitValue {c : Char} (h : isDigit c = true) : (digitValue c).digitChar = c := by
  have hchars : ∀ n < 10, Nat.digitChar n = Char.ofNat (0x30 + n) := by decide
  have hvalue : digitValue c = c.toNat - 0x30 := rfl
  rw [hchars _ (digitValue_lt h), hvalue, Nat.add_sub_cancel' (range_of_isDigit h).1,
    Char.ofNat_toNat]

theorem toDigits_digitValue {c : Char} (h : isDigit c = true) :
    Nat.toDigits 10 (digitValue c) = [c] := by
  rw [Nat.toDigits_of_lt_base (digitValue_lt h), digitChar_digitValue h]

theorem ofDigits_eq_ofDigitChars (digits : List Char) :
    ofDigits digits = Nat.ofDigitChars 10 digits 0 := by
  have hstep : (fun number c => number * 10 + digitValue c) =
      fun number c => 10 * number + (c.toNat - '0'.toNat) := by
    funext number c
    rw [Nat.mul_comm, digitValue]
  rw [ofDigits, hstep, Nat.ofDigitChars_eq_foldl]

/-- Zeros in front change nothing. -/
theorem ofDigits_zeros_append (zeros n : Nat) :
    ofDigits (List.replicate zeros '0' ++ Nat.toDigits 10 n) = n := by
  rw [ofDigits_eq_ofDigitChars, Nat.ofDigitChars_append, Nat.ofDigitChars_replicate_zero,
    Nat.mul_zero, Nat.ofDigitChars_ten_toDigits]

/-- More digits behind those of a number other than zero are the digits of the number that all of
them denote. -/
theorem toDigits_append {number : Nat} {digits : List Char} (hnumber : 0 < number)
    (hdigits : ∀ c ∈ digits, isDigit c) :
    Nat.toDigits 10 number ++ digits =
      Nat.toDigits 10 (digits.foldl (fun number c => number * 10 + digitValue c) number) := by
  induction digits generalizing number with
  | nil => rw [List.append_nil, List.foldl_nil]
  | cons c rest ih =>
    have hc : isDigit c = true := hdigits c List.mem_cons_self
    have hnext : Nat.toDigits 10 number ++ [c] =
        Nat.toDigits 10 (number * 10 + digitValue c) := by
      rw [← toDigits_digitValue hc,
        Nat.toDigits_append_toDigits (by decide) hnumber (digitValue_lt hc), Nat.mul_comm]
    rw [List.append_cons, hnext, List.foldl_cons]
    exact ih (by omega) fun d hd => hdigits d (List.mem_cons_of_mem _ hd)

/-- Digits are zeros and then the decimal digits of the number that they denote. -/
theorem exists_eq_zeros_append {digits : List Char} (hsome : digits ≠ [])
    (hdigits : ∀ c ∈ digits, isDigit c) :
    ∃ zeros, digits = List.replicate zeros '0' ++ Nat.toDigits 10 (ofDigits digits) := by
  induction digits with
  | nil => exact absurd rfl hsome
  | cons c rest ih =>
    have hc : isDigit c = true := hdigits c List.mem_cons_self
    have hrest : ∀ d ∈ rest, isDigit d := fun d hd => hdigits d (List.mem_cons_of_mem _ hd)
    have hfirst := toDigits_digitValue hc
    have hvalue : ofDigits (c :: rest) =
        rest.foldl (fun number c => number * 10 + digitValue c) (digitValue c) := by
      rw [ofDigits, List.foldl_cons, Nat.zero_mul, Nat.zero_add]
    rcases Nat.eq_zero_or_pos (digitValue c) with hzero | hpos
    · obtain rfl : c = '0' := by
        rw [← digitChar_digitValue hc, hzero]
        rfl
      cases rest with
      | nil => exact ⟨0, hfirst.symm⟩
      | cons d rest =>
        obtain ⟨zeros, heq⟩ := ih (List.cons_ne_nil d rest) hrest
        refine ⟨zeros + 1, ?_⟩
        rw [hvalue, hzero, List.replicate_succ, List.cons_append]
        exact congrArg ('0' :: ·) heq
    · refine ⟨0, ?_⟩
      rw [hvalue, ← toDigits_append hpos hrest, hfirst]
      rfl

end Overlay.Numeral

import Mathlib
import Overlay.Proofs.Text.Pieces
import Overlay.Value.Decode

/-!
# Durations

A duration is written as digits and a unit (`Decode.Written`), in one way only but for zeros and
blanks (`Decode.Written.digits_eq`, `Decode.written_iff_toDigits`). Every such text is read, as
exactly that amount of the unit, unless its digits denote too large a number; of any other text the
digits are found fault with before the unit (`Decode.duration_grammar`).
-/

namespace Overlay.Decode

open Numeral (WholeType isDigit ofDigits)
open Text (isBlank trim)

/-- The units of time. -/
inductive TimeUnit
  | bare
  | millis
  | seconds
  | minutes
  | hours
deriving DecidableEq, Repr

namespace TimeUnit

def word : TimeUnit → String
  | bare => ""
  | millis => "ms"
  | seconds => "s"
  | minutes => "m"
  | hours => "h"

/-- An amount of the unit in milliseconds. -/
def amount (n : Nat) : TimeUnit → Nat
  | bare | millis => n
  | seconds => n * 1000
  | minutes => min (60 * n) (2 ^ 64 - 1) * 1000
  | hours => min (3600 * n) (2 ^ 64 - 1) * 1000

theorem amount_mono (unit : TimeUnit) {n m : Nat} (h : n ≤ m) : unit.amount n ≤ unit.amount m := by
  cases unit <;> simp only [amount] <;> omega

/-- The seconds in an amount are at most the largest number there is. -/
theorem amount_fits (unit : TimeUnit) {n : Nat} (h : n < 2 ^ 64) :
    unit.amount n / 1000 < 2 ^ 64 := by
  cases unit <;> simp only [amount] <;> omega

theorem word_injective : Function.Injective word := by
  intro unit other h
  cases unit <;> cases other <;> simp [word] at h ⊢

theorem not_isDigit_of_mem_word {unit : TimeUnit} {c : Char} (h : c ∈ unit.word.toList) :
    isDigit c = false := by
  have hall : ∀ c ∈ unit.word.toList, isDigit c = false := by
    cases unit <;> simp [word] <;> decide
  exact hall c h

end TimeUnit

theorem max_u64 : WholeType.u64.max = 2 ^ 64 - 1 := rfl

section
variable {word : String} {n : Nat}

theorem unitMillis_word (n : Nat) (unit : TimeUnit) :
    unitMillis n unit.word = some (unit.amount n) := by
  have hmax : maxSeconds = 2 ^ 64 - 1 := max_u64
  cases unit with
  | bare | millis | seconds => rfl
  | minutes | hours =>
    simp [unitMillis, TimeUnit.word, TimeUnit.amount, hmax, Nat.mul_comm]

theorem unitMillis_eq_none (h : ∀ unit : TimeUnit, unit.word ≠ word) :
    unitMillis n word = none := by
  have hbare : ¬ (word = "" ∨ word = "ms") := not_or.mpr ⟨(h .bare).symm, (h .millis).symm⟩
  have hseconds : word ≠ "s" := (h .seconds).symm
  have hminutes : word ≠ "m" := (h .minutes).symm
  have hhours : word ≠ "h" := (h .hours).symm
  rw [unitMillis, if_neg hbare, if_neg hseconds, if_neg hminutes, if_neg hhours]

end

-- ---------------------------------------------------------------------------
-- Digits and what follows them
-- ---------------------------------------------------------------------------

/-- The digits that a text begins with. -/
def leadingDigits (raw : String) : List Char := (trim raw.toList).takeWhile isDigit

/-- What follows them. -/
def unitWord (raw : String) : String :=
  String.ofList (trim ((trim raw.toList).dropWhile isDigit))

/-- A text of digits that denote `n`, then the unit. -/
def Written (raw : String) (n : Nat) (unit : TimeUnit) : Prop :=
  ∃ digits rest, trim raw.toList = digits ++ rest ∧ digits ≠ [] ∧ (∀ c ∈ digits, isDigit c) ∧
    ofDigits digits = n ∧ trim rest = unit.word.toList

section
variable {raw : String} {n m : Nat} {unit other : TimeUnit}

theorem isDigit_of_mem_leadingDigits {c : Char} (h : c ∈ leadingDigits raw) : isDigit c = true :=
  List.mem_takeWhile_imp h

theorem isBlank_of_isDigit {c : Char} (h : isDigit c = true) : isBlank c = false := by
  have hrange := Numeral.range_of_isDigit h
  simp only [isBlank, Bool.or_eq_false_iff, Bool.and_eq_false_iff, decide_eq_false_iff_not,
    beq_eq_false_iff_ne]
  omega

/-- The digits of a written duration are all the digits it begins with. -/
theorem Written.digits_eq (h : Written raw n unit) :
    leadingDigits raw ≠ [] ∧ ofDigits (leadingDigits raw) = n ∧ unitWord raw = unit.word := by
  obtain ⟨digits, rest, hraw, hsome, hdigits, hn, hunit⟩ := h
  have hrest : ∀ c, rest.head? = some c → isDigit c = false := by
    intro c hhead
    by_contra hdigit
    rw [Bool.not_eq_false] at hdigit
    -- a digit is not trimmed away, so the unit would have one
    have hmem : c ∈ trim rest :=
      (Text.mem_trim_iff (isBlank_of_isDigit hdigit)).mpr (List.mem_of_head? hhead)
    have hnot := TimeUnit.not_isDigit_of_mem_word (hunit ▸ hmem)
    exact absurd hdigit (by simp [hnot])
  have htake : rest.takeWhile isDigit = [] ∧ rest.dropWhile isDigit = rest := by
    cases rest with
    | nil => exact ⟨rfl, rfl⟩
    | cons c rest =>
      have hc := hrest c rfl
      exact ⟨List.takeWhile_cons_of_neg (by simp [hc]), List.dropWhile_cons_of_neg (by simp [hc])⟩
  have hleading : leadingDigits raw = digits := by
    rw [leadingDigits, hraw, List.takeWhile_append_of_pos hdigits, htake.1, List.append_nil]
  refine ⟨hleading ▸ hsome, hleading ▸ hn, ?_⟩
  rw [unitWord, hraw, List.dropWhile_append_of_pos hdigits, htake.2, hunit, String.ofList_toList]

theorem written_iff : Written raw n unit ↔
    leadingDigits raw ≠ [] ∧ ofDigits (leadingDigits raw) = n ∧ unitWord raw = unit.word := by
  refine ⟨Written.digits_eq, fun ⟨hsome, hn, hunit⟩ => ?_⟩
  refine ⟨leadingDigits raw, (trim raw.toList).dropWhile isDigit,
    List.takeWhile_append_dropWhile.symm, hsome, fun c => isDigit_of_mem_leadingDigits, hn, ?_⟩
  rw [← hunit, unitWord, String.toList_ofList]

/-- The digits are those of the number in decimal, behind any number of zeros. -/
theorem written_iff_toDigits : Written raw n unit ↔
    ∃ zeros rest, trim raw.toList = List.replicate zeros '0' ++ Nat.toDigits 10 n ++ rest ∧
      trim rest = unit.word.toList := by
  constructor
  · rintro ⟨digits, rest, hraw, hsome, hdigits, rfl, hunit⟩
    obtain ⟨zeros, heq⟩ := Numeral.exists_eq_zeros_append hsome hdigits
    exact ⟨zeros, rest, heq ▸ hraw, hunit⟩
  · rintro ⟨zeros, rest, hraw, hunit⟩
    refine ⟨_, rest, hraw, ?_, fun c hc => ?_, Numeral.ofDigits_zeros_append zeros n, hunit⟩
    · exact List.append_ne_nil_of_right_ne_nil _ Nat.toDigits_ne_nil
    · rcases List.mem_append.mp hc with hzero | hdigit
      · exact List.eq_of_mem_replicate hzero ▸ rfl
      · exact Nat.isDigit_of_mem_toDigits (by decide) le_rfl hdigit

-- ---------------------------------------------------------------------------
-- Reading
-- ---------------------------------------------------------------------------

/-- The error about a text that is not a duration. -/
def durationError (raw : String) (reason : DecodeReason) : DecodeError :=
  ⟨raw, "core::time::Duration", reason⟩

theorem duration_without_digits (h : leadingDigits raw = []) :
    duration raw = .error (durationError raw (.whole .empty)) := by
  have hdigits : (trim raw.toList).takeWhile isDigit = [] := h
  rw [duration, hdigits]
  rfl

theorem duration_too_large (hsome : leadingDigits raw ≠ [])
    (hlarge : 2 ^ 64 ≤ ofDigits (leadingDigits raw)) :
    duration raw = .error (durationError raw (.whole .tooLarge)) := by
  have hread := WholeType.u64.read_of_digits hsome fun c => isDigit_of_mem_leadingDigits
  rw [max_u64, if_neg (by omega), leadingDigits] at hread
  rw [duration, hread]
  rfl

theorem duration_in_range (hsome : leadingDigits raw ≠ [])
    (hrange : ofDigits (leadingDigits raw) < 2 ^ 64) :
    duration raw = (unitMillis (ofDigits (leadingDigits raw)) (unitWord raw)).elim
      (.error (durationError raw (.unknownUnit (unitWord raw)))) .ok := by
  have hread := WholeType.u64.read_of_digits hsome fun c => isDigit_of_mem_leadingDigits
  rw [max_u64, if_pos (by omega), leadingDigits] at hread
  rw [duration, hread, unitWord, leadingDigits]
  simp only [Except.mapError, bind, Except.bind, Int.toNat_natCast, durationError]
  cases unitMillis _ _ <;> rfl

/-- What a text is read as, and what it is found fault with. -/
inductive Reads (raw : String) : Except DecodeError Nat → Prop
  | amount {n : Nat} {unit : TimeUnit} : Written raw n unit → n < 2 ^ 64 →
      Reads raw (.ok (unit.amount n))
  | empty : leadingDigits raw = [] → Reads raw (.error (durationError raw (.whole .empty)))
  | tooLarge : leadingDigits raw ≠ [] → 2 ^ 64 ≤ ofDigits (leadingDigits raw) →
      Reads raw (.error (durationError raw (.whole .tooLarge)))
  | unknownUnit : leadingDigits raw ≠ [] → ofDigits (leadingDigits raw) < 2 ^ 64 →
      (∀ unit : TimeUnit, unit.word ≠ unitWord raw) →
      Reads raw (.error (durationError raw (.unknownUnit (unitWord raw))))

theorem reads_duration (raw : String) : Reads raw (duration raw) := by
  by_cases hsome : leadingDigits raw = []
  · rw [duration_without_digits hsome]
    exact .empty hsome
  by_cases hlarge : 2 ^ 64 ≤ ofDigits (leadingDigits raw)
  · rw [duration_too_large hsome hlarge]
    exact .tooLarge hsome hlarge
  rw [not_le] at hlarge
  rw [duration_in_range hsome hlarge]
  by_cases hunit : ∃ unit : TimeUnit, unit.word = unitWord raw
  · obtain ⟨unit, hword⟩ := hunit
    rw [← hword, unitMillis_word]
    exact .amount (written_iff.mpr ⟨hsome, rfl, hword.symm⟩) hlarge
  · have hunit := not_exists.mp hunit
    rw [unitMillis_eq_none hunit]
    exact .unknownUnit hsome hlarge hunit

theorem Written.unique (h : Written raw n unit) (hother : Written raw m other) :
    n = m ∧ unit = other := by
  obtain ⟨-, hn, hunit⟩ := h.digits_eq
  obtain ⟨-, hm, hword⟩ := hother.digits_eq
  exact ⟨hn.symm.trans hm, TimeUnit.word_injective (hunit.symm.trans hword)⟩

theorem duration_eq_ok_iff {millis : Nat} : duration raw = .ok millis ↔
    ∃ n unit, Written raw n unit ∧ n < 2 ^ 64 ∧ millis = unit.amount n := by
  constructor
  · intro h
    have hreads := reads_duration raw
    rw [h] at hreads
    cases hreads with
    | amount hwritten hrange => exact ⟨_, _, hwritten, hrange, rfl⟩
  · rintro ⟨n, unit, hwritten, hrange, rfl⟩
    obtain ⟨hsome, rfl, hunit⟩ := hwritten.digits_eq
    rw [duration_in_range hsome hrange, hunit, unitMillis_word]
    rfl

theorem duration_eq_error_iff {error : DecodeError} : duration raw = .error error ↔
    error.raw = raw ∧ error.typeName = "core::time::Duration" ∧
      (leadingDigits raw = [] ∧ error.reason = .whole .empty ∨
        leadingDigits raw ≠ [] ∧ 2 ^ 64 ≤ ofDigits (leadingDigits raw) ∧
          error.reason = .whole .tooLarge ∨
        leadingDigits raw ≠ [] ∧ ofDigits (leadingDigits raw) < 2 ^ 64 ∧
          (∀ unit : TimeUnit, unit.word ≠ unitWord raw) ∧
          error.reason = .unknownUnit (unitWord raw)) := by
  constructor
  · intro h
    have hreads := reads_duration raw
    rw [h] at hreads
    cases hreads with
    | empty hnone => exact ⟨rfl, rfl, .inl ⟨hnone, rfl⟩⟩
    | tooLarge hsome hlarge => exact ⟨rfl, rfl, .inr (.inl ⟨hsome, hlarge, rfl⟩)⟩
    | unknownUnit hsome hrange hunit => exact ⟨rfl, rfl, .inr (.inr ⟨hsome, hrange, hunit, rfl⟩)⟩
  · obtain ⟨text, typeName, reason⟩ := error
    rintro ⟨htext, rfl, hreason⟩
    obtain rfl : text = raw := htext
    rcases hreason with ⟨hnone, rfl⟩ | ⟨hsome, hlarge, rfl⟩ | ⟨hsome, hrange, hunit, rfl⟩
    · exact duration_without_digits hnone
    · exact duration_too_large hsome hlarge
    · rw [duration_in_range hsome hrange, unitMillis_eq_none hunit]
      rfl

/-- With the number the amount of one unit grows. -/
theorem duration_mono {text : String} {millis more : Nat} (h : Written raw n unit)
    (htext : Written text m unit) (hle : n ≤ m) (hread : duration raw = .ok millis)
    (hmore : duration text = .ok more) : millis ≤ more := by
  obtain ⟨_, _, hwritten, -, rfl⟩ := duration_eq_ok_iff.mp hread
  obtain ⟨_, _, hother, -, rfl⟩ := duration_eq_ok_iff.mp hmore
  obtain ⟨rfl, rfl⟩ := h.unique hwritten
  obtain ⟨rfl, rfl⟩ := htext.unique hother
  exact unit.amount_mono hle

/-- A text is read if it is a number below `2 ^ 64`, written in decimal, and a unit, and then as
exactly that amount of the unit, which grows with the number. What is wrong with any other text is
what is wrong with its digits, or else its unit. -/
theorem duration_grammar (raw : String) :
    (∀ millis, duration raw = .ok millis ↔
        ∃ n unit, Written raw n unit ∧ n < 2 ^ 64 ∧ millis = unit.amount n) ∧
      (∀ n unit, Written raw n unit ↔ ∃ zeros rest,
        trim raw.toList = List.replicate zeros '0' ++ Nat.toDigits 10 n ++ rest ∧
          trim rest = unit.word.toList) ∧
      (∀ n m unit other, Written raw n unit → Written raw m other → n = m ∧ unit = other) ∧
      (∀ millis, duration raw = .ok millis → millis / 1000 < 2 ^ 64) ∧
      (∀ text n m unit millis more, Written raw n unit → Written text m unit → n ≤ m →
        duration raw = .ok millis → duration text = .ok more → millis ≤ more) ∧
      ∀ error, duration raw = .error error ↔
        error.raw = raw ∧ error.typeName = "core::time::Duration" ∧
          (leadingDigits raw = [] ∧ error.reason = .whole .empty ∨
            leadingDigits raw ≠ [] ∧ 2 ^ 64 ≤ ofDigits (leadingDigits raw) ∧
              error.reason = .whole .tooLarge ∨
            leadingDigits raw ≠ [] ∧ ofDigits (leadingDigits raw) < 2 ^ 64 ∧
              (∀ unit : TimeUnit, unit.word ≠ unitWord raw) ∧
              error.reason = .unknownUnit (unitWord raw)) := by
  refine ⟨fun _ => duration_eq_ok_iff, fun _ _ => written_iff_toDigits,
    fun _ _ _ _ => Written.unique, fun millis hread => ?_, fun _ _ _ _ _ _ => duration_mono,
    fun _ => duration_eq_error_iff⟩
  obtain ⟨n, unit, -, hrange, rfl⟩ := duration_eq_ok_iff.mp hread
  exact unit.amount_fits hrange

/-- Blanks may stand between the digits and the unit, and too many hours are all there are. -/
example : duration "\u2003007 \t m\n" = .ok 420000 ∧
    duration "9000000000000000h" = .ok 18446744073709551615000 := by
  decide +kernel

end

end Overlay.Decode

import Mathlib
import Overlay.Poll.Record

/-!
# Summaries

A record is written result by result. What it says can be read off all the results that it was
written from (`Record.Summarises`), and one more result keeps this so (`Record.Summarises.add`).
-/

namespace Overlay.Poll

/-- What some polls came to: when each ended, and its result. -/
abbrev Results := List (Nat × Except PollError Unit)

def Outcome.of : Except PollError Unit → Outcome
  | .ok () => .success
  | .error _ => .failure

def error? : Except PollError Unit → Option PollError
  | .ok () => none
  | .error error => some error

/-- When a poll is due is no part of the summary. -/
structure Record.Summarises (record : Record) (results : Results) : Prop where
  attempts : record.attempts = results.length
  /-- The failures since the last success. -/
  consecutiveFailures :
    record.consecutiveFailures = (results.rtakeWhile fun result => !result.2.isOk).length
  lastOutcome : record.lastOutcome = results.getLast?.map fun result => .of result.2
  lastSuccess : record.lastSuccess = (results.filter fun result => result.2.isOk).getLast?.map (·.1)
  lastError : record.lastError =
    (results.filterMap fun result => error? result.2).getLast?.map PollError.message

namespace Record

variable {record : Record} {results : Results}

theorem summarises_nil : ({} : Record).Summarises [] := ⟨rfl, rfl, rfl, rfl, rfl⟩

theorem Summarises.withDue (h : record.Summarises results) (due : Option Nat) :
    ({ record with nextDue := due } : Record).Summarises results :=
  ⟨h.attempts, h.consecutiveFailures, h.lastOutcome, h.lastSuccess, h.lastError⟩

/-- A success ends the failures in a row, and leaves the text of the last one. -/
theorem Summarises.add (h : record.Summarises results) (now : Nat)
    (result : Except PollError Unit) :
    (record.add now result).Summarises (results ++ [(now, result)]) := by
  have hattempts : record.attempts + 1 = (results ++ [(now, result)]).length := by
    rw [h.attempts, List.length_append, List.length_singleton]
  cases result with
  | ok _ =>
    refine ⟨hattempts, ?_, ?_, ?_, ?_⟩
    · rw [List.rtakeWhile_concat_neg _ _ _ (by simp [Except.isOk, Except.toBool])]
      rfl
    · rw [List.getLast?_concat]
      rfl
    · rw [List.filter_append, List.filter_cons_of_pos rfl, List.filter_nil, List.getLast?_concat]
      rfl
    · rw [List.filterMap_append, List.filterMap_cons_none rfl, List.filterMap_nil, List.append_nil]
      exact h.lastError
  | error error =>
    refine ⟨hattempts, ?_, ?_, ?_, ?_⟩
    · rw [List.rtakeWhile_concat_pos _ _ _ rfl, List.length_append, ← h.consecutiveFailures]
      rfl
    · rw [List.getLast?_concat]
      rfl
    · rw [List.filter_append, List.filter_cons_of_neg (by simp [Except.isOk, Except.toBool]),
        List.filter_nil, List.append_nil]
      exact h.lastSuccess
    · have hlast : [(now, Except.error error)].filterMap (fun result => error? result.2) =
          [error] := rfl
      rw [List.filterMap_append, hlast, List.getLast?_concat]
      rfl

end Record

end Overlay.Poll

import Overlay.Poll.Source

/-!
# Records

What is kept about the polls of one schedule.
-/

namespace Overlay.Poll

inductive Outcome
  | success
  | failure
deriving DecidableEq, Repr

def Outcome.label : Outcome → String
  | .success => "success"
  | .failure => "failure"

/-- What the polls so far have come to. The two counters have no bound; with 64 bits for the
attempts and 32 for the failures in a row they hold the same, as long as fewer than `2 ^ 64` polls
are made and fewer than `2 ^ 32` of them fail in a row. -/
structure Record where
  attempts : Nat := 0
  consecutiveFailures : Nat := 0
  lastOutcome : Option Outcome := none
  /-- When a poll last succeeded, if one has. -/
  lastSuccess : Option Nat := none
  /-- The text of the latest failure; later successes leave it. -/
  lastError : Option String := none
  /-- When the next poll is due, if one is. -/
  nextDue : Option Nat := none
deriving DecidableEq, Repr

/-- Take down the result of a poll that ended at a time. -/
def Record.add (record : Record) (now : Nat) (result : Except PollError Unit) : Record :=
  match result with
  | .ok () =>
    { record with
      attempts := record.attempts + 1
      consecutiveFailures := 0
      lastOutcome := some .success
      lastSuccess := some now }
  | .error error =>
    { record with
      attempts := record.attempts + 1
      consecutiveFailures := record.consecutiveFailures + 1
      lastOutcome := some .failure
      lastError := some error.message }

end Overlay.Poll

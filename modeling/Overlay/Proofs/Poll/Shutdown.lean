import Mathlib
import Overlay.Proofs.Poll.Run

/-!
# Shutting a schedule down

No poll of a schedule begins once the shutdown has been signalled; the one that is under way
then ends, and counts like any other. A synchronous schedule that has not seen a success by
then fails, every other one ends quietly (`Schedule.standing_runUntil`).
-/

namespace Overlay.Poll.Schedule

variable {plan : Plan} {schedule before after : Schedule} {script : List Reply} {poller : Poller}
  {entries : Entries} {stop time ends : Nat} {answer : Answer} {continues : Schedule → Bool}

-- ---------------------------------------------------------------------------
-- Times
-- ---------------------------------------------------------------------------

theorem nextTime_of_flight (h : schedule.phase.flight? = some (ends, answer)) :
    schedule.nextTime plan = some ends := by
  unfold nextTime
  cases hphase : schedule.phase with
  | initialPoll | polling =>
    rw [hphase] at h
    exact congrArg (Option.map Prod.fst) h
  | _ => simp [hphase, Phase.flight?] at h

theorem lt_of_isDue_eq_false (h : schedule.isDue plan time = false) {next : Nat}
    (hnext : schedule.nextTime plan = some next) : time < next := by
  simpa [isDue, hnext] using h

/-- The shutdown wakes whoever waits. -/
theorem wake_le (hstop : plan.stopAt = some stop) (hle : stop ≤ time) (hnow : schedule.now ≤ time)
    (due : Nat) : schedule.wake plan due ≤ time := by
  simp only [wake, hstop]
  omega

/-- A schedule that has been shut down is at rest, unless a poll is under way. -/
theorem Keeps.rests (h : schedule.Keeps script poller entries) (hstop : plan.stopAt = some stop)
    (hle : stop ≤ time) (hnow : schedule.now ≤ time) (hover : schedule.isDue plan time = false)
    (hdone : ∀ round ∈ schedule.begun script, round.ends ≤ time) :
    schedule.starting = false ∧ schedule.running = false := by
  have hlate {next : Nat} (hnext : schedule.nextTime plan = some next) : ¬ next ≤ time :=
    Nat.not_le_of_lt (lt_of_isDue_eq_false hover hnext)
  have hflight (ends : Nat) (answer : Answer) : schedule.phase.flight? ≠ some (ends, answer) := by
    intro hflight
    obtain ⟨-, round, hbegun, rfl, -⟩ := h.flight ends answer hflight
    exact hlate (nextTime_of_flight hflight) (hdone round (by simp [hbegun]))
  cases hphase : schedule.phase with
  | stopped | failed => simp [starting, running, hphase]
  | initialPoll ends answer | polling ends _ answer =>
    exact absurd (by rw [hphase]; rfl) (hflight ends answer)
  | attempting => exact absurd hnow (hlate (by simp [nextTime, hphase]))
  | retrying due | waiting due =>
    exact absurd (wake_le hstop hle hnow due) (hlate (by simp [nextTime, hphase]))

end Overlay.Poll.Schedule

import Mathlib
import Overlay.Proofs.Poll.Run
import Overlay.Proofs.Poll.Summary

/-!
# The record of a schedule

The initial phase, the polls that are due and the end of a schedule all write to one record. At
every moment it sums up the polls that have ended, and the next one is known to be due just
while the schedule runs. What a poll results in has no say in that: only the shutdown ends a
schedule that runs (`Schedule.record_summarises_ended`).
-/

namespace Overlay.Poll

def Round.results (rounds : List Round) : Results :=
  rounds.map fun round => (round.ends, round.result)

theorem Round.summarises_record (rounds : List Round) :
    (Round.record rounds).Summarises (Round.results rounds) := by
  induction rounds using List.reverseRecOn with
  | nil => exact Record.summarises_nil
  | append_singleton rounds round ih =>
    rw [Round.record_append, Round.results, List.map_append]
    exact ih.add round.ends round.result

namespace Schedule

variable {plan : Plan} {schedule before after : Schedule} {script : List Reply} {poller : Poller}
  {entries : Entries} {continues : Schedule → Bool}

theorem Keeps.summarises (h : schedule.Keeps script poller entries) :
    schedule.record.Summarises (Round.results (schedule.ended script)) := by
  rw [h.record]
  exact (Round.summarises_record _).withDue _

/-- A schedule without a period is over before it begins. -/
theorem eq_launch_of_path (hperiod : plan.settings.periodMs = 0)
    (hpath : Path plan continues (launch plan script poller entries) schedule) :
    schedule = launch plan script poller entries := by
  have hstep : (launch plan script poller entries).step plan = none := by
    simp [launch, start, hperiod, step]
  rcases hpath.cases_head with heq | ⟨after, ⟨-, hafter⟩, -⟩
  · exact heq.symm
  · exact absurd (hstep.symm.trans hafter) (by simp)

/-- Something is always next for a schedule that runs, and it runs on unless it was waiting for
a poll when the shutdown came. -/
theorem exists_step_of_running (hrunning : schedule.running = true) :
    ∃ next, schedule.step plan = some next ∧ (next.running = true ∨
      (schedule.phase.flight? = none ∧ plan.stopped next.now = true)) := by
  obtain ⟨next, hnext⟩ : ∃ next, schedule.step plan = some next := by
    rw [← Option.isSome_iff_exists, isSome_step]
    unfold running at hrunning
    unfold nextTime
    cases hphase : schedule.phase <;> simp [hphase] at hrunning ⊢
  refine ⟨next, hnext, ?_⟩
  cases happens_of_step hnext with
  | attempt hphase | interrupt hphase | succeed hphase | giveUp hphase | delay hphase
  | retry hphase | cutShort hphase => simp [running, hphase] at hrunning
  | poll hphase => exact .inl rfl
  | stop hphase hstopped => exact .inr ⟨by rw [hphase]; rfl, hstopped⟩
  | serve hphase => exact .inl rfl

/-- At every moment of a run the record sums up the polls that have ended, which are all that
have begun when none is under way. The next poll is known to be due as long as the schedule
runs, and that is until the shutdown: the end of a poll, successful or not, is not the end of the
schedule. -/
theorem record_summarises_ended
    (hpath : Path plan continues (launch plan script poller entries) schedule) :
    schedule.record.Summarises (Round.results (schedule.ended script)) ∧
      (schedule.phase.flight? = none → schedule.ended script = schedule.begun script) ∧
      schedule.record.nextDue.isSome = schedule.running ∧
      (schedule.running = true → ∃ next, schedule.step plan = some next ∧
        (next.running = true ∨
          (schedule.phase.flight? = none ∧ plan.stopped next.now = true))) := by
  refine ⟨?_, ended_of_flight?_eq_none, ?_, exists_step_of_running⟩
  · by_cases hperiod : plan.settings.periodMs = 0
    · have hnothing : (launch plan script poller entries).record = {} ∧
          (launch plan script poller entries).ended script = [] := by
        simp [launch, start, hperiod, ended, begun]
      rw [eq_launch_of_path hperiod hpath, hnothing.1, hnothing.2]
      exact Record.summarises_nil
    · exact ((sound_launch hperiod script poller entries).path hpath).keeps.summarises
  · by_cases hperiod : plan.settings.periodMs = 0
    · rw [eq_launch_of_path hperiod hpath]
      simp [launch, start, hperiod, running]
    · exact ((sound_launch hperiod script poller entries).path hpath).phased.isSome_nextDue

/-- A failure before the first success, and one after it. -/
def flakyScript : List Reply :=
  [⟨.error (.source "unavailable"), 5⟩, ⟨.ok ⟨.snapshot (.ofPairs [("key", "one")]), none⟩, 10⟩,
    ⟨.error (.io "timed out"), 50⟩]

def flakyPlan : Plan := { settings := { periodMs := 100, retryDelayMs := 10 }, stopAt := some 400 }

theorem record_summarises_ended_flaky : ∃ schedule,
    Path flakyPlan (isDue flakyPlan 200)
        (launch flakyPlan flakyScript ⟨"source", 0, none, false⟩ .empty) schedule ∧
      schedule.phase.flight? = none ∧ schedule.running = true ∧
      Round.results (schedule.begun flakyScript) = [(5, .error (.source "unavailable")),
        (25, .ok ()), (175, .error (.io "timed out"))] ∧
      schedule.record.attempts = 3 ∧ schedule.record.consecutiveFailures = 1 ∧
      schedule.record.lastOutcome = some .failure ∧ schedule.record.lastSuccess = some 25 ∧
      schedule.record.lastError = some "I/O error: timed out" ∧
      schedule.record.nextDue.isSome = true := by
  have hpath := path_runUntil flakyPlan 200
    (launch flakyPlan flakyScript ⟨"source", 0, none, false⟩ .empty)
  obtain ⟨hsummary, hended, hdue, -⟩ := record_summarises_ended hpath
  have hresults : Round.results (((launch flakyPlan flakyScript ⟨"source", 0, none, false⟩
      .empty).runUntil flakyPlan 200).begun flakyScript) = [(5, .error (.source "unavailable")),
        (25, .ok ()), (175, .error (.io "timed out"))] := rfl
  rw [hended rfl, hresults] at hsummary
  exact ⟨_, hpath, rfl, rfl, hresults, hsummary.attempts, hsummary.consecutiveFailures,
    hsummary.lastOutcome, hsummary.lastSuccess, hsummary.lastError, hdue⟩

end Schedule

end Overlay.Poll

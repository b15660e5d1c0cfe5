import Mathlib
import Overlay.Proofs.Poll.Timeline

/-!
# Phases

What the phase of a schedule tells (`Phase.Fits`). A synchronous schedule waits for its
polls only when one has succeeded, and an asynchronous one never does anything else; a
schedule fails only by being interrupted before. The next poll is known to be due as long as
the schedule runs.
-/

namespace Overlay.Poll

/-- What a phase says of whether a poll has succeeded, and of when the next one is due. -/
def Phase.Fits (plan : Plan) (succeeded : Bool) (due : Option Nat) : Phase → Prop
  | .attempting | .initialPoll _ _ | .retrying _ | .failed .interrupted =>
    plan.settings.initial = .sync ∧ succeeded = false ∧ due = none
  | .failed _ => False
  | .waiting _ | .polling _ _ _ =>
    (plan.settings.initial = .sync → succeeded = true) ∧ due.isSome = true
  | .stopped => (plan.settings.initial = .sync → succeeded = true) ∧ due = none

namespace Schedule

/-- One of the polls that have ended has succeeded. -/
def succeeded (schedule : Schedule) (script : List Reply) : Bool :=
  (schedule.ended script).any Round.succeeded

def Phased (plan : Plan) (schedule : Schedule) (script : List Reply) : Prop :=
  schedule.phase.Fits plan (schedule.succeeded script) schedule.record.nextDue

variable {plan : Plan} {schedule before after : Schedule} {script : List Reply} {poller : Poller}
  {entries : Entries} {time ends : Nat} {answer : Answer}

-- ---------------------------------------------------------------------------
-- Success
-- ---------------------------------------------------------------------------

theorem succeeded_begin (hfree : schedule.phase.flight? = none) {phase : Nat → Answer → Phase}
    (hphase : ∀ ends answer, (phase ends answer).flight? = some (ends, answer)) :
    (schedule.begin time phase).succeeded script = schedule.succeeded script := by
  rw [succeeded, succeeded, ended_begin hphase, ended_of_flight?_eq_none hfree]

theorem succeeded_of_free (hfree : before.phase.flight? = none)
    (hpolls : after.polls = before.polls) (hphase : after.phase.flight? = none) :
    after.succeeded script = before.succeeded script := by
  rw [succeeded, succeeded, ended_of_polls_eq hpolls hphase, ended_of_flight?_eq_none hfree]

/-- The poll that was under way counts when it has ended. -/
theorem Keeps.succeeded_of_flight (h : before.Keeps script poller entries)
    (hflight : before.phase.flight? = some (ends, answer)) (hpolls : after.polls = before.polls)
    (hphase : after.phase.flight? = none) :
    after.succeeded script = (before.succeeded script || answer.isOk) := by
  obtain ⟨-, round, hbegun, -, rfl⟩ := h.flight ends answer hflight
  rw [succeeded, succeeded, ended_of_polls_eq hpolls hphase, hbegun, List.any_append]
  simp [Round.succeeded]

-- ---------------------------------------------------------------------------
-- Steps
-- ---------------------------------------------------------------------------

theorem Phased.step (h : before.Phased plan script) (hkeeps : before.Keeps script poller entries)
    (hstep : before.step plan = some after) : after.Phased plan script := by
  unfold Phased at h
  have hfree (hphase : before.phase.flight? = none) (hpolls : after.polls = before.polls)
      (hafter : after.phase.flight? = none) : after.succeeded script = before.succeeded script :=
    succeeded_of_free hphase hpolls hafter
  have hflight {ends answer} (hphase : before.phase.flight? = some (ends, answer))
      (hpolls : after.polls = before.polls) (hafter : after.phase.flight? = none) :
      after.succeeded script = (before.succeeded script || answer.isOk) :=
    hkeeps.succeeded_of_flight hphase hpolls hafter
  cases happens_of_step hstep with
  | attempt hphase hgoes =>
    rw [hphase] at h
    have hsame : (before.begin before.now .initialPoll).succeeded script =
        before.succeeded script := succeeded_begin (by rw [hphase]; rfl) fun _ _ => rfl
    exact ⟨h.1, hsame.trans h.2.1, h.2.2⟩
  | interrupt hphase hstopped | cutShort hphase hstopped | retry hphase hgoes =>
    rw [hphase] at h
    exact ⟨h.1, (hfree (by rw [hphase]; rfl) rfl rfl).trans h.2.1, h.2.2⟩
  | succeed hphase =>
    refine ⟨fun _ => (hflight (by rw [hphase]; rfl) (finish_polls _ _ _) rfl).trans ?_, rfl⟩
    exact Bool.or_true _
  | giveUp hphase hstopped | delay hphase hgoes =>
    rw [hphase] at h
    refine ⟨h.1, (hflight (by rw [hphase]; rfl) (finish_polls _ _ _) rfl).trans ?_, h.2.2⟩
    rw [h.2.1]
    rfl
  | poll hphase hgoes =>
    rw [hphase] at h
    refine ⟨fun hsync => ?_, h.2⟩
    exact (succeeded_begin (by rw [hphase]; rfl) fun _ _ => rfl).trans (h.1 hsync)
  | stop hphase hstopped =>
    rw [hphase] at h
    exact ⟨fun hsync => (hfree (by rw [hphase]; rfl) rfl rfl).trans (h.1 hsync), rfl⟩
  | serve hphase =>
    rw [hphase] at h
    refine ⟨fun hsync => (hflight (by rw [hphase]; rfl) (finish_polls _ _ _) rfl).trans ?_, rfl⟩
    rw [h.1 hsync]
    rfl

-- ---------------------------------------------------------------------------
-- What the phase tells
-- ---------------------------------------------------------------------------

theorem Phased.of_failed {error : PollError} (h : schedule.Phased plan script)
    (hphase : schedule.phase = .failed error) : error = .interrupted ∧
      plan.settings.initial = .sync ∧ schedule.succeeded script = false ∧
        schedule.record.nextDue = none := by
  unfold Phased at h
  rw [hphase] at h
  cases error with
  | interrupted => exact ⟨rfl, h⟩
  | _ => exact h.elim

/-- The next poll is known to be due exactly while the schedule runs. -/
theorem Phased.isSome_nextDue (h : schedule.Phased plan script) :
    schedule.record.nextDue.isSome = schedule.running := by
  cases hphase : schedule.phase with
  | failed error => simp [running, hphase, (h.of_failed hphase).2.2.2]
  | _ =>
    unfold Phased at h
    rw [hphase] at h
    simp [running, hphase, h.2]

/-- A schedule that has failed has been interrupted. -/
theorem Phased.failure (h : schedule.Phased plan script) :
    schedule.failure = none ∨ schedule.failure = some .interrupted := by
  cases hphase : schedule.phase with
  | failed error =>
    rw [(h.of_failed hphase).1] at hphase
    exact .inr (by simp [Schedule.failure, hphase])
  | _ => exact .inl (by simp [Schedule.failure, hphase])

end Schedule

end Overlay.Poll

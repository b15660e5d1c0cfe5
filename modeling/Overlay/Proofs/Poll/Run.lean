import Mathlib
import Overlay.Proofs.Poll.Phases

/-!
# Runs of a schedule

A schedule is run by taking steps, at most as many as `Schedule.stepBound` says. They
suffice: every step uses up an answer, or ends a phase, or puts the next poll off
(`Schedule.measure`). So a run up to a time takes all the steps up to that time, and to run up to
a later time it goes on from there (`Schedule.runUntil_runUntil`).
-/

namespace Overlay.Poll.Schedule

open Relation (ReflTransGen)

variable {plan : Plan} {schedule before after : Schedule} {script : List Reply} {poller : Poller}
  {entries : Entries} {time : Nat} {continues : Schedule → Bool}

-- ---------------------------------------------------------------------------
-- The number of steps
-- ---------------------------------------------------------------------------

/-- More than the number of steps that are left up to a time. -/
def measure (schedule : Schedule) (time : Nat) : Nat :=
  match schedule.phase with
  | .attempting => 3 * schedule.replies.length + 2 * time + 5
  | .initialPoll _ (.ok _) => 2 * time + 4
  | .initialPoll _ (.error _) => 3 * schedule.replies.length + 2 * time + 7
  | .retrying _ => 3 * schedule.replies.length + 2 * time + 6
  | .waiting due => 2 * (time + 1 - due) + 1
  | .polling _ due _ => 2 * (time + 1 - due) + 2
  | .stopped | .failed _ => 0

theorem measure_le_stepBound (schedule : Schedule) (time : Nat) :
    schedule.measure time ≤ schedule.stepBound time := by
  unfold measure stepBound
  split <;> omega

theorem lt_nextDue {period due began : Nat} (hperiod : period ≠ 0) :
    due < Schedule.nextDue period due began := by
  unfold Schedule.nextDue
  split <;> omega

/-- A wait that is not cut short lasts as long as it should. -/
theorem le_wake (hgoes : plan.stopped (schedule.wake plan time) = false) :
    time ≤ schedule.wake plan time := by
  unfold wake Plan.stopped at hgoes
  unfold wake
  cases hstop : plan.stopAt with
  | none =>
    simp only
    omega
  | some stop =>
    simp only [hstop, decide_eq_false_iff_not] at hgoes ⊢
    omega

/-- A step, be it of the initial phase or one that is made by a time. -/
theorem measure_lt (hperiod : plan.settings.periodMs ≠ 0) (hstep : before.step plan = some after)
    (hworks : before.starting = true ∨ after.now ≤ time) :
    after.measure time < before.measure time := by
  cases happens_of_step hstep with
  | attempt hphase hgoes =>
    simp only [measure, hphase, begin, reply]
    cases before.replies with
    | nil => simp
    | cons reply rest =>
      simp only [List.head?_cons, Option.getD_some, List.tail_cons, List.length_cons]
      cases reply.answer with
      | ok response => simp only; omega
      | error error => simp only; omega
  | interrupt hphase hstopped | cutShort hphase hstopped =>
    simp only [measure, hphase, fail]
    omega
  | succeed hphase =>
    simp only [measure, hphase, waitFor]
    omega
  | giveUp hphase hstopped =>
    simp only [measure, hphase, fail]
    omega
  | delay hphase hgoes =>
    simp only [measure, hphase, finish_replies]
    omega
  | retry hphase hgoes =>
    simp only [measure, hphase]
    omega
  | @poll due hphase hgoes =>
    rcases hworks with hstarting | hnow
    · simp [starting, hphase] at hstarting
    · have hdue : due ≤ time := (le_wake hgoes).trans hnow
      have hlater : due < Schedule.nextDue plan.settings.periodMs due (before.wake plan due) :=
        lt_nextDue hperiod
      simp only [measure, hphase, begin]
      omega
  | stop hphase hstopped =>
    simp only [measure, hphase, stop]
    omega
  | serve hphase =>
    simp only [measure, hphase, waitFor]
    omega

-- ---------------------------------------------------------------------------
-- Taking all steps
-- ---------------------------------------------------------------------------

/-- Steps as long as something holds. -/
def Path (plan : Plan) (continues : Schedule → Bool) : Schedule → Schedule → Prop :=
  ReflTransGen fun before after => continues before = true ∧ before.step plan = some after

/-- Something happens by a time. -/
def isDue (plan : Plan) (time : Nat) (schedule : Schedule) : Bool :=
  match schedule.nextTime plan with
  | some next => next ≤ time
  | none => false

theorem isDue_iff : schedule.isDue plan time = true ↔
    ∃ next, schedule.step plan = some next ∧ next.now ≤ time := by
  unfold isDue
  cases hstep : schedule.step plan with
  | none =>
    have hnone : schedule.nextTime plan = none :=
      Option.not_isSome_iff_eq_none.mp (by simp [← isSome_step, hstep])
    simp [hnone]
  | some next => simp [nextTime_of_step hstep]

theorem Path.mono {wider : Schedule → Bool} (h : Path plan continues before after)
    (hwider : ∀ schedule, continues schedule = true → wider schedule = true) :
    Path plan wider before after :=
  ReflTransGen.mono (fun _ _ hstep => ⟨hwider _ hstep.1, hstep.2⟩) _ _ h

/-- There is one way to go on. -/
theorem Path.total {other : Schedule} (h : Path plan continues schedule after)
    (h' : Path plan continues schedule other) :
    Path plan continues after other ∨ Path plan continues other after :=
  ReflTransGen.total_of_right_unique
    (fun _ _ _ hstep hstep' => Option.some.inj (hstep.2.symm.trans hstep'.2)) h h'

theorem path_runWhile (plan : Plan) (continues : Schedule → Bool) (fuel : Nat)
    (schedule : Schedule) :
    Path plan continues schedule (runWhile plan continues fuel schedule) := by
  induction fuel generalizing schedule with
  | zero => exact .refl
  | succ fuel ih =>
    rw [runWhile]
    split
    · rename_i hcontinues
      split
      · rename_i next hnext
        exact .head ⟨hcontinues, hnext⟩ (ih next)
      · exact .refl
    · exact .refl

/-- Running stops where it should, if there always is a step and it brings this nearer. -/
theorem runWhile_stops {fuel : Nat} (hworks : ∀ {before}, continues before = true →
      ∃ after, before.step plan = some after ∧ after.measure time < before.measure time)
    (hfuel : schedule.measure time ≤ fuel) :
    continues (runWhile plan continues fuel schedule) = false := by
  induction fuel generalizing schedule with
  | zero =>
    refine Bool.eq_false_iff.mpr fun hcontinues => ?_
    obtain ⟨next, -, hless⟩ := hworks hcontinues
    exact Nat.not_lt_zero _ (hless.trans_le hfuel)
  | succ fuel ih =>
    rw [runWhile]
    split
    · rename_i hcontinues
      obtain ⟨next, hnext, hless⟩ := hworks hcontinues
      rw [hnext]
      exact ih (Nat.le_of_lt_succ (hless.trans_le hfuel))
    · rename_i hstops
      exact Bool.eq_false_iff.mpr hstops

/-- The initial phase has an end. -/
theorem starting_execute (hperiod : plan.settings.periodMs ≠ 0) (schedule : Schedule) :
    (schedule.execute plan).starting = false := by
  refine runWhile_stops (fun {before} hstarting => ?_) (measure_le_stepBound schedule 0)
  obtain ⟨after, hafter⟩ : ∃ after, before.step plan = some after := by
    rw [← Option.isSome_iff_exists, isSome_step]
    unfold starting at hstarting
    unfold nextTime
    cases hphase : before.phase <;> simp [hphase] at hstarting ⊢
  exact ⟨after, hafter, measure_lt hperiod hafter (.inl hstarting)⟩

theorem isDue_runUntil (hperiod : plan.settings.periodMs ≠ 0) (schedule : Schedule) (time : Nat) :
    (schedule.runUntil plan time).isDue plan time = false := by
  have hworks {before : Schedule} (hdue : before.isDue plan time = true) :
      ∃ after, before.step plan = some after ∧ after.measure time < before.measure time := by
    obtain ⟨after, hafter, hnow⟩ := isDue_iff.mp hdue
    exact ⟨after, hafter, measure_lt hperiod hafter (.inr hnow)⟩
  exact runWhile_stops hworks (measure_le_stepBound schedule time)

theorem path_runUntil (plan : Plan) (time : Nat) (schedule : Schedule) :
    Path plan (isDue plan time) schedule (schedule.runUntil plan time) :=
  path_runWhile plan (isDue plan time) _ schedule

/-- A schedule at its start, over a leaf with these entries. -/
def launch (plan : Plan) (script : List Reply) (poller : Poller) (entries : Entries) : Schedule :=
  { start plan script poller with entries }

theorem now_launch : (launch plan script poller entries).now = 0 := by
  unfold launch start
  split
  · rfl
  · split <;> rfl

/-- What holds of a schedule whatever has happened. -/
structure Sound (schedule : Schedule) (plan : Plan) (script : List Reply) (poller : Poller)
    (entries : Entries) : Prop where
  keeps : schedule.Keeps script poller entries
  phased : schedule.Phased plan script
  prompt : ∀ round ∈ schedule.begun script, plan.stopped round.began = false

theorem sound_launch (hperiod : plan.settings.periodMs ≠ 0) (script : List Reply) (poller : Poller)
    (entries : Entries) : (launch plan script poller entries).Sound plan script poller entries := by
  unfold launch start
  rw [if_neg hperiod]
  cases hinitial : plan.settings.initial with
  | sync =>
    refine ⟨⟨rfl, rfl, rfl, rfl, ?_, ?_⟩, ⟨hinitial, rfl, rfl⟩, by simp [begun]⟩
    · simp [ended, begun, Phase.flight?]
    · simp [Phase.flight?]
  | async =>
    have hasync : plan.settings.initial ≠ .sync := by simp [hinitial]
    refine ⟨⟨rfl, rfl, rfl, rfl, ?_, ?_⟩, ⟨fun hsync => absurd hsync hasync, rfl⟩, by simp [begun]⟩
    · simp [ended, begun, Phase.flight?]
    · simp [Phase.flight?]

theorem Sound.step (h : before.Sound plan script poller entries)
    (hstep : before.step plan = some after) : after.Sound plan script poller entries where
  keeps := h.keeps.step hstep
  phased := h.phased.step h.keeps hstep
  prompt round hmem := by
    rcases polls_of_step hstep with hpolls | ⟨hgoes, hpolls⟩
    · rw [begun_of_polls_eq hpolls] at hmem
      exact h.prompt round hmem
    · rw [begun, hpolls, List.reverse_cons, List.mapIdx_concat] at hmem
      rcases List.mem_append.mp hmem with hmem | hmem
      · exact h.prompt round hmem
      · rw [List.mem_singleton.mp hmem]
        exact hgoes

theorem Sound.path (h : before.Sound plan script poller entries)
    (hpath : Path plan continues before after) : after.Sound plan script poller entries := by
  induction hpath with
  | refl => exact h
  | tail _ hstep ih => exact ih.step hstep.2

end Overlay.Poll.Schedule

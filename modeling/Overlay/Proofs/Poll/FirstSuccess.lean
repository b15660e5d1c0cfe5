import Mathlib
import Overlay.Proofs.Poll.Records
import Overlay.Proofs.Poll.Ticks

/-!
# The first success

A synchronous execution polls until a poll succeeds. As long as none has, leaf and poller are as
they were, so every poll asks what the first one asked (`Schedule.requests_of_path`), and with a
fixed delay every retry comes that long after the end of the failed poll (`Schedule.Spaced`). So
the execution returns with what the one success brought, or has failed and left the leaf alone
(`Schedule.execute_populates`).
-/

namespace Overlay.Poll

theorem Plan.retryDelay_of_fixed {plan : Plan}
    (hfixed : ∀ bound ∈ plan.settings.maxRetryDelayMs, bound ≤ plan.settings.retryDelayMs)
    (attempt : Nat) : plan.retryDelay attempt = plan.settings.retryDelayMs := by
  have hbound : plan.settings.maxRetryDelay ≤ plan.settings.retryDelayMs := by
    unfold PollingSettings.maxRetryDelay
    cases hmax : plan.settings.maxRetryDelayMs with
    | none => exact le_rfl
    | some bound => exact hfixed bound hmax
  rw [Plan.retryDelay, retryDelay?, if_pos hbound, Option.getD_some]

theorem Round.responses_of_failed {rounds : List Round}
    (h : ∀ round ∈ rounds, round.succeeded = false) : responses (Round.answers rounds) = [] := by
  refine List.filterMap_eq_nil_iff.mpr ?_
  intro answer hanswer
  obtain ⟨round, hround, rfl⟩ := List.mem_map.mp hanswer
  have hfailed := h round hround
  unfold Round.succeeded at hfailed
  cases hanswer : round.reply.answer with
  | error error => rfl
  | ok response => simp [hanswer, Except.isOk, Except.toBool] at hfailed

theorem Round.replay_of_failed {rounds : List Round}
    (h : ∀ round ∈ rounds, round.succeeded = false) (entries : Entries) :
    replay (Round.answers rounds) entries = entries := by
  rw [replay, Round.responses_of_failed h]
  rfl

/-- When the next initial attempt is made, after one that failed at `ends`. -/
def Phase.Resumes (delay now ends : Nat) : Phase → Prop
  | .attempting => now = ends + delay
  | .retrying time => now = ends ∧ time = ends + delay
  | _ => True

namespace Schedule

variable {plan : Plan} {schedule before after : Schedule} {script : List Reply} {poller : Poller}
  {entries : Entries} {delay time ends : Nat}

-- ---------------------------------------------------------------------------
-- Before the first success
-- ---------------------------------------------------------------------------

theorem Phased.not_succeeded (h : schedule.Phased plan script)
    (hstarting : schedule.starting = true) : schedule.succeeded script = false := by
  unfold Phased at h
  cases hphase : schedule.phase with
  | attempting | initialPoll | retrying =>
    rw [hphase] at h
    exact h.2.1
  | _ => simp [starting, hphase] at hstarting

theorem failed_of_not_succeeded (h : schedule.succeeded script = false) {round : Round}
    (hround : round ∈ schedule.ended script) : round.succeeded = false :=
  Bool.eq_false_iff.mpr (List.any_eq_false.mp h round hround)

theorem Keeps.entries_of_not_succeeded (h : schedule.Keeps script poller entries)
    (hnone : schedule.succeeded script = false) : schedule.entries = entries := by
  rw [h.entries]
  exact Round.replay_of_failed (fun _ => failed_of_not_succeeded hnone) entries

theorem Keeps.poller_of_not_succeeded (h : schedule.Keeps script poller entries)
    (hnone : schedule.succeeded script = false) : schedule.poller = poller := by
  rw [h.poller, Poller.after, Round.responses_of_failed fun _ => failed_of_not_succeeded hnone]
  rfl

theorem polls_launch : (launch plan script poller entries).polls = [] := by
  unfold launch start
  split
  · rfl
  · split <;> rfl

theorem requests_of_path (hperiod : plan.settings.periodMs ≠ 0)
    (hpath : Path plan starting (launch plan script poller entries) schedule) :
    ∀ poll ∈ schedule.polls, poll.2 = poller.request := by
  induction hpath with
  | refl =>
    intro poll hpoll
    simp [polls_launch] at hpoll
  | @tail before after hbefore hstep ih =>
    have hsound := (sound_launch hperiod script poller entries).path hbefore
    have hnone : before.succeeded script = false := hsound.phased.not_succeeded hstep.1
    rcases polls_of_step hstep.2 with hpolls | ⟨-, hpolls⟩
    · rw [hpolls]
      exact ih
    · rw [hpolls]
      intro poll hpoll
      rcases List.mem_cons.mp hpoll with rfl | hpoll
      · exact congrArg Poller.request (hsound.keeps.poller_of_not_succeeded hnone)
      · exact ih poll hpoll

-- ---------------------------------------------------------------------------
-- Retries
-- ---------------------------------------------------------------------------

/-- Every poll but the first began a delay after the end of the one before. -/
structure Spaced (delay : Nat) (script : List Reply) (schedule : Schedule) : Prop where
  chain : (schedule.begun script).IsChain fun earlier later => later.began = earlier.ends + delay
  resumes : ∀ last ∈ (schedule.begun script).getLast?,
    schedule.phase.Resumes delay schedule.now last.ends

theorem retrying_of_step {error : PollError} (hphase : before.phase = .initialPoll ends (.error error))
    (hgoes : plan.stopped ends = false) (hstep : before.step plan = some after) :
    after.phase = .retrying (ends + plan.retryDelay after.record.attempts) := by
  unfold step at hstep
  simp only [hphase, hgoes] at hstep
  obtain rfl := Option.some.inj hstep
  rfl

theorem Spaced.of_polls_eq (h : before.Spaced delay script) (hpolls : after.polls = before.polls)
    (hresumes : ∀ last ∈ (before.begun script).getLast?,
      after.phase.Resumes delay after.now last.ends) : after.Spaced delay script := by
  constructor
  · rw [begun_of_polls_eq hpolls]
    exact h.chain
  · rw [begun_of_polls_eq hpolls]
    exact hresumes

theorem Spaced.step (h : before.Spaced delay script)
    (hdelay : ∀ attempt, plan.retryDelay attempt = delay)
    (hkeeps : before.Keeps script poller entries) (hstarting : before.starting = true)
    (hstep : before.step plan = some after) : after.Spaced delay script := by
  have hresumes := h.resumes
  cases happens_of_step hstep with
  | attempt hphase hgoes =>
    rw [hphase] at hresumes
    refine ⟨?_, fun _ _ => trivial⟩
    rw [begun_begin, List.isChain_append]
    refine ⟨h.chain, List.isChain_singleton _, ?_⟩
    rintro last hlast next ⟨⟩
    exact hresumes last hlast
  | interrupt | cutShort => exact h.of_polls_eq rfl fun _ _ => trivial
  | succeed | giveUp => exact h.of_polls_eq (finish_polls _ _ _) fun _ _ => trivial
  | @delay ends error hphase hgoes time =>
    -- the poll that has just ended is the one that was begun last
    refine h.of_polls_eq (finish_polls _ _ _) fun last hlast => ?_
    obtain ⟨-, round, hbegun, hends, -⟩ := hkeeps.flight ends (.error error) (by rw [hphase]; rfl)
    rw [hbegun, List.getLast?_concat] at hlast
    obtain rfl := Option.some.inj hlast
    obtain rfl : time = ends + delay :=
      hdelay _ ▸ Phase.retrying.inj (retrying_of_step hphase hgoes hstep)
    exact ⟨(finish_now _ _ _).trans hends.symm, by rw [hends]⟩
  | @retry time hphase hgoes =>
    rw [hphase] at hresumes
    refine h.of_polls_eq rfl fun last hlast => ?_
    obtain ⟨hnow, htime⟩ := hresumes last hlast
    show before.wake plan time = last.ends + delay
    rw [wake_eq_max hgoes]
    omega
  | poll hphase | stop hphase | serve hphase => simp [starting, hphase] at hstarting

theorem spaced_of_path (hperiod : plan.settings.periodMs ≠ 0)
    (hdelay : ∀ attempt, plan.retryDelay attempt = delay)
    (hpath : Path plan starting (launch plan script poller entries) schedule) :
    schedule.Spaced delay script := by
  induction hpath with
  | refl =>
    have hnone : (launch plan script poller entries).begun script = [] := by
      rw [begun, polls_launch]
      rfl
    exact ⟨by simp [hnone], by simp [hnone]⟩
  | @tail before after hbefore hstep ih =>
    have hsound := (sound_launch hperiod script poller entries).path hbefore
    exact ih.step hdelay hsound.keeps hstep.1 hstep.2

-- ---------------------------------------------------------------------------
-- The execution
-- ---------------------------------------------------------------------------

/-- The initial phase ends with the success of the poll that was begun last, or with no success
at all. -/
theorem last_of_step (hsound : before.Sound plan script poller entries)
    (hstarting : before.starting = true) (hstep : before.step plan = some after)
    (hover : after.starting = false) (hgoes : after.failure = none) :
    ∃ failures last response, after.begun script = failures ++ [last] ∧
      after.phase.flight? = none ∧ (∀ round ∈ failures, round.succeeded = false) ∧
      last.reply.answer = .ok response ∧ after.now = last.ends := by
  cases happens_of_step hstep with
  | attempt | delay | retry => simp [starting, begin] at hover
  | interrupt | giveUp | cutShort => simp [Schedule.failure, fail] at hgoes
  | @succeed ends response hphase =>
    obtain ⟨-, last, hbegun, hends, hanswer⟩ :=
      hsound.keeps.flight ends (.ok response) (by rw [hphase]; rfl)
    refine ⟨before.ended script, last, response, ?_, rfl, fun round hround => ?_, hanswer, ?_⟩
    · rw [← hbegun]
      exact begun_of_polls_eq (finish_polls _ _ _)
    · exact failed_of_not_succeeded (hsound.phased.not_succeeded hstarting) hround
    · exact (finish_now _ _ _).trans hends.symm
  | poll hphase | stop hphase | serve hphase => simp [starting, hphase] at hstarting

/-- Only the shutdown makes the initial phase fail. -/
theorem stopped_of_step (hstarting : before.starting = true) (hstep : before.step plan = some after)
    (hfailed : after.failure.isSome = true) : plan.stopped after.now = true := by
  cases happens_of_step hstep with
  | attempt | delay | retry => simp [Schedule.failure, begin] at hfailed
  | succeed => simp [Schedule.failure, waitFor] at hfailed
  | interrupt hphase hstopped | giveUp hphase hstopped | cutShort hphase hstopped => exact hstopped
  | poll hphase | stop hphase | serve hphase => simp [starting, hphase] at hstarting

/-- A synchronous execution returns, whatever the source replies and whenever the shutdown
comes. If it has not failed, the last of its polls has succeeded and none before, a new poller
asked for the first content in all of them, what the last one brought is in the leaf, and with a
fixed delay every retry began that long after the end of the failed poll. If it has failed, the
shutdown has come, no poll has succeeded and the entries are what they were. -/
theorem execute_populates (hperiod : plan.settings.periodMs ≠ 0)
    (hsync : plan.settings.initial = .sync) (script : List Reply) (poller : Poller)
    (entries : Entries) (hexecute : (launch plan script poller entries).execute plan = schedule) :
    schedule.starting = false ∧
      (schedule.failure = none → ∃ failures last response,
        schedule.begun script = failures ++ [last] ∧ schedule.now = last.ends ∧
        (∀ round ∈ failures, round.succeeded = false) ∧ last.reply.answer = .ok response ∧
        (poller.initialized = false → ∀ poll ∈ schedule.polls, poll.2.initial = true) ∧
        schedule.entries = response.content.apply entries ∧
        schedule.record.attempts = failures.length + 1 ∧
        ((∀ bound ∈ plan.settings.maxRetryDelayMs, bound ≤ plan.settings.retryDelayMs) →
          (schedule.begun script).IsChain fun earlier later =>
            later.began = earlier.ends + plan.settings.retryDelayMs)) ∧
      (schedule.failure.isSome = true → plan.stopped schedule.now = true ∧
        (∀ round ∈ schedule.begun script, round.succeeded = false) ∧
          schedule.entries = entries) := by
  have hpath : Path plan starting (launch plan script poller entries) schedule :=
    hexecute ▸ path_runWhile plan starting _ (launch plan script poller entries)
  have hover : schedule.starting = false := hexecute ▸ starting_execute hperiod _
  have hsound := (sound_launch hperiod script poller entries).path hpath
  obtain ⟨before, hbefore, hstarting, hstep⟩ : ∃ before, Path plan starting
      (launch plan script poller entries) before ∧ before.starting = true ∧
        before.step plan = some schedule := by
    rcases hpath.cases_tail with rfl | hlast
    · simp [launch, start, hperiod, hsync, starting] at hover
    · exact hlast
  refine ⟨hover, fun hgoes => ?_, fun hfailed => ?_⟩
  · obtain ⟨failures, last, response, hbegun, hfree, hfailures, hanswer, hnow⟩ :=
      last_of_step ((sound_launch hperiod script poller entries).path hbefore) hstarting hstep
        hover hgoes
    have hended : schedule.ended script = failures ++ [last] :=
      (ended_of_flight?_eq_none hfree).trans hbegun
    refine ⟨failures, last, response, hbegun, hnow, hfailures, hanswer, ?_, ?_, ?_, ?_⟩
    · intro hfresh poll hpoll
      rw [requests_of_path hperiod hpath poll hpoll, Poller.request, hfresh]
      rfl
    · rw [hsound.keeps.entries, hended, Round.answers_append, replay_append,
        Round.replay_of_failed hfailures]
      simp [replay, Round.answers, hanswer]
    · rw [hsound.keeps.summarises.attempts, hended]
      simp [Round.results]
    · intro hfixed
      exact (spaced_of_path hperiod (Plan.retryDelay_of_fixed hfixed) hpath).chain
  · have hstopped := stopped_of_step hstarting hstep hfailed
    obtain ⟨error, hphase⟩ : ∃ error, schedule.phase = .failed error := by
      unfold Schedule.failure at hfailed
      split at hfailed
      · exact ⟨_, by assumption⟩
      · simp at hfailed
    obtain ⟨-, -, hnone, -⟩ := hsound.phased.of_failed hphase
    refine ⟨hstopped, fun round hround => ?_, hsound.keeps.entries_of_not_succeeded hnone⟩
    rw [← ended_of_flight?_eq_none (by rw [hphase]; rfl)] at hround
    exact failed_of_not_succeeded hnone hround

/-- Two polls fail, and the third brings a change of what is there. -/
def thirdTimeScript : List Reply :=
  [⟨.error (.source "unavailable"), 5⟩, ⟨.error (.io "timed out"), 20⟩,
    ⟨.ok ⟨.delta ["old"] (.ofPairs [("key", "one")]), some "first"⟩, 10⟩]

def steadyPlan : Plan :=
  { settings := { periodMs := 100, retryDelayMs := 30, maxRetryDelayMs := some 30 } }

theorem execute_populates_thirdTime : ∃ schedule interrupted : Schedule,
    schedule = (launch steadyPlan thirdTimeScript ⟨"source", 0, none, false⟩
        (.ofPairs [("old", "zero")])).execute steadyPlan ∧
      interrupted = (launch { steadyPlan with stopAt := some 40 } thirdTimeScript
        ⟨"source", 0, none, false⟩ (.ofPairs [("old", "zero")])).execute
          { steadyPlan with stopAt := some 40 } ∧
      schedule.failure = none ∧ schedule.polls.map (·.1) = [85, 35, 0] ∧
      (∀ poll ∈ schedule.polls, poll.2.initial = true) ∧
      (schedule.begun thirdTimeScript).IsChain (fun earlier later =>
        later.began = earlier.ends + 30) ∧
      schedule.entries.toList = [("key", "one")] ∧
      interrupted.failure = some .interrupted ∧ interrupted.polls.map (·.1) = [35, 0] ∧
      interrupted.entries = .ofPairs [("old", "zero")] := by
  obtain ⟨-, hpopulated, -⟩ := execute_populates (show steadyPlan.settings.periodMs ≠ 0 by decide)
    rfl thirdTimeScript ⟨"source", 0, none, false⟩ (.ofPairs [("old", "zero")]) rfl
  obtain ⟨-, -, hfailed⟩ := execute_populates
    (show ({ steadyPlan with stopAt := some 40 } : Plan).settings.periodMs ≠ 0 by decide)
    rfl thirdTimeScript ⟨"source", 0, none, false⟩ (.ofPairs [("old", "zero")]) rfl
  obtain ⟨-, -, -, -, -, -, -, hinitial, -, -, hspaced⟩ := hpopulated rfl
  have hfixed : ∀ bound ∈ steadyPlan.settings.maxRetryDelayMs,
      bound ≤ steadyPlan.settings.retryDelayMs := by decide
  exact ⟨_, _, rfl, rfl, rfl, rfl, hinitial rfl, hspaced hfixed, by decide, rfl, rfl,
    (hfailed rfl).2.2⟩

end Schedule

end Overlay.Poll

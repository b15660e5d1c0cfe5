import Mathlib
import Overlay.Poll.Schedule
import Overlay.Proofs.Poll.Replay

/-!
# Timelines

The polls of a schedule, each with when it began and what the source replied
(`Schedule.begun`). One at most is under way; the others have ended, and leaf, poller and
record are what they make of them (`Schedule.Keeps`). This holds whatever happens next
(`Schedule.Happens`). No poll begins once the shutdown has been signalled
(`Schedule.polls_of_step`).
-/

namespace Overlay.Poll

theorem Record.add_nextDue (record : Record) (due : Option Nat) (now : Nat)
    (result : Except PollError Unit) : ({ record with nextDue := due } : Record).add now result =
      { record.add now result with nextDue := due } := by
  cases result <;> rfl

/-- One poll of a schedule. -/
structure Round where
  began : Nat
  reply : Reply

namespace Round

def ends (round : Round) : Nat := round.began + round.reply.duration

def result (round : Round) : Except PollError Unit := round.reply.answer.map fun _ => ()

def succeeded (round : Round) : Bool := round.reply.answer.isOk

def answers (rounds : List Round) : List Answer := rounds.map (·.reply.answer)

/-- What is taken down of these polls. -/
def record (rounds : List Round) : Record :=
  rounds.foldl (fun record round => record.add round.ends round.result) {}

theorem answers_append (earlier later : List Round) :
    answers (earlier ++ later) = answers earlier ++ answers later := List.map_append

theorem record_append (rounds : List Round) (round : Round) :
    record (rounds ++ [round]) = (record rounds).add round.ends round.result := by
  rw [record, List.foldl_append]
  rfl

end Round

/-- The reply to a poll, counted from the first. -/
def replyAt (script : List Reply) (index : Nat) : Reply :=
  script[index]?.getD ⟨.ok ⟨.unchanged, none⟩, 0⟩

/-- When the poll that is under way ends, and the answer it will get. -/
def Phase.flight? : Phase → Option (Nat × Answer)
  | .initialPoll ends answer | .polling ends _ answer => some (ends, answer)
  | _ => none

namespace Schedule

/-- The polls begun so far, in their order. -/
def begun (schedule : Schedule) (script : List Reply) : List Round :=
  schedule.polls.reverse.mapIdx fun index poll => ⟨poll.1, replyAt script index⟩

/-- The polls that are not under way any more. -/
def ended (schedule : Schedule) (script : List Reply) : List Round :=
  if schedule.phase.flight?.isSome then (schedule.begun script).dropLast
  else schedule.begun script

/-- Leaf, poller and record are what the polls that have ended make of them. -/
structure Keeps (schedule : Schedule) (script : List Reply) (poller : Poller) (entries : Entries) :
    Prop where
  replies : schedule.replies = script.drop schedule.polls.length
  entries : schedule.entries = replay (Round.answers (schedule.ended script)) entries
  poller : schedule.poller = poller.after (Round.answers (schedule.ended script))
  record : schedule.record =
    { Round.record (schedule.ended script) with nextDue := schedule.record.nextDue }
  past : ∀ round ∈ schedule.ended script, round.ends ≤ schedule.now
  flight : ∀ ends answer, schedule.phase.flight? = some (ends, answer) →
    schedule.now ≤ ends ∧ ∃ round, schedule.begun script = schedule.ended script ++ [round] ∧
      round.ends = ends ∧ round.reply.answer = answer

variable {plan : Plan} {schedule before after : Schedule} {script : List Reply} {poller : Poller}
  {entries : Entries} {time ends : Nat} {answer : Answer}

-- ---------------------------------------------------------------------------
-- Polls under way
-- ---------------------------------------------------------------------------

theorem ended_of_flight?_eq_none (h : schedule.phase.flight? = none) :
    schedule.ended script = schedule.begun script := by
  simp [ended, h]

theorem begun_of_polls_eq (h : after.polls = before.polls) :
    after.begun script = before.begun script := by
  rw [begun, begun, h]

theorem ended_of_polls_eq (hpolls : after.polls = before.polls)
    (hphase : after.phase.flight? = none) : after.ended script = before.begun script :=
  (ended_of_flight?_eq_none hphase).trans (begun_of_polls_eq hpolls)

theorem begun_begin (phase : Nat → Answer → Phase) :
    (schedule.begin time phase).begun script =
      schedule.begun script ++ [⟨time, replyAt script schedule.polls.length⟩] := by
  simp [begun, begin, List.mapIdx_append]

theorem ended_begin {phase : Nat → Answer → Phase}
    (hphase : ∀ ends answer, (phase ends answer).flight? = some (ends, answer)) :
    (schedule.begin time phase).ended script = schedule.begun script := by
  rw [ended, begun_begin]
  simp [begin, hphase]

theorem Keeps.reply (h : schedule.Keeps script poller entries) :
    schedule.reply = replyAt script schedule.polls.length := by
  rw [Schedule.reply, h.replies, List.head?_drop]
  rfl

/-- A poll that begins is the one under way. -/
theorem Keeps.begin (h : schedule.Keeps script poller entries)
    (hfree : schedule.phase.flight? = none) (hnow : schedule.now ≤ time)
    {phase : Nat → Answer → Phase}
    (hphase : ∀ ends answer, (phase ends answer).flight? = some (ends, answer)) :
    (schedule.begin time phase).Keeps script poller entries := by
  have hended : (schedule.begin time phase).ended script = schedule.ended script :=
    (ended_begin hphase).trans (ended_of_flight?_eq_none hfree).symm
  constructor
  · show schedule.replies.tail = script.drop (schedule.polls.length + 1)
    rw [h.replies, List.tail_drop]
  · rw [hended]
    exact h.entries
  · rw [hended]
    exact h.poller
  · rw [hended]
    exact h.record
  · rw [hended]
    exact fun round hmem => (h.past round hmem).trans hnow
  · intro ends answer hflight
    obtain ⟨rfl, rfl⟩ : time + schedule.reply.duration = ends ∧ schedule.reply.answer = answer := by
      have hsome : (phase (time + schedule.reply.duration) schedule.reply.answer).flight? =
          some (ends, answer) := hflight
      rw [hphase] at hsome
      exact Prod.mk.inj (Option.some.inj hsome)
    rw [ended_begin hphase, begun_begin, h.reply]
    exact ⟨Nat.le_add_right _ _, _, rfl, rfl, rfl⟩

/-- What comes of a poll that ends. -/
theorem finish_entries (schedule : Schedule) (time : Nat) (answer : Answer) :
    (schedule.finish time answer).entries = replay [answer] schedule.entries := by
  cases answer with
  | error error => rfl
  | ok response =>
    simp only [finish]
    split
    · exact Edit.run_update response.content schedule.entries
    · rename_i hunchanged
      exact (Edit.eq_of_not_changed hunchanged).symm.trans
        (Edit.run_update response.content schedule.entries)

theorem finish_poller (schedule : Schedule) (time : Nat) (answer : Answer) :
    (schedule.finish time answer).poller = schedule.poller.after [answer] := by
  cases answer <;> rfl

theorem finish_record (schedule : Schedule) (time : Nat) (answer : Answer) :
    (schedule.finish time answer).record = schedule.record.add time (answer.map fun _ => ()) := by
  cases answer <;> rfl

@[simp]
theorem finish_polls (schedule : Schedule) (time : Nat) (answer : Answer) :
    (schedule.finish time answer).polls = schedule.polls := by
  cases answer <;> rfl

@[simp]
theorem finish_replies (schedule : Schedule) (time : Nat) (answer : Answer) :
    (schedule.finish time answer).replies = schedule.replies := by
  cases answer <;> rfl

@[simp]
theorem finish_now (schedule : Schedule) (time : Nat) (answer : Answer) :
    (schedule.finish time answer).now = time := by
  cases answer <;> rfl

/-- A poll that ends is followed by a phase in which none is under way. -/
theorem Keeps.finish (h : schedule.Keeps script poller entries)
    (hflight : schedule.phase.flight? = some (ends, answer)) {phase : Phase}
    (hphase : phase.flight? = none) (due : Option Nat) :
    ({ schedule.finish ends answer with
      phase, record := { (schedule.finish ends answer).record with nextDue := due } } :
        Schedule).Keeps script poller entries := by
  obtain ⟨hnow, round, hbegun, rfl, rfl⟩ := h.flight ends answer hflight
  have hended : ({ schedule.finish round.ends round.reply.answer with
      phase, record := { (schedule.finish round.ends round.reply.answer).record with
        nextDue := due } } : Schedule).ended script = schedule.ended script ++ [round] := by
    rw [← hbegun]
    exact ended_of_polls_eq (finish_polls _ _ _) hphase
  constructor
  · show (schedule.finish round.ends round.reply.answer).replies = _
    rw [finish_replies, h.replies]
    exact congrArg (script.drop ·.length) (finish_polls _ _ _).symm
  · rw [hended, Round.answers_append, replay_append, ← h.entries]
    exact finish_entries _ _ _
  · rw [hended, Round.answers_append, Poller.after_append, ← h.poller]
    exact finish_poller _ _ _
  · rw [hended, Round.record_append]
    show ({ (schedule.finish round.ends round.reply.answer).record with
      nextDue := due } : Record) = _
    rw [finish_record, h.record, Record.add_nextDue]
    rfl
  · intro other hmem
    rw [hended] at hmem
    show other.ends ≤ (schedule.finish round.ends round.reply.answer).now
    rw [finish_now]
    rcases List.mem_append.mp hmem with hmem | hmem
    · exact (h.past other hmem).trans hnow
    · rw [List.mem_singleton.mp hmem]
  · intro ends answer hsome
    exact absurd (hphase.symm.trans hsome) (by simp)

/-- Time passes between polls. -/
theorem Keeps.idle (h : schedule.Keeps script poller entries)
    (hfree : schedule.phase.flight? = none) (hnow : schedule.now ≤ time) {phase : Phase}
    (hphase : phase.flight? = none) (due : Option Nat) :
    ({ schedule with
      now := time, phase, record := { schedule.record with nextDue := due } } :
        Schedule).Keeps script poller entries := by
  have hended : ({ schedule with
      now := time, phase, record := { schedule.record with nextDue := due } } :
        Schedule).ended script = schedule.ended script := by
    rw [ended_of_flight?_eq_none hfree]
    exact ended_of_polls_eq rfl hphase
  constructor
  · exact h.replies
  · rw [hended]
    exact h.entries
  · rw [hended]
    exact h.poller
  · rw [hended]
    exact congrArg (fun record : Record => { record with nextDue := due }) h.record
  · rw [hended]
    exact fun round hmem => (h.past round hmem).trans hnow
  · intro ends answer hsome
    exact absurd (hphase.symm.trans hsome) (by simp)

-- ---------------------------------------------------------------------------
-- What happens next
-- ---------------------------------------------------------------------------

/-- All that can happen next. -/
inductive Happens (plan : Plan) (before : Schedule) : Schedule → Prop
  /-- An initial poll begins. -/
  | attempt (hphase : before.phase = .attempting) (hgoes : plan.stopped before.now = false) :
    Happens plan before (before.begin before.now .initialPoll)
  /-- The shutdown comes before an initial poll. -/
  | interrupt (hphase : before.phase = .attempting) (hstopped : plan.stopped before.now = true) :
    Happens plan before (before.fail before.now .interrupted)
  /-- An initial poll succeeds. -/
  | succeed {ends : Nat} {response : Response}
      (hphase : before.phase = .initialPoll ends (.ok response)) :
    Happens plan before ((before.finish ends (.ok response)).waitFor
      (ends + plan.settings.periodMs) (ends + plan.settings.periodMs))
  /-- An initial poll fails after the shutdown. -/
  | giveUp {ends : Nat} {error : PollError}
      (hphase : before.phase = .initialPoll ends (.error error))
      (hstopped : plan.stopped ends = true) :
    Happens plan before ((before.finish ends (.error error)).fail ends .interrupted)
  /-- An initial poll fails, and is made again after a delay. -/
  | delay {ends : Nat} {error : PollError}
      (hphase : before.phase = .initialPoll ends (.error error))
      (hgoes : plan.stopped ends = false) (time : Nat) :
    Happens plan before { before.finish ends (.error error) with phase := .retrying time }
  /-- The delay is over. -/
  | retry {time : Nat} (hphase : before.phase = .retrying time)
      (hgoes : plan.stopped (before.wake plan time) = false) :
    Happens plan before { before with now := before.wake plan time, phase := .attempting }
  /-- The shutdown comes in a delay. -/
  | cutShort {time : Nat} (hphase : before.phase = .retrying time)
      (hstopped : plan.stopped (before.wake plan time) = true) :
    Happens plan before (before.fail (before.wake plan time) .interrupted)
  /-- A poll that is due begins. -/
  | poll {due : Nat} (hphase : before.phase = .waiting due)
      (hgoes : plan.stopped (before.wake plan due) = false) :
    Happens plan before (before.begin (before.wake plan due) fun ends answer =>
      .polling ends (Schedule.nextDue plan.settings.periodMs due (before.wake plan due)) answer)
  /-- The shutdown comes between polls. -/
  | stop {due : Nat} (hphase : before.phase = .waiting due)
      (hstopped : plan.stopped (before.wake plan due) = true) :
    Happens plan before (before.stop (before.wake plan due))
  /-- A poll that was due ends. -/
  | serve {ends due : Nat} {answer : Answer} (hphase : before.phase = .polling ends due answer) :
    Happens plan before ((before.finish ends answer).waitFor due (ends + plan.settings.periodMs))

theorem happens_of_step (h : before.step plan = some after) : Happens plan before after := by
  unfold step at h
  dsimp only at h
  split at h
  · rename_i hphase
    obtain rfl := Option.some.inj h
    split
    · rename_i hstopped
      exact .interrupt hphase hstopped
    · rename_i hgoes
      exact .attempt hphase (Bool.eq_false_iff.mpr hgoes)
  · rename_i ends answer hphase
    cases answer with
    | ok response =>
      obtain rfl := Option.some.inj h
      exact .succeed hphase
    | error error =>
      obtain rfl := Option.some.inj h
      split
      · rename_i hstopped
        exact .giveUp hphase hstopped
      · rename_i hgoes
        exact .delay hphase (Bool.eq_false_iff.mpr hgoes) _
  · rename_i time hphase
    obtain rfl := Option.some.inj h
    split
    · rename_i hstopped
      exact .cutShort hphase hstopped
    · rename_i hgoes
      exact .retry hphase (Bool.eq_false_iff.mpr hgoes)
  · rename_i due hphase
    obtain rfl := Option.some.inj h
    split
    · rename_i hstopped
      exact .stop hphase hstopped
    · rename_i hgoes
      exact .poll hphase (Bool.eq_false_iff.mpr hgoes)
  · rename_i ends due answer hphase
    obtain rfl := Option.some.inj h
    exact .serve hphase
  · exact absurd h (by simp)
  · exact absurd h (by simp)

theorem now_le_wake (schedule : Schedule) (plan : Plan) (time : Nat) :
    schedule.now ≤ schedule.wake plan time := by
  unfold wake
  dsimp only
  split
  · omega
  · omega

theorem nextTime_of_step (h : before.step plan = some after) :
    before.nextTime plan = some after.now := by
  cases happens_of_step h with
  | attempt hphase | interrupt hphase => simp [nextTime, hphase, begin, fail]
  | succeed hphase => simp [nextTime, hphase, waitFor]
  | giveUp hphase => simp [nextTime, hphase, fail]
  | delay hphase => simp [nextTime, hphase]
  | retry hphase => simp [nextTime, hphase]
  | cutShort hphase => simp [nextTime, hphase, fail]
  | poll hphase => simp [nextTime, hphase, begin]
  | stop hphase => simp [nextTime, hphase, stop]
  | serve hphase => simp [nextTime, hphase, waitFor]

theorem isSome_step : (schedule.step plan).isSome = (schedule.nextTime plan).isSome := by
  unfold step nextTime
  cases schedule.phase with
  | initialPoll ends answer => cases answer <;> rfl
  | _ => rfl

/-- A poll begins when it is its time, unless the shutdown has been signalled. -/
theorem polls_of_step (h : before.step plan = some after) :
    after.polls = before.polls ∨
      (plan.stopped after.now = false ∧
        after.polls = (after.now, before.poller.request) :: before.polls) := by
  cases happens_of_step h with
  | attempt hphase hgoes | poll hphase hgoes => exact .inr ⟨hgoes, rfl⟩
  | succeed hphase | serve hphase => exact .inl (finish_polls _ _ _)
  | giveUp hphase hstopped => exact .inl (finish_polls _ _ _)
  | delay hphase hgoes => exact .inl (finish_polls _ _ _)
  | _ => exact .inl rfl

theorem Keeps.step (h : before.Keeps script poller entries)
    (hstep : before.step plan = some after) : after.Keeps script poller entries := by
  cases happens_of_step hstep with
  | attempt hphase hgoes =>
    exact h.begin (by rw [hphase]; rfl) le_rfl fun _ _ => rfl
  | interrupt hphase hstopped =>
    exact h.idle (by rw [hphase]; rfl) le_rfl rfl before.record.nextDue
  | succeed hphase => exact h.finish (by rw [hphase]; rfl) rfl _
  | giveUp hphase hstopped =>
    exact h.finish (by rw [hphase]; rfl) (show (Phase.failed .interrupted).flight? = none from rfl)
      before.record.nextDue
  | delay hphase hgoes time =>
    exact h.finish (by rw [hphase]; rfl) (show (Phase.retrying time).flight? = none from rfl)
      before.record.nextDue
  | retry hphase hgoes =>
    exact h.idle (by rw [hphase]; rfl) (now_le_wake _ _ _) rfl before.record.nextDue
  | cutShort hphase hstopped =>
    exact h.idle (by rw [hphase]; rfl) (now_le_wake _ _ _) rfl before.record.nextDue
  | poll hphase hgoes =>
    exact h.begin (by rw [hphase]; rfl) (now_le_wake _ _ _) fun _ _ => rfl
  | stop hphase hstopped =>
    exact h.idle (by rw [hphase]; rfl) (now_le_wake _ _ _) rfl none
  | serve hphase => exact h.finish (by rw [hphase]; rfl) rfl _

end Schedule

end Overlay.Poll

import Mathlib
import Overlay.Proofs.Poll.Shutdown

/-!
# Ticks

Once it waits for its first tick, a schedule serves one tick after another. When they are due,
and when their polls begin and end, depends on nothing but the period, the first tick and how
long the polls take (`tick`). A run follows this sequence until the shutdown
(`Schedule.Follows`). The polls do not overlap, two of them never begin closer together than the
period, but for the tolerance, and they keep to their times as long as none takes longer than
the period (`Schedule.ticks_runUntil`).
-/

namespace Overlay.Poll

-- ---------------------------------------------------------------------------
-- The sequence of ticks
-- ---------------------------------------------------------------------------

/-- When a poll is due, and when it begins and ends. -/
structure Tick where
  due : Nat
  began : Nat
  ends : Nat

/-- The first poll begins when it is due, and each later one when it is due and the one
before has ended. -/
def tick (period first : Nat) (duration : Nat → Nat) : Nat → Tick
  | 0 => ⟨first, first, first + duration 0⟩
  | index + 1 =>
    let last := tick period first duration index
    let due := Schedule.nextDue period last.due last.began
    let began := max last.ends due
    ⟨due, began, began + duration (index + 1)⟩

section
variable {period first : Nat} {duration : Nat → Nat}

theorem tick_ends (index : Nat) : (tick period first duration index).ends =
    (tick period first duration index).began + duration index := by
  cases index <;> rfl

theorem due_le_began (index : Nat) :
    (tick period first duration index).due ≤ (tick period first duration index).began := by
  cases index with
  | zero => exact le_rfl
  | succ index => exact le_max_right _ _

theorem ends_le_began (index : Nat) :
    (tick period first duration index).ends ≤ (tick period first duration (index + 1)).began :=
  le_max_left _ _

theorem began_mono {index later : Nat} (hle : index ≤ later) :
    (tick period first duration index).began ≤ (tick period first duration later).began := by
  refine monotone_nat_of_le_succ (f := fun index => (tick period first duration index).began)
    (fun index => ?_) hle
  calc (tick period first duration index).began
      ≤ (tick period first duration index).ends := by rw [tick_ends]; exact Nat.le_add_right _ _
    _ ≤ (tick period first duration (index + 1)).began := ends_le_began index

/-- A poll that was in time gives way by no more than the tolerance, and one that was late
puts the next off. -/
theorem began_add_period_le (index : Nat) :
    (tick period first duration index).began + period ≤
      (tick period first duration (index + 1)).began + Schedule.tolerance := by
  have hdue : Schedule.nextDue period (tick period first duration index).due
      (tick period first duration index).began ≤ (tick period first duration (index + 1)).began :=
    le_max_right _ _
  unfold Schedule.nextDue at hdue
  split at hdue <;> omega

/-- A poll whose forerunners took no longer than the period each begins when it should. -/
theorem tick_of_prompt {index : Nat} (hprompt : ∀ earlier < index, duration earlier ≤ period) :
    (tick period first duration index).due = first + index * period ∧
      (tick period first duration index).began = first + index * period := by
  induction index with
  | zero => simp [tick]
  | succ index ih =>
    obtain ⟨hdue, hbegan⟩ := ih fun earlier hlt => hprompt earlier (by omega)
    have hnext : (tick period first duration (index + 1)).due = first + (index + 1) * period := by
      show Schedule.nextDue period (tick period first duration index).due
        (tick period first duration index).began = _
      rw [hdue, hbegan, Schedule.nextDue, if_neg (by omega), Nat.succ_mul, Nat.add_assoc]
    have hends : (tick period first duration index).ends ≤ first + (index + 1) * period := by
      rw [tick_ends, hbegan, Nat.succ_mul, ← Nat.add_assoc]
      exact Nat.add_le_add_left (hprompt index (Nat.lt_succ_self index)) _
    exact ⟨hnext, (max_eq_right (hends.trans hnext.ge)).trans hnext⟩

end

namespace Schedule

variable {plan : Plan} {schedule before after : Schedule} {script : List Reply} {poller : Poller}
  {entries : Entries} {first time count : Nat}

-- ---------------------------------------------------------------------------
-- Waking up
-- ---------------------------------------------------------------------------

theorem stopped_mono {later : Nat} (hle : time ≤ later) (hstopped : plan.stopped time = true) :
    plan.stopped later = true := by
  unfold Plan.stopped at hstopped ⊢
  cases hstop : plan.stopAt with
  | none => simp [hstop] at hstopped
  | some stop =>
    simp only [hstop, decide_eq_true_eq] at hstopped ⊢
    exact hstopped.trans hle

theorem wake_le_max (schedule : Schedule) (plan : Plan) (time : Nat) :
    schedule.wake plan time ≤ max schedule.now time := by
  unfold wake
  dsimp only
  split <;> omega

/-- A wait that is not cut short ends at its time, or at once if that has passed. -/
theorem wake_eq_max (hgoes : plan.stopped (schedule.wake plan time) = false) :
    schedule.wake plan time = max schedule.now time :=
  le_antisymm (wake_le_max schedule plan time)
    (max_le (now_le_wake schedule plan time) (le_wake hgoes))

-- ---------------------------------------------------------------------------
-- Runs
-- ---------------------------------------------------------------------------

/-- The ticks of a schedule that waits for the first of them. -/
def ticks (schedule : Schedule) (plan : Plan) (first : Nat) : Nat → Tick :=
  tick plan.settings.periodMs first fun index => (replyAt schedule.replies index).duration

/-- Where a schedule stands in a sequence of ticks, of which it has begun this many. -/
def Stands (schedule : Schedule) (plan : Plan) (ticks : Nat → Tick) (count : Nat) : Prop :=
  match schedule.phase with
  | .waiting due => due = (ticks count).due ∧ max schedule.now due = (ticks count).began
  | .polling ends due _ => due = (ticks count).due ∧ max ends due = (ticks count).began ∧
      ∃ last, count = last + 1 ∧ ends = (ticks last).ends
  | .stopped => plan.stopped (ticks count).began = true
  | _ => False

/-- What a schedule that waited for its first tick has done by a time. -/
structure Follows (plan : Plan) (waiting : Schedule) (first time count : Nat)
    (schedule : Schedule) : Prop where
  polls : schedule.polls.reverse.map Prod.fst = waiting.polls.reverse.map Prod.fst ++
    (List.range count).map fun index => (waiting.ticks plan first index).began
  replies : schedule.replies = waiting.replies.drop count
  stands : schedule.Stands plan (waiting.ticks plan first) count
  served : ∀ index < count, (waiting.ticks plan first index).began ≤ time ∧
    plan.stopped (waiting.ticks plan first index).began = false

theorem follows_refl (hphase : schedule.phase = .waiting first) (hnow : schedule.now ≤ first) :
    Follows plan schedule first time 0 schedule where
  polls := by simp
  replies := rfl
  stands := by
    rw [Stands, hphase]
    exact ⟨rfl, max_eq_right hnow⟩
  served _ hlt := absurd hlt (Nat.not_lt_zero _)

theorem Follows.step (h : Follows plan schedule first time count before)
    (hstep : before.step plan = some after) (htime : after.now ≤ time) :
    ∃ count, Follows plan schedule first time count after := by
  have hstands := h.stands
  unfold Stands at hstands
  cases happens_of_step hstep with
  | attempt hphase | interrupt hphase | succeed hphase | giveUp hphase | delay hphase
  | retry hphase | cutShort hphase =>
    rw [hphase] at hstands
    exact hstands.elim
  | @poll due hphase hgoes =>
    rw [hphase] at hstands
    obtain ⟨hdue, hbegan⟩ := hstands
    have hwake : before.wake plan due = (schedule.ticks plan first count).began :=
      (wake_eq_max hgoes).trans hbegan
    have hreply : before.reply = replyAt schedule.replies count := by
      rw [reply, h.replies, List.head?_drop]
      rfl
    rw [hwake] at hgoes htime ⊢
    refine ⟨count + 1, ?_, ?_, ?_, fun index hlt => ?_⟩
    · show ((_, _) :: before.polls).reverse.map Prod.fst = _
      rw [List.reverse_cons, List.map_append, h.polls, List.range_succ, List.map_append,
        ← List.append_assoc]
      rfl
    · show before.replies.tail = _
      rw [h.replies, List.tail_drop]
    · have hends : (schedule.ticks plan first count).began + before.reply.duration =
          (schedule.ticks plan first count).ends := by
        rw [hreply]
        exact (tick_ends count).symm
      show _ = _ ∧ _ = _ ∧ ∃ last, _
      rw [hends, hdue]
      exact ⟨rfl, rfl, count, rfl, rfl⟩
    · rcases Nat.lt_succ_iff_lt_or_eq.mp hlt with hlt | rfl
      · exact h.served index hlt
      · exact ⟨htime, hgoes⟩
  | @stop due hphase hstopped =>
    rw [hphase] at hstands
    refine ⟨count, h.polls, h.replies, ?_, h.served⟩
    show plan.stopped _ = true
    rw [← hstands.2]
    exact stopped_mono (wake_le_max _ _ _) hstopped
  | serve hphase =>
    rw [hphase] at hstands
    refine ⟨count, ?_, ?_, ?_, h.served⟩
    · show (before.finish _ _).polls.reverse.map Prod.fst = _
      rw [finish_polls, h.polls]
    · show (before.finish _ _).replies = _
      rw [finish_replies, h.replies]
    · show _ = _ ∧ max (before.finish _ _).now _ = _
      rw [finish_now]
      exact ⟨hstands.1, hstands.2.1⟩

theorem Follows.path (h : Follows plan schedule first time count before)
    (hpath : Path plan (isDue plan time) before after) :
    ∃ count, Follows plan schedule first time count after := by
  induction hpath with
  | refl => exact ⟨count, h⟩
  | tail _ hstep ih =>
    obtain ⟨count, hfollows⟩ := ih
    obtain ⟨next, hnext, hnow⟩ := isDue_iff.mp hstep.1
    obtain rfl := Option.some.inj (hnext.symm.trans hstep.2)
    exact hfollows.step hstep.2 hnow

/-- When nothing more happens by a time, the next poll is not to begin by then. -/
theorem Follows.over (h : Follows plan schedule first time count after)
    (hover : after.isDue plan time = false)
    (hgoes : plan.stopped (schedule.ticks plan first count).began = false) :
    time < (schedule.ticks plan first count).began := by
  have hstands := h.stands
  unfold Stands at hstands
  cases hphase : after.phase with
  | waiting due =>
    rw [hphase] at hstands
    have hwake : after.wake plan due = (schedule.ticks plan first count).began := by
      refine (wake_eq_max (Bool.eq_false_iff.mpr fun hstopped => ?_)).trans hstands.2
      rw [← hstands.2, stopped_mono (wake_le_max after plan due) hstopped] at hgoes
      exact absurd hgoes (by simp)
    exact hwake ▸ lt_of_isDue_eq_false hover (by simp [nextTime, hphase])
  | polling ends due answer =>
    rw [hphase] at hstands
    have hlate : time < ends := lt_of_isDue_eq_false hover (by simp [nextTime, hphase])
    exact hstands.2.1 ▸ hlate.trans_le (le_max_left _ _)
  | stopped =>
    rw [hphase] at hstands
    exact absurd (hstands.symm.trans hgoes) (by simp)
  | attempting | initialPoll | retrying | failed =>
    rw [hphase] at hstands
    exact hstands.elim

/-- The initial phase goes on, fails, or ends with a success, a period before the first tick. -/
theorem phase_of_starting (hstarting : before.starting = true)
    (hstep : before.step plan = some after) :
    after.starting = true ∨ after.failure.isSome ∨
      after.phase = .waiting (after.now + plan.settings.periodMs) := by
  cases happens_of_step hstep with
  | attempt | delay | retry => exact .inl rfl
  | interrupt | giveUp | cutShort => exact .inr (.inl rfl)
  | succeed =>
    refine .inr (.inr ?_)
    simp [waitFor]
  | poll hphase | stop hphase | serve hphase => simp [starting, hphase] at hstarting

/-- A schedule that gets past its initial phase waits for its first tick. That comes a period
after the first success, or at once where there is no initial phase. -/
theorem waiting_execute (hperiod : plan.settings.periodMs ≠ 0)
    (hexecute : (launch plan script poller entries).execute plan = schedule)
    (hstarted : schedule.failure = none) :
    ∃ first, schedule.phase = .waiting first ∧ schedule.now ≤ first ∧
      (plan.settings.initial = .sync → first = schedule.now + plan.settings.periodMs) ∧
      (plan.settings.initial = .async → first = 0) := by
  have hpath : Path plan starting (launch plan script poller entries) schedule :=
    hexecute ▸ path_runWhile plan starting _ (launch plan script poller entries)
  have hover : schedule.starting = false := hexecute ▸ starting_execute hperiod _
  cases hinitial : plan.settings.initial with
  | async =>
    have hphase : (launch plan script poller entries).phase = .waiting 0 := by
      simp [launch, start, hperiod, hinitial]
    rcases hpath.cases_head with rfl | ⟨_, ⟨hstarting, -⟩, -⟩
    · exact ⟨0, hphase, now_launch.le, by simp, by simp⟩
    · simp [starting, hphase] at hstarting
  | sync =>
    rcases hpath.cases_tail with rfl | ⟨before, -, hstarting, hstep⟩
    · simp [launch, start, hperiod, hinitial, starting] at hover
    · rcases phase_of_starting hstarting hstep with hstarting | hfailure | hphase
      · exact absurd (hover.symm.trans hstarting) (by simp)
      · exact absurd hfailure (by simp [hstarted])
      · exact ⟨_, hphase, Nat.le_add_right _ _, fun _ => rfl, by simp⟩

/-- A schedule that waits for its first tick, whenever that comes, begins its polls at its
ticks: all of those that come by a time and before the shutdown. No poll begins before it is
due or before the one before it has ended. From one beginning to the next is a period at least,
but for the tolerance, and as long as no poll has taken longer than that, the beginnings
are a whole number of periods after the first tick. -/
theorem ticks_runUntil (hperiod : plan.settings.periodMs ≠ 0)
    (hphase : schedule.phase = .waiting first) (hnow : schedule.now ≤ first) (time : Nat) :
    ∃ count, Follows plan schedule first time count (schedule.runUntil plan time) ∧
      ∀ index,
        let tick := schedule.ticks plan first index
        let next := schedule.ticks plan first (index + 1)
        (index < count ↔ tick.began ≤ time ∧ plan.stopped tick.began = false) ∧
          tick.ends = tick.began + (replyAt schedule.replies index).duration ∧
          tick.due ≤ tick.began ∧ tick.ends ≤ next.began ∧
          tick.began + plan.settings.periodMs ≤ next.began + tolerance ∧
          ((∀ earlier < index,
              (replyAt schedule.replies earlier).duration ≤ plan.settings.periodMs) →
            tick.began = first + index * plan.settings.periodMs) := by
  have hstart : Follows plan schedule first time 0 schedule := follows_refl hphase hnow
  obtain ⟨count, hfollows⟩ := hstart.path (path_runUntil plan time schedule)
  refine ⟨count, hfollows, fun index => ⟨⟨hfollows.served index, ?_⟩, tick_ends index,
    due_le_began index, ends_le_began index, began_add_period_le index,
    fun hprompt => (tick_of_prompt hprompt).2⟩⟩
  rintro ⟨hbegan, hgoes⟩
  by_contra hlate
  have hmono : (schedule.ticks plan first count).began ≤ (schedule.ticks plan first index).began :=
    began_mono (Nat.le_of_not_lt hlate)
  have hnext : plan.stopped (schedule.ticks plan first count).began = false :=
    Bool.eq_false_iff.mpr fun hstopped =>
      absurd (hgoes.symm.trans (stopped_mono hmono hstopped)) (by simp)
  have hlt := hfollows.over (isDue_runUntil hperiod schedule time) hnext
  omega

/-- After the first success a poll takes just the period, the next ends as late as a poll may
begin that is in time, the one behind it is short, and the last is too long. -/
def unevenScript : List Reply :=
  [⟨.ok ⟨.unchanged, none⟩, 10⟩, ⟨.ok ⟨.unchanged, none⟩, 100⟩, ⟨.ok ⟨.unchanged, none⟩, 105⟩,
    ⟨.error (.source "unavailable"), 20⟩, ⟨.ok ⟨.unchanged, none⟩, 250⟩]

def everyHundred : Plan := { settings := { periodMs := 100 }, stopAt := some 700 }

theorem ticks_runUntil_uneven : ∃ schedule,
    schedule = (launch everyHundred unevenScript ⟨"source", 0, none, false⟩ .empty).execute
        everyHundred ∧
      schedule.phase = .waiting 110 ∧
      (schedule.runUntil everyHundred 800).polls.reverse.map Prod.fst =
        [0, 110, 210, 315, 410, 660] ∧
      (∀ index, index < 5 ↔ (schedule.ticks everyHundred 110 index).began ≤ 800 ∧
        everyHundred.stopped (schedule.ticks everyHundred 110 index).began = false) ∧
      (schedule.ticks everyHundred 110 2).began + 100 =
        (schedule.ticks everyHundred 110 3).began + tolerance ∧
      ∀ index, (schedule.ticks everyHundred 110 index).began + 100 ≤
        (schedule.ticks everyHundred 110 (index + 1)).began + tolerance := by
  obtain ⟨schedule, hschedule⟩ : ∃ schedule, schedule =
      (launch everyHundred unevenScript ⟨"source", 0, none, false⟩ .empty).execute everyHundred :=
    ⟨_, rfl⟩
  have hperiod : everyHundred.settings.periodMs ≠ 0 := by decide
  have hstarted : schedule.failure = none := by rw [hschedule]; rfl
  have hten : schedule.now = 10 := by rw [hschedule]; rfl
  obtain ⟨first, hphase, hnow, hsync, -⟩ := waiting_execute hperiod hschedule.symm hstarted
  -- the first tick comes a period after the first success
  obtain rfl : first = 110 := (hsync rfl).trans (hten ▸ rfl)
  have hpolls : (schedule.runUntil everyHundred 800).polls.reverse.map Prod.fst =
      [0, 110, 210, 315, 410, 660] := by rw [hschedule]; rfl
  have hbefore : schedule.polls.reverse.map Prod.fst = [0] := by rw [hschedule]; rfl
  obtain ⟨count, hfollows, hticks⟩ := ticks_runUntil hperiod hphase hnow 800
  obtain rfl : count = 5 := by
    have hlength := congrArg List.length (hfollows.polls.symm.trans hpolls)
    simp [hbefore] at hlength
    omega
  exact ⟨schedule, hschedule, hphase, hpolls, fun index => (hticks index).1, by rw [hschedule]; rfl,
    fun index => (hticks index).2.2.2.2.1⟩

end Schedule

end Overlay.Poll

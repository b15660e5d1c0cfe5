import Mathlib
import Overlay.Proofs.Poll.Demands

/-!
# Refusing demands

Once a strategy has been shut down it refuses every new demand. A runner that has been
started by then ends as soon as it is not serving, and refuses whoever waits
(`OnDemand.refuses_after_stop`). A runner that is started later never learns of the shutdown:
it serves a demand that waits from before (`OnDemand.serves_after_stop`).
-/

namespace Overlay.Poll.OnDemand

variable {before strategy after finish : OnDemand} {runner : Runner} {move : Move}
  {moves earlier later : List Move} {id base : DemandId}

-- ---------------------------------------------------------------------------
-- New demands
-- ---------------------------------------------------------------------------

/-- The strategy has been shut down, and has refused the demands from a number on. -/
structure RefusesFrom (base : DemandId) (strategy : OnDemand) : Prop where
  stopped : strategy.stopped = true
  numbered : strategy.Numbered
  refused : ∀ id, base ≤ id → id < strategy.next → strategy.answer? id = some (.error .notRunning)

theorem answer?_append {more : List (DemandId × Except PollError Unit)}
    (h : after.answers = strategy.answers ++ more) {answer : Except PollError Unit}
    (hanswer : strategy.answer? id = some answer) : after.answer? id = some answer := by
  rw [answer?, h, List.lookup_append]
  rw [answer?] at hanswer
  rw [hanswer]
  rfl

/-- A demand is not answered before it has its number. -/
theorem Numbered.answer?_eq_none (h : strategy.Numbered) (hid : strategy.next ≤ id) :
    strategy.answer? id = none := by
  rw [answer?, List.lookup_eq_none_iff]
  intro answer hmem
  have hne : id ≠ answer.1 := fun heq => Nat.not_lt_of_le hid (heq ▸ h.answers answer hmem)
  simpa using hne

theorem RefusesFrom.step (h : RefusesFrom base strategy) (hhappens : Happens strategy move after) :
    RefusesFrom base after := by
  have hnumbered := h.numbered.step hhappens
  obtain ⟨more, hanswers⟩ := answers_of_happens hhappens
  have hold (id : DemandId) (hbase : base ≤ id) (hid : id < strategy.next) :
      after.answer? id = some (.error .notRunning) :=
    answer?_append hanswers (h.refused id hbase hid)
  cases hhappens with
  | accepted haccepts => simp [accepts, h.stopped] at haccepts
  | refused hrefuses =>
    refine ⟨h.stopped, hnumbered, fun id hbase hid => ?_⟩
    rcases Nat.lt_succ_iff_lt_or_eq.mp hid with hlt | rfl
    · exact hold id hbase hlt
    · have hnone := h.numbered.answer?_eq_none (le_refl strategy.next)
      rw [answer?] at hnone
      rw [answer?, List.lookup_append, hnone]
      simp
  | stopped hfirst => exact ⟨rfl, hnumbered, hold⟩
  | _ => exact ⟨h.stopped, hnumbered, hold⟩

-- ---------------------------------------------------------------------------
-- Demands that wait
-- ---------------------------------------------------------------------------

/-- The shutdown has reached the runner, if there is one: nothing has been begun since, and
answers have been given to the demand being served only. -/
structure Refuses (before strategy : OnDemand) : Prop where
  stopped : strategy.stopped = true
  signalled : ∀ runner, strategy.runner = some runner → runner.signalled = true
  serving : ∀ id, strategy.serving? = some id → before.serving? = some id
  answers : ∀ answer ∈ strategy.answers, answer ∈ before.answers ∨
    before.serving? = some answer.1 ∨ answer.2 = .error .notRunning

theorem refuses_stop (h : before.stopped = false) : Refuses before before.stop := by
  rw [stop_eq h]
  refine ⟨rfl, fun runner hrunner => ?_, fun id hid => ?_, fun answer hmem => .inl hmem⟩
  · obtain ⟨_, -, rfl⟩ := Option.map_eq_some_iff.mp hrunner
    rfl
  · rw [← hid, serving?, serving?, Option.bind_map]
    rfl

/-- A runner that the shutdown has reached begins nothing. -/
theorem Refuses.begins? (h : Refuses before strategy) (move : Move) :
    strategy.begins? move = none := by
  cases move with
  | advance =>
    cases hadvance : strategy.advance with
    | none => simp [OnDemand.begins?, hadvance]
    | some result =>
      obtain ⟨runner, hrunner, -, -, ⟨hnone, -, -⟩ | ⟨hgoes, -⟩⟩ := advance_eq_some hadvance
      · simp [OnDemand.begins?, hadvance, hnone]
      · simp [h.signalled runner hrunner] at hgoes
  | _ => rfl

theorem Refuses.step (h : Refuses before strategy) (hhappens : Happens strategy move after)
    (hreached : strategy.runner.isSome ∨ ∀ poller, move ≠ .execute poller) :
    Refuses before after ∧ (strategy.runner.isSome → after.runner.isSome) := by
  cases hhappens with
  | executed hrunner =>
    rcases hreached with hsome | hnone
    · simp [hrunner] at hsome
    · exact absurd rfl (hnone _)
  | rejected | again | released => exact ⟨⟨h.stopped, h.signalled, h.serving, h.answers⟩, id⟩
  | accepted haccepts => simp [accepts, h.stopped] at haccepts
  | refused hrefuses =>
    refine ⟨⟨h.stopped, h.signalled, h.serving, fun answer hmem => ?_⟩, id⟩
    rcases List.mem_append.mp hmem with hmem | hmem
    · exact h.answers answer hmem
    · rw [List.mem_singleton.mp hmem]
      exact .inr (.inr rfl)
  | stopped hfirst => simp [h.stopped] at hfirst
  | @ended runner hrunner hrunning hfree hends =>
    refine ⟨⟨h.stopped, fun other hother => ?_, fun id hid => ?_, fun answer hmem => ?_⟩,
      fun _ => rfl⟩
    · exact Option.some.inj hother ▸ h.signalled runner hrunner
    · simp [OnDemand.finish, serving?, hfree] at hid
    · rcases List.mem_append.mp hmem with hmem | hmem
      · exact h.answers answer hmem
      · obtain ⟨id, -, rfl⟩ := List.mem_map.mp hmem
        exact .inr (.inr rfl)
  | @served runner id rest hrunner hrunning hfree hgoes hwaiting =>
    simp [h.signalled runner hrunner] at hgoes
  | @completed runner id now result hrunner hserving =>
    refine ⟨⟨h.stopped, fun other hother => ?_, fun id hid => ?_, fun answer hmem => ?_⟩,
      fun _ => rfl⟩
    · exact Option.some.inj hother ▸ h.signalled runner hrunner
    · simp [serving?] at hid
    · rcases List.mem_append.mp hmem with hmem | hmem
      · exact h.answers answer hmem
      · rw [List.mem_singleton.mp hmem]
        exact .inr (.inl (h.serving id ((serving?_eq hrunner).trans hserving)))

theorem Refuses.play? (h : Refuses before strategy)
    (hreached : strategy.runner.isSome ∨ ∀ poller, .execute poller ∉ moves)
    (hplay : strategy.play? moves = some finish) :
    Refuses before finish ∧ strategy.runs moves = [] ∧
      (strategy.runner.isSome → finish.runner.isSome) := by
  induction moves generalizing strategy with
  | nil =>
    obtain rfl := Option.some.inj hplay
    exact ⟨h, rfl, id⟩
  | cons move rest ih =>
    obtain ⟨next, hnext, hrest⟩ := play?_cons_eq_some.mp hplay
    obtain ⟨hafter, hkept⟩ := h.step (happens_of_move? hnext)
      (hreached.imp_right fun hnone poller heq => hnone poller (by simp [heq]))
    have hlater : next.runner.isSome ∨ ∀ poller, .execute poller ∉ rest :=
      hreached.imp hkept fun hnone poller hmem => hnone poller (List.mem_cons_of_mem _ hmem)
    obtain ⟨hfinish, hruns, hkept'⟩ := ih hafter hlater hrest
    refine ⟨hfinish, ?_, hkept' ∘ hkept⟩
    rw [runs_cons hnext, h.begins? move, hruns]
    rfl

/-- It ends when it does not serve a demand. -/
theorem Refuses.ends (h : Refuses before strategy) (hfree : strategy.serving? = none)
    (hrunning : strategy.execution.running = true) :
    ∃ ended, strategy.advance = some (none, ended) ∧ ended.execution.running = false ∧
      ended.waiting = [] := by
  cases hrunner : strategy.runner with
  | none => simp [execution, hrunner] at hrunning
  | some runner =>
    rw [serving?_eq hrunner] at hfree
    replace hrunning : runner.running = true := by simpa [execution, hrunner] using hrunning
    have hsignalled := h.signalled runner hrunner
    refine ⟨strategy.finish runner, ?_, rfl, rfl⟩
    simp [advance, hrunner, hrunning, hfree, hsignalled]

/-- Who has not been answered and was not being served is not answered but refused. -/
theorem Refuses.answer? (h : Refuses before strategy) (hanswer : before.answer? id = none)
    (hserving : before.serving? ≠ some id) :
    strategy.answer? id = none ∨ strategy.answer? id = some (.error .notRunning) := by
  cases hsome : strategy.answer? id with
  | none => exact .inl rfl
  | some answer =>
    obtain ⟨former, latter, heq, -⟩ := List.lookup_eq_some_iff.mp hsome
    rcases h.answers (id, answer) (by simp [heq]) with hmem | hserved | rfl
    · have hnot := List.lookup_eq_none_iff.mp hanswer (id, answer) hmem
      simp at hnot
    · exact absurd hserved hserving
    · exact .inr rfl

-- ---------------------------------------------------------------------------
-- The shutdown
-- ---------------------------------------------------------------------------

/-- From its shutdown on a strategy refuses new demands. If its runner had been started by
then, or is never started, then no poll is begun any more, the runner ends as soon as it is not
serving, and of the demands that waited none is answered but refused. -/
theorem refuses_after_stop (hearlier : ({} : OnDemand).play? earlier = some before)
    (hfirst : before.stopped = false) (hlater : before.stop.play? later = some finish) :
    (∀ id, before.next ≤ id → id < finish.next →
        finish.answer? id = some (.error .notRunning)) ∧
      (before.runner.isSome ∨ (∀ poller, .execute poller ∉ later) →
        before.stop.runs later = [] ∧
        (before.runner.isSome →
          ∀ poller, finish.execute poller = (.error alreadyExecuting, finish)) ∧
        (∀ id, finish.serving? = some id → before.serving? = some id) ∧
        (finish.serving? = none → finish.execution.running = true →
          ∃ ended, finish.advance = some (none, ended) ∧ ended.execution.running = false ∧
            ended.waiting = []) ∧
        ∀ id, before.answer? id = none → before.serving? ≠ some id →
          finish.answer? id = none ∨ finish.answer? id = some (.error .notRunning)) := by
  have hrefuses := refuses_stop hfirst
  have hstop : RefusesFrom before.next before.stop := by
    refine ⟨hrefuses.stopped, (numbered_of_play? hearlier).step (happens_stop before),
      fun id hbase hid => absurd hbase (Nat.not_le_of_lt ?_)⟩
    rwa [stop_eq hfirst] at hid
  refine ⟨?_, fun hreached => ?_⟩
  · exact (play?_induction hlater hstop
      fun h hmove => h.step (happens_of_move? hmove)).refused
  · have hrunner : before.stop.runner.isSome = before.runner.isSome := by
      rw [stop_eq hfirst, Option.isSome_map]
    obtain ⟨hfinish, hruns, hkept⟩ := hrefuses.play? (hrunner ▸ hreached) hlater
    refine ⟨hruns, fun hsome poller => ?_, hfinish.serving, hfinish.ends,
      fun id => hfinish.answer?⟩
    obtain ⟨runner, hrunner⟩ := Option.isSome_iff_exists.mp (hkept (hrunner ▸ hsome))
    simp only [execute, hrunner]

/-- A demand waits at the shutdown, another one is being served. -/
def waitingDemand : List Move := [.execute 0, .fire, .fire, .advance]

theorem refuses_after_stop_waiting : ∃ before finish : OnDemand,
    ({} : OnDemand).play? waitingDemand = some before ∧
      before.stop.play? [.complete 5 (.ok ()), .advance, .fire] = some finish ∧
      before.stop.runs [.complete 5 (.ok ()), .advance, .fire] = [] ∧
      finish.answer? 0 = some (.ok ()) ∧ finish.answer? 1 = some (.error .notRunning) ∧
      finish.answer? 2 = some (.error .notRunning) ∧ finish.execution.running = false := by
  have hrefuses := refuses_after_stop
    (show ({} : OnDemand).play? waitingDemand = some _ from rfl) rfl
    (show play? _ [.complete 5 (.ok ()), .advance, .fire] = some _ from rfl)
  obtain ⟨hruns, -, -, -, -⟩ := hrefuses.2 (.inl rfl)
  exact ⟨_, _, rfl, rfl, hruns, rfl, rfl, hrefuses.1 2 (by decide) (by decide), rfl⟩

/-- An execution after the shutdown serves a demand from before, and goes on running. -/
theorem serves_after_stop : ∃ before finish : OnDemand,
    ({} : OnDemand).play? [.fire] = some before ∧ before.stopped = false ∧
      before.stop.play? [.execute 0, .advance, .complete 5 (.ok ())] = some finish ∧
      before.stop.runs [.execute 0, .advance, .complete 5 (.ok ())] = [0] ∧
      finish.answer? 0 = some (.ok ()) ∧ finish.execution.running = true ∧
      finish.serving? = none ∧ finish.advance.isNone :=
  ⟨_, _, rfl, rfl, rfl, rfl, rfl, rfl, rfl, rfl⟩

end Overlay.Poll.OnDemand

import Mathlib
import Overlay.Poll.OnDemand

/-!
# Demands

A run of polling on demand, move by move: what the owner of the strategy calls, and what
the runner does. Demands are numbered, and the numbers of those that wait, are being
served or have been answered have been given out (`OnDemand.Numbered`).
-/

namespace Overlay.Poll.OnDemand

inductive Move
  | execute (poller : Nat)
  | fire
  | stop
  | release
  /-- The runner ends, or begins to serve a demand. -/
  | advance
  /-- The poll for the demand being served ends. -/
  | complete (now : Nat) (result : Except PollError Unit)

/-- The demand being served. -/
def serving? (strategy : OnDemand) : Option DemandId := strategy.runner.bind (·.serving)

/-- Nobody calls a strategy that its owner has let go of. -/
def move? (strategy : OnDemand) : Move → Option OnDemand
  | .execute poller => if strategy.released then none else some (strategy.execute poller).2
  | .fire => if strategy.released then none else some strategy.fire.2
  | .stop => if strategy.released then none else some strategy.stop
  | .release => some strategy.release
  | .advance => strategy.advance.map (·.2)
  | .complete now result =>
    if strategy.serving?.isSome then some (strategy.complete now result) else none

/-- The strategy after these moves, when all of them are possible. -/
def play? (strategy : OnDemand) : List Move → Option OnDemand
  | [] => some strategy
  | move :: rest => (strategy.move? move).bind (·.play? rest)

/-- The poll that a move begins to run. -/
def begins? (strategy : OnDemand) : Move → Option Nat
  | .advance => strategy.advance.bind (·.1)
  | _ => none

/-- The polls that are begun in a run. -/
def runs (strategy : OnDemand) : List Move → List Nat
  | [] => []
  | move :: rest =>
    (strategy.begins? move).toList ++
      match strategy.move? move with
      | some next => next.runs rest
      | none => []

/-- All numbers have been given out. -/
structure Numbered (strategy : OnDemand) : Prop where
  waiting : ∀ id ∈ strategy.waiting, id < strategy.next
  serving : ∀ id, strategy.serving? = some id → id < strategy.next
  answers : ∀ answer ∈ strategy.answers, answer.1 < strategy.next

variable {strategy before after finish : OnDemand} {runner : Runner} {move : Move}
  {moves : List Move} {id : DemandId}

theorem play?_cons_eq_some {rest : List Move} : strategy.play? (move :: rest) = some finish ↔
    ∃ next, strategy.move? move = some next ∧ next.play? rest = some finish :=
  Option.bind_eq_some_iff

theorem runs_cons {rest : List Move} (h : before.move? move = some after) :
    before.runs (move :: rest) = (before.begins? move).toList ++ after.runs rest := by
  rw [runs, h]

/-- What every move keeps holds after every run. -/
theorem play?_induction {motive : OnDemand → Prop} (hplay : strategy.play? moves = some finish)
    (hstart : motive strategy)
    (hmove : ∀ {before move after}, motive before → before.move? move = some after → motive after) :
    motive finish := by
  induction moves generalizing strategy with
  | nil => exact Option.some.inj hplay ▸ hstart
  | cons move rest ih =>
    obtain ⟨next, hnext, hrest⟩ := play?_cons_eq_some.mp hplay
    exact ih hrest (hmove hstart hnext)

-- ---------------------------------------------------------------------------
-- What the runner does
-- ---------------------------------------------------------------------------

theorem serving?_eq (hrunner : strategy.runner = some runner) :
    strategy.serving? = runner.serving := by
  rw [serving?, hrunner, Option.bind_some]

/-- A runner that is not serving ends, or begins to serve whoever has waited longest. -/
theorem advance_eq_some {begun : Option Nat} (h : strategy.advance = some (begun, after)) :
    ∃ runner, strategy.runner = some runner ∧ runner.running = true ∧ runner.serving = none ∧
      ((begun = none ∧ (runner.signalled || strategy.released) = true ∧
          after = strategy.finish runner) ∨
        ((runner.signalled || strategy.released) = false ∧ begun = some runner.poller ∧
          ∃ id rest, strategy.waiting = id :: rest ∧ after = { strategy with
            runner := some { runner with serving := some id }, waiting := rest })) := by
  unfold advance at h
  split at h
  · exact absurd h (by simp)
  · rename_i runner hrunner
    split at h
    · exact absurd h (by simp)
    · rename_i hfree
      simp only [Bool.or_eq_true, Bool.not_eq_true', not_or, Bool.not_eq_false,
        Option.not_isSome_iff_eq_none] at hfree
      refine ⟨runner, hrunner, hfree.1, hfree.2, ?_⟩
      split at h
      · rename_i hends
        obtain ⟨rfl, rfl⟩ := Prod.mk.inj (Option.some.inj h)
        exact .inl ⟨rfl, hends, rfl⟩
      · rename_i hgoes
        split at h
        · exact absurd h (by simp)
        · rename_i id rest hwaiting
          obtain ⟨rfl, rfl⟩ := Prod.mk.inj (Option.some.inj h)
          exact .inr ⟨Bool.eq_false_iff.mpr hgoes, rfl, id, rest, hwaiting, rfl⟩

theorem complete_eq (hrunner : strategy.runner = some runner) (hserving : runner.serving = some id)
    (now : Nat) (result : Except PollError Unit) : strategy.complete now result = { strategy with
      runner := some { runner with serving := none, record := runner.record.add now result }
      answers := strategy.answers ++ [(id, result)] } := by
  simp only [complete, hrunner, hserving]

theorem runner_of_serving? (h : strategy.serving? = some id) :
    ∃ runner, strategy.runner = some runner ∧ runner.serving = some id :=
  Option.bind_eq_some_iff.mp h

-- ---------------------------------------------------------------------------
-- All that can happen
-- ---------------------------------------------------------------------------

/-- All that can happen to a strategy. -/
inductive Happens (before : OnDemand) : Move → OnDemand → Prop
  | executed {poller : Nat} (hrunner : before.runner = none) :
    Happens before (.execute poller) { before with runner := some { poller } }
  /-- Only one execution runs. -/
  | rejected {poller : Nat} (hrunner : before.runner.isSome) :
    Happens before (.execute poller) before
  | accepted (haccepts : before.accepts = true) : Happens before .fire
      { before with next := before.next + 1, waiting := before.waiting ++ [before.next] }
  | refused (hrefuses : before.accepts = false) : Happens before .fire { before with
      next := before.next + 1
      answers := before.answers ++ [(before.next, .error .notRunning)] }
  | stopped (hfirst : before.stopped = false) : Happens before .stop { before with
      stopped := true
      runner := before.runner.map fun runner => { runner with signalled := true } }
  | again (hagain : before.stopped = true) : Happens before .stop before
  | released : Happens before .release before.release
  | ended {runner : Runner} (hrunner : before.runner = some runner)
      (hrunning : runner.running = true) (hfree : runner.serving = none)
      (hends : (runner.signalled || before.released) = true) :
    Happens before .advance (before.finish runner)
  | served {runner : Runner} {id : DemandId} {rest : List DemandId}
      (hrunner : before.runner = some runner) (hrunning : runner.running = true)
      (hfree : runner.serving = none) (hgoes : (runner.signalled || before.released) = false)
      (hwaiting : before.waiting = id :: rest) :
    Happens before .advance
      { before with runner := some { runner with serving := some id }, waiting := rest }
  | completed {runner : Runner} {id : DemandId} {now : Nat} {result : Except PollError Unit}
      (hrunner : before.runner = some runner) (hserving : runner.serving = some id) :
    Happens before (.complete now result) { before with
      runner := some { runner with serving := none, record := runner.record.add now result }
      answers := before.answers ++ [(id, result)] }

theorem stop_eq (hfirst : strategy.stopped = false) : strategy.stop = { strategy with
    stopped := true
    runner := strategy.runner.map fun runner => { runner with signalled := true } } := by
  unfold stop
  exact if_neg (Bool.eq_false_iff.mp hfirst)

theorem happens_stop (strategy : OnDemand) : Happens strategy .stop strategy.stop := by
  cases hstopped : strategy.stopped with
  | true =>
    have hstop : strategy.stop = strategy := if_pos hstopped
    rw [hstop]
    exact .again hstopped
  | false =>
    rw [stop_eq hstopped]
    exact .stopped hstopped

theorem happens_of_move? (h : before.move? move = some after) : Happens before move after := by
  cases move with
  | execute poller =>
    obtain ⟨-, hexecute⟩ := Option.ite_none_left_eq_some.mp h
    obtain rfl := Option.some.inj hexecute
    unfold execute
    split
    · rename_i runner hrunner
      exact .rejected (by rw [hrunner]; rfl)
    · rename_i hrunner
      exact .executed hrunner
  | fire =>
    obtain ⟨-, hfire⟩ := Option.ite_none_left_eq_some.mp h
    obtain rfl := Option.some.inj hfire
    cases haccepts : before.accepts with
    | true =>
      have hfire : before.fire.2 = { before with
          next := before.next + 1, waiting := before.waiting ++ [before.next] } := by
        unfold fire
        exact if_pos haccepts
      exact hfire ▸ .accepted haccepts
    | false =>
      have hfire : before.fire.2 = { before with
          next := before.next + 1
          answers := before.answers ++ [(before.next, .error .notRunning)] } := by
        unfold fire
        exact if_neg (Bool.eq_false_iff.mp haccepts)
      exact hfire ▸ .refused haccepts
  | stop =>
    obtain ⟨-, hstop⟩ := Option.ite_none_left_eq_some.mp h
    exact Option.some.inj hstop ▸ happens_stop before
  | release => exact Option.some.inj h ▸ .released
  | advance =>
    obtain ⟨⟨begun, next⟩, hadvance, rfl⟩ := Option.map_eq_some_iff.mp h
    obtain ⟨runner, hrunner, hrunning, hfree,
      ⟨-, hends, rfl⟩ | ⟨hgoes, -, id, rest, hwaiting, rfl⟩⟩ := advance_eq_some hadvance
    · exact .ended hrunner hrunning hfree hends
    · exact .served hrunner hrunning hfree hgoes hwaiting
  | complete now result =>
    obtain ⟨hserving, hcomplete⟩ := Option.ite_none_right_eq_some.mp h
    obtain ⟨id, hid⟩ := Option.isSome_iff_exists.mp hserving
    obtain ⟨runner, hrunner, hid⟩ := runner_of_serving? hid
    rw [complete_eq hrunner hid] at hcomplete
    exact Option.some.inj hcomplete ▸ .completed hrunner hid

theorem Numbered.step (h : before.Numbered) (hhappens : Happens before move after) :
    after.Numbered := by
  have hlater {id : DemandId} (hid : id < before.next) : id < before.next + 1 :=
    Nat.lt_succ_of_lt hid
  cases hhappens with
  | executed hrunner => exact ⟨h.waiting, by simp [serving?], h.answers⟩
  | rejected | again | released => exact ⟨h.waiting, h.serving, h.answers⟩
  | accepted haccepts =>
    refine ⟨fun id hid => ?_, fun id hid => hlater (h.serving id hid),
      fun answer hmem => hlater (h.answers answer hmem)⟩
    rcases List.mem_append.mp hid with hid | hid
    · exact hlater (h.waiting id hid)
    · rw [List.mem_singleton.mp hid]
      exact Nat.lt_succ_self _
  | refused hrefuses =>
    refine ⟨fun id hid => hlater (h.waiting id hid), fun id hid => hlater (h.serving id hid),
      fun answer hmem => ?_⟩
    rcases List.mem_append.mp hmem with hmem | hmem
    · exact hlater (h.answers answer hmem)
    · rw [List.mem_singleton.mp hmem]
      exact Nat.lt_succ_self _
  | stopped hfirst =>
    refine ⟨h.waiting, fun id hid => h.serving id ?_, h.answers⟩
    rw [← hid, serving?, serving?, Option.bind_map]
    rfl
  | @ended runner hrunner hrunning hfree hends =>
    refine ⟨by simp [finish], by simp [finish, serving?, hfree], fun answer hmem => ?_⟩
    rcases List.mem_append.mp hmem with hmem | hmem
    · exact h.answers answer hmem
    · obtain ⟨id, hid, rfl⟩ := List.mem_map.mp hmem
      exact h.waiting id hid
  | @served runner id rest hrunner hrunning hfree hgoes hwaiting =>
    refine ⟨fun other hother => h.waiting other ?_, fun other hother => ?_, h.answers⟩
    · rw [hwaiting]
      exact List.mem_cons_of_mem _ hother
    · obtain rfl : id = other := Option.some.inj hother
      exact h.waiting id (by rw [hwaiting]; exact List.mem_cons_self)
  | @completed runner id now result hrunner hserving =>
    refine ⟨h.waiting, by simp [serving?], fun answer hmem => ?_⟩
    rcases List.mem_append.mp hmem with hmem | hmem
    · exact h.answers answer hmem
    · rw [List.mem_singleton.mp hmem]
      exact h.serving id ((serving?_eq hrunner).trans hserving)

theorem numbered_of_play? (hplay : ({} : OnDemand).play? moves = some finish) : finish.Numbered :=
  play?_induction hplay ⟨by simp, by simp [serving?], by simp⟩
    fun hbefore hmove => hbefore.step (happens_of_move? hmove)

/-- Answers stay. -/
theorem answers_of_happens (h : Happens before move after) :
    ∃ more, after.answers = before.answers ++ more := by
  cases h with
  | refused | ended | completed => exact ⟨_, rfl⟩
  | _ => exact ⟨[], (List.append_nil _).symm⟩

end Overlay.Poll.OnDemand

import Mathlib
import Overlay.Proofs.Poll.Demands
import Overlay.Proofs.Poll.Summary

/-!
# Serving demands

Until a strategy is shut down or let go of, its runner serves the demands in the order in which
they were made, one poll for each (`OnDemand.Serving`). Whatever the polls result in, it can go on
until nobody waits (`OnDemand.play?_service`).
-/

namespace Overlay.Poll.OnDemand

@[simp]
def Move.isFire : Move → Bool
  | .fire => true
  | _ => false

@[simp]
def Move.result? : Move → Option (Nat × Except PollError Unit)
  | .complete now result => some (now, result)
  | _ => none

@[simp]
def Move.poller? : Move → Option Nat
  | .execute poller => some poller
  | _ => none

def fires (moves : List Move) : Nat := moves.countP (·.isFire)

def results (moves : List Move) : Results := moves.filterMap (·.result?)

def firstPoller? (moves : List Move) : Option Nat := moves.findSome? (·.poller?)

/-- The runner serves one demand after the other, and the polls come to `outcomes`. -/
def service (outcomes : Results) : List Move :=
  outcomes.flatMap fun outcome => [.advance, .complete outcome.1 outcome.2]

/-- What is left for the runner to do. The first poll may be under way. -/
def remainder (strategy : OnDemand) (outcomes : Results) : List Move :=
  if strategy.serving?.isSome then (service outcomes).tail else service outcomes

/-- What a strategy that nobody has shut down or let go of is like after `history`, in which the
polls `begun` were begun. -/
structure Serving (strategy : OnDemand) (history : List Move) (begun : List Nat) : Prop where
  stopped : strategy.stopped = false
  released : strategy.released = false
  next : strategy.next = fires history
  answers : strategy.answers = (results history).mapIdx fun id result => (id, result.2)
  order : List.range (results history).length ++ (strategy.serving?.toList ++ strategy.waiting) =
    List.range (fires history)
  first : strategy.runner.map (·.poller) = firstPoller? history
  running : ∀ runner, strategy.runner = some runner →
    runner.running = true ∧ runner.signalled = false
  record : strategy.execution.record.Summarises (results history)
  count : begun.length = (results history).length + strategy.serving?.toList.length
  pollers : ∀ poller ∈ begun, firstPoller? history = some poller

variable {strategy before after : OnDemand} {runner : Runner} {history moves : List Move}
  {move : Move} {begun : List Nat} {outcomes : Results} {poller : Nat} {id : DemandId}
  {rest : List DemandId}

theorem fires_append : fires (history ++ moves) = fires history + fires moves :=
  List.countP_append

theorem results_append : results (history ++ moves) = results history ++ results moves :=
  List.filterMap_append

theorem firstPoller?_append :
    firstPoller? (history ++ moves) = (firstPoller? history).or (firstPoller? moves) :=
  List.findSome?_append

@[simp]
theorem fires_concat : fires (history ++ [move]) = fires history + move.isFire.toNat := by
  rw [fires_append]
  cases move <;> rfl

@[simp]
theorem results_concat : results (history ++ [move]) = results history ++ move.result?.toList := by
  rw [results_append]
  cases move <;> rfl

@[simp]
theorem firstPoller?_concat :
    firstPoller? (history ++ [move]) = (firstPoller? history).or move.poller? := by
  rw [firstPoller?_append]
  cases move <;> rfl

theorem eq_of_mem_service (h : move ∈ service outcomes) :
    move = .advance ∨ ∃ now result, move = .complete now result := by
  obtain ⟨outcome, -, hmem⟩ := List.mem_flatMap.mp h
  rcases List.mem_cons.mp hmem with rfl | hmem
  · exact .inl rfl
  · exact .inr ⟨outcome.1, outcome.2, List.mem_singleton.mp hmem⟩

theorem eq_of_mem_remainder (h : move ∈ strategy.remainder outcomes) :
    move = .advance ∨ ∃ now result, move = .complete now result := by
  unfold remainder at h
  split at h
  · exact eq_of_mem_service (List.mem_of_mem_tail h)
  · exact eq_of_mem_service h

theorem results_service : results (service outcomes) = outcomes := by
  induction outcomes with
  | nil => rfl
  | cons outcome rest ih => exact congrArg (outcome :: ·) ih

theorem results_remainder : results (strategy.remainder outcomes) = outcomes := by
  unfold remainder
  split
  · cases outcomes with
    | nil => rfl
    | cons outcome rest => exact congrArg (outcome :: ·) results_service
  · exact results_service

theorem advance_eq (hrunner : strategy.runner = some runner) (hrunning : runner.running = true)
    (hfree : runner.serving = none) (hgoes : (runner.signalled || strategy.released) = false)
    (hwaiting : strategy.waiting = id :: rest) :
    strategy.advance = some (some runner.poller, { strategy with
      runner := some { runner with serving := some id }, waiting := rest }) := by
  simp [advance, hrunner, hrunning, hfree, hgoes, hwaiting]

namespace Serving

theorem fresh : ({} : OnDemand).Serving [] [] where
  stopped := rfl
  released := rfl
  next := rfl
  answers := rfl
  order := rfl
  first := rfl
  running := nofun
  record := Record.summarises_nil
  count := rfl
  pollers := nofun

theorem accepts (h : strategy.Serving history begun) : strategy.accepts = true := by
  unfold OnDemand.accepts
  cases hrunner : strategy.runner with
  | none => simp [h.stopped]
  | some runner => simp [h.stopped, (h.running runner hrunner).1]

theorem goes (h : strategy.Serving history begun) (hrunner : strategy.runner = some runner) :
    (runner.signalled || strategy.released) = false := by
  rw [(h.running runner hrunner).2, h.released]
  rfl

theorem pollers_concat (h : strategy.Serving history begun) (move : Move) :
    ∀ poller ∈ begun, firstPoller? (history ++ [move]) = some poller := by
  intro poller hmem
  rw [firstPoller?_concat, h.pollers poller hmem, Option.some_or]

theorem first_eq (h : strategy.Serving history begun) (hrunner : strategy.runner = some runner) :
    firstPoller? history = some runner.poller := by
  rw [← h.first, hrunner, Option.map_some]

theorem idle (h : strategy.Serving history begun) (hserving : strategy.serving? = none) :
    List.range (results history).length ++ strategy.waiting = List.range (fires history) ∧
      begun.length = (results history).length := by
  simpa [hserving] using And.intro h.order h.count

theorem busy (h : strategy.Serving history begun) (hserving : strategy.serving? = some id) :
    id = (results history).length ∧
      List.range ((results history).length + 1) ++ strategy.waiting = List.range (fires history) ∧
      begun.length = (results history).length + 1 := by
  have horder := h.order
  have hcount := h.count
  rw [hserving] at horder hcount
  have hlt : (results history).length < fires history := by
    have hlength := congrArg List.length horder
    simp only [List.length_append, List.length_range, Option.toList_some,
      List.length_singleton] at hlength
    omega
  -- the number that stands next in the list of all numbers
  have hid : id = (results history).length := by
    have hnext := congrArg (·[(results history).length]?) horder
    simpa [hlt] using hnext
  refine ⟨hid, ?_, hcount⟩
  rw [← horder, List.range_succ, hid, Option.toList_some, List.append_assoc]

theorem executed (h : strategy.Serving history begun) (hrunner : strategy.runner = none)
    (poller : Nat) : ({ strategy with runner := some { poller } } : OnDemand).Serving
      (history ++ [.execute poller]) begun := by
  obtain ⟨horder, hcount⟩ := h.idle (by rw [serving?, hrunner, Option.bind_none])
  have hfirst : firstPoller? history = none := by rw [← h.first, hrunner, Option.map_none]
  have hrecord := h.record
  simp only [execution, hrunner] at hrecord
  exact
    { stopped := h.stopped
      released := h.released
      next := by simpa using h.next
      answers := by simpa using h.answers
      order := by simpa [serving?] using horder
      first := by simp [hfirst]
      running := by rintro _ ⟨⟩; exact ⟨rfl, rfl⟩
      record := by simpa [execution] using hrecord
      count := by simpa [serving?] using hcount
      pollers := h.pollers_concat _ }

theorem rejected (h : strategy.Serving history begun) (hrunner : strategy.runner = some runner)
    (poller : Nat) : strategy.Serving (history ++ [.execute poller]) begun where
  stopped := h.stopped
  released := h.released
  next := by simpa using h.next
  answers := by simpa using h.answers
  order := by simpa using h.order
  first := by simp [hrunner, h.first_eq hrunner]
  running := h.running
  record := by simpa using h.record
  count := by simpa using h.count
  pollers := h.pollers_concat _

theorem accepted (h : strategy.Serving history begun) : ({ strategy with
      next := strategy.next + 1, waiting := strategy.waiting ++ [strategy.next] } : OnDemand).Serving
      (history ++ [.fire]) begun where
  stopped := h.stopped
  released := h.released
  next := by simp [h.next]
  answers := by simpa using h.answers
  order := by simp [List.range_succ, ← h.order, h.next, serving?]
  first := by simpa using h.first
  running := h.running
  record := by simpa [execution] using h.record
  count := by simpa [serving?] using h.count
  pollers := h.pollers_concat _

theorem served (h : strategy.Serving history begun) (hrunner : strategy.runner = some runner)
    (hfree : runner.serving = none) (hwaiting : strategy.waiting = id :: rest) :
    ({ strategy with runner := some { runner with serving := some id }, waiting := rest } :
      OnDemand).Serving (history ++ [.advance]) (begun ++ [runner.poller]) := by
  obtain ⟨horder, hcount⟩ := h.idle ((serving?_eq hrunner).trans hfree)
  have hfirst := h.first_eq hrunner
  have hpollers := h.pollers_concat .advance
  exact
    { stopped := h.stopped
      released := h.released
      next := by simpa using h.next
      answers := by simpa using h.answers
      order := by simpa [hwaiting, serving?] using horder
      first := by simp [hfirst]
      running := by rintro _ ⟨⟩; exact h.running runner hrunner
      record := by simpa [execution, hrunner] using h.record
      count := by simpa [serving?] using hcount
      pollers := by simpa [or_imp, forall_and, hfirst] using hpollers }

theorem completed (h : strategy.Serving history begun) (hrunner : strategy.runner = some runner)
    (hserving : runner.serving = some id) (now : Nat) (result : Except PollError Unit) :
    ({ strategy with
      runner := some { runner with serving := none, record := runner.record.add now result }
      answers := strategy.answers ++ [(id, result)] } : OnDemand).Serving
      (history ++ [.complete now result]) begun := by
  obtain ⟨hid, horder, hcount⟩ := h.busy ((serving?_eq hrunner).trans hserving)
  exact
    { stopped := h.stopped
      released := h.released
      next := by simpa using h.next
      answers := by simp [h.answers, hid]
      order := by simpa [serving?] using horder
      first := by simpa [hrunner] using h.first
      running := by rintro _ ⟨⟩; exact h.running runner hrunner
      record := by simpa [execution, hrunner] using h.record.add now result
      count := by simpa [serving?] using hcount
      pollers := h.pollers_concat _ }

theorem step (h : before.Serving history begun) (hmove : before.move? move = some after)
    (hstop : move ≠ .stop) (hrelease : move ≠ .release) :
    after.Serving (history ++ [move]) (begun ++ (before.begins? move).toList) := by
  cases happens_of_move? hmove with
  | executed hrunner => simpa [begins?] using h.executed hrunner _
  | rejected hrunner =>
    obtain ⟨runner, hrunner⟩ := Option.isSome_iff_exists.mp hrunner
    simpa [begins?] using h.rejected hrunner _
  | accepted haccepts => simpa [begins?] using h.accepted
  | refused hrefuses => exact absurd h.accepts (Bool.eq_false_iff.mp hrefuses)
  | stopped | again => exact absurd rfl hstop
  | released => exact absurd rfl hrelease
  | ended hrunner hrunning hfree hends => exact absurd hends (Bool.eq_false_iff.mp (h.goes hrunner))
  | @served runner id rest hrunner hrunning hfree hgoes hwaiting =>
    have hbegins : before.begins? .advance = some runner.poller := by
      rw [begins?, advance_eq hrunner hrunning hfree hgoes hwaiting]
      rfl
    rw [hbegins]
    exact h.served hrunner hfree hwaiting
  | completed hrunner hserving => simpa [begins?] using h.completed hrunner hserving _ _

theorem play (h : before.Serving history begun) (hplay : before.play? moves = some after)
    (hopen : ∀ move ∈ moves, move ≠ .stop ∧ move ≠ .release) :
    after.Serving (history ++ moves) (begun ++ before.runs moves) := by
  induction moves generalizing before history begun with
  | nil =>
    obtain rfl := Option.some.inj hplay
    simpa [runs] using h
  | cons move rest ih =>
    obtain ⟨next, hmove, hrest⟩ := play?_cons_eq_some.mp hplay
    obtain ⟨hstop, hrelease⟩ := hopen move List.mem_cons_self
    have hplayed := ih (h.step hmove hstop hrelease) hrest fun other hother =>
      hopen other (List.mem_cons_of_mem _ hother)
    rw [runs_cons hmove, ← List.append_assoc, List.append_cons]
    exact hplayed

theorem begun_eq (h : strategy.Serving history begun) (hfirst : firstPoller? history = some poller) :
    begun = List.replicate ((results history).length + strategy.serving?.toList.length) poller := by
  refine List.eq_replicate_iff.mpr ⟨h.count, ?_⟩
  intro other hother
  exact (Option.some.inj (hfirst.symm.trans (h.pollers other hother))).symm

theorem answer?_eq (h : strategy.Serving history begun) (id : DemandId) :
    strategy.answer? id = (results history)[id]?.map (·.2) := by
  rw [answer?, h.answers]
  induction results history using List.reverseRecOn with
  | nil => rfl
  | append_singleton earlier result ih =>
    rw [List.mapIdx_concat, List.lookup_append, ih]
    rcases Nat.lt_trichotomy id earlier.length with hlt | rfl | hgt
    · simp [hlt, List.getElem?_append_left hlt]
    · simp
    · have hother : (id == earlier.length) = false := beq_false_of_ne (Nat.ne_of_gt hgt)
      simp [List.lookup, hother, hgt.le, List.getElem?_append_right hgt.le,
        Nat.sub_ne_zero_of_lt hgt]

end Serving

theorem move?_complete (hrunner : strategy.runner = some runner)
    (hserving : runner.serving = some id) (now : Nat) (result : Except PollError Unit) :
    strategy.move? (.complete now result) = some { strategy with
      runner := some { runner with serving := none, record := runner.record.add now result }
      answers := strategy.answers ++ [(id, result)] } := by
  have hsome : strategy.serving?.isSome = true := by rw [serving?_eq hrunner, hserving]; rfl
  rw [move?, if_pos hsome, complete_eq hrunner hserving]

theorem play?_service (hrunner : strategy.runner = some runner) (hrunning : runner.running = true)
    (hfree : runner.serving = none) (hgoes : (runner.signalled || strategy.released) = false)
    (hlength : outcomes.length = strategy.waiting.length) :
    ∃ final, strategy.play? (service outcomes) = some final ∧ final.serving? = none ∧
      final.waiting = [] := by
  induction outcomes generalizing strategy runner with
  | nil =>
    refine ⟨strategy, rfl, (serving?_eq hrunner).trans hfree, ?_⟩
    exact List.length_eq_zero_iff.mp hlength.symm
  | cons outcome outcomes ih =>
    obtain ⟨id, rest, hwaiting⟩ := List.exists_cons_of_length_eq_add_one hlength.symm
    have hadvance : strategy.move? .advance = some { strategy with
        runner := some { runner with serving := some id }, waiting := rest } := by
      rw [move?, advance_eq hrunner hrunning hfree hgoes hwaiting, Option.map_some]
    have hcomplete := @move?_complete { strategy with
        runner := some { runner with serving := some id }, waiting := rest }
      { runner with serving := some id } id rfl rfl outcome.1 outcome.2
    rw [hwaiting] at hlength
    obtain ⟨final, hfinal, hidle⟩ := @ih { strategy with
        runner := some { runner with
          serving := none, record := runner.record.add outcome.1 outcome.2 }
        waiting := rest
        answers := strategy.answers ++ [(id, outcome.2)] } _ rfl hrunning rfl hgoes
      (Nat.succ.inj hlength)
    exact ⟨final, play?_cons_eq_some.mpr ⟨_, hadvance,
      play?_cons_eq_some.mpr ⟨_, hcomplete, hfinal⟩⟩, hidle⟩

/-- Whatever the polls come to, the runner has what it takes to go on until nobody waits. -/
theorem play?_remainder (hrunner : strategy.runner = some runner) (hrunning : runner.running = true)
    (hgoes : (runner.signalled || strategy.released) = false)
    (hlength : outcomes.length = strategy.serving?.toList.length + strategy.waiting.length) :
    ∃ final, strategy.play? (strategy.remainder outcomes) = some final ∧ final.serving? = none ∧
      final.waiting = [] := by
  rw [remainder, serving?_eq hrunner]
  rw [serving?_eq hrunner] at hlength
  cases hserving : runner.serving with
  | none =>
    rw [hserving, Option.toList_none, List.length_nil, Nat.zero_add] at hlength
    exact play?_service hrunner hrunning hserving hgoes hlength
  | some id =>
    rw [hserving, Option.toList_some, List.length_singleton, Nat.add_comm] at hlength
    obtain ⟨outcome, rest, rfl⟩ := List.exists_cons_of_length_eq_add_one hlength
    obtain ⟨final, hfinal, hidle⟩ := @play?_service { strategy with
        runner := some { runner with
          serving := none, record := runner.record.add outcome.1 outcome.2 }
        answers := strategy.answers ++ [(id, outcome.2)] } _ _ rfl hrunning rfl hgoes
      (Nat.succ.inj hlength)
    exact ⟨final, play?_cons_eq_some.mpr ⟨_, move?_complete hrunner hserving _ _, hfinal⟩, hidle⟩

/-- Demands are answered in the order in which they were made, the one of number `id` with what
the poll of this number came to, and no other polls are run. Nothing that a poll comes to and
nobody who tries to execute the strategy again changes that: all who still wait can be served. -/
theorem runs_once_for_each_fire (hplay : ({} : OnDemand).play? moves = some strategy)
    (hopen : ∀ move ∈ moves, move ≠ .stop ∧ move ≠ .release)
    (hfirst : firstPoller? moves = some poller) :
    strategy.fire.1 = fires moves ∧ strategy.accepts = true ∧
      (∀ id, strategy.answer? id = (results moves)[id]?.map (·.2)) ∧
      List.range (results moves).length ++ (strategy.serving?.toList ++ strategy.waiting) =
        List.range (fires moves) ∧
      ({} : OnDemand).runs moves =
        List.replicate ((results moves).length + strategy.serving?.toList.length) poller ∧
      strategy.execution.failure = none ∧ strategy.execution.running = true ∧
      strategy.execution.record.Summarises (results moves) ∧
      (∀ other, strategy.execute other = (.error alreadyExecuting, strategy)) ∧
      ∀ outcomes : Results,
        outcomes.length = strategy.serving?.toList.length + strategy.waiting.length →
        ∃ final, strategy.play? (strategy.remainder outcomes) = some final ∧
          (∀ id, final.answer? id = (results moves ++ outcomes)[id]?.map (·.2)) ∧
          (results moves ++ outcomes).length = fires moves ∧
          strategy.runs (strategy.remainder outcomes) =
            List.replicate strategy.waiting.length poller := by
  have h : strategy.Serving moves (({} : OnDemand).runs moves) := by
    simpa using Serving.fresh.play hplay hopen
  obtain ⟨runner, hrunner, rfl⟩ := Option.map_eq_some_iff.mp (h.first.trans hfirst)
  obtain ⟨hrunning, -⟩ := h.running runner hrunner
  refine ⟨h.next, h.accepts, h.answer?_eq, h.order, h.begun_eq hfirst, ?_, ?_, h.record, ?_, ?_⟩
  · rw [execution, hrunner]
  · rw [execution, hrunner]
    exact hrunning
  · intro other
    rw [execute, hrunner]
  · intro outcomes hlength
    obtain ⟨final, hfinal, hidle, hnobody⟩ :=
      play?_remainder hrunner hrunning (h.goes hrunner) hlength
    have hlater := h.play hfinal fun move hmem => by
      rcases eq_of_mem_remainder hmem with rfl | ⟨now, result, rfl⟩ <;> simp
    have hresults : results (moves ++ strategy.remainder outcomes) = results moves ++ outcomes := by
      rw [results_append, results_remainder]
    have hall : (results moves ++ outcomes).length = fires moves := by
      have hnumbers := congrArg List.length h.order
      simp only [List.length_append, List.length_range] at hnumbers
      rw [List.length_append, hlength, hnumbers]
    refine ⟨final, hfinal, ?_, hall, List.eq_replicate_iff.mpr ⟨?_, ?_⟩⟩
    · intro id
      rw [hlater.answer?_eq, hresults]
    · have hbefore := h.count
      have hafter := hlater.count
      rw [hresults, hidle, List.length_append, List.length_append] at hafter
      simp only [Option.toList_none, List.length_nil] at hafter
      omega
    · intro other hother
      have hother := hlater.pollers other (List.mem_append_right _ hother)
      rw [firstPoller?_append, hfirst, Option.some_or] at hother
      exact (Option.some.inj hother).symm

def busyMoves : List Move :=
  [.fire, .execute 7, .advance, .fire, .execute 8, .complete 5 (.error (.source "unavailable")),
    .fire]

theorem runs_once_for_each_fire_busy : ∃ strategy,
    ({} : OnDemand).play? busyMoves = some strategy ∧ strategy.waiting = [1, 2] ∧
      strategy.answer? 0 = some (.error (.source "unavailable")) ∧ strategy.answer? 1 = none ∧
      ({} : OnDemand).runs busyMoves = [7] ∧ strategy.execution.record.attempts = 1 ∧
      strategy.execution.record.consecutiveFailures = 1 ∧
      ∃ final, strategy.play? (strategy.remainder [(6, .ok ()), (8, .error (.io "timed out"))]) =
          some final ∧ final.answer? 1 = some (.ok ()) ∧
        final.answer? 2 = some (.error (.io "timed out")) ∧
        strategy.runs (strategy.remainder [(6, .ok ()), (8, .error (.io "timed out"))]) = [7, 7] := by
  obtain ⟨strategy, hplay⟩ : ∃ strategy, ({} : OnDemand).play? busyMoves = some strategy := ⟨_, rfl⟩
  have hopen : ∀ move ∈ busyMoves, move ≠ .stop ∧ move ≠ .release := by
    simp [busyMoves]
  obtain ⟨-, -, hanswers, hnumbers, hruns, -, -, hsummary, -, hrest⟩ :=
    runs_once_for_each_fire hplay hopen rfl
  obtain rfl := Option.some.inj hplay
  obtain ⟨final, hfinal, hanswered, -, hlater⟩ :=
    hrest [(6, .ok ()), (8, .error (.io "timed out"))] rfl
  exact ⟨_, rfl, rfl, hanswers 0, hanswers 1, hruns, hsummary.attempts,
    hsummary.consecutiveFailures, final, hfinal, hanswered 1, hanswered 2, hlater⟩

end Overlay.Poll.OnDemand

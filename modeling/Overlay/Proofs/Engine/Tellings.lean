import Mathlib
import Overlay.Proofs.Engine.Effects
import Overlay.Proofs.Engine.Hearing
import Overlay.Proofs.Forest.Subscribers

/-!
# Tellings

A node that has changed tells its subscribers one after the other. Listeners may start
operations while they are being told, which do their work above the telling; the
telling then goes on where it was. So it tells each subscriber once, in their order,
whatever listeners do (`informed_of_telling`). Those that are the caller's own code are
called when they are told (`callback?_of_informs?`).

A leaf says that it was changed when an edit changes its entries, and then tells its
subscribers (`edit_reports`). An edit that removes a key and sets it again to what it
held is reported as well, although it changes nothing (`reported_restored`): the edit is
judged key by key while it is made, where a snapshot is judged by what comes of it.
-/

namespace Overlay.Engine

variable {V : Type} {engine before after finish : Engine V}

/-- Whom a move tells of a change, where the telling lies on a stack of this height. -/
def informs? (engine : Engine V) (height : Nat) : Move V → Option Subscriber
  | .step =>
    match engine.stack with
    | .tell _ (subscriber :: _) :: rest => if rest.length = height then some subscriber else none
    | _ => none
  | _ => none

/-- Of the subscribers, those that are the caller's own code are called. -/
theorem callback?_of_informs? [BEq V] {move : Move V} {height : Nat} {observer : ObserverId}
    (hinforms : before.informs? height move = some (.observer observer))
    (hmove : before.move? move = some after) :
    ∃ node, after.callback? = some (.node observer node) := by
  cases move with
  | step =>
    simp only [informs?] at hinforms
    split at hinforms
    · rename_i node subscriber pending rest hstack
      obtain ⟨-, hsubscriber⟩ := Option.ite_none_right_eq_some.mp hinforms
      obtain rfl := Option.some.inj hsubscriber
      simp only [move?, step, hstack] at hmove
      obtain rfl := Option.some.inj hmove
      exact ⟨node, rfl⟩
    · exact absurd hinforms (by simp)
  | _ => exact absurd hinforms (by simp [informs?])

theorem informs?_of_length_ne {move : Move V} {frame : Frame V} {rest : List (Frame V)}
    {height : Nat} (hstack : engine.stack = frame :: rest) (hrest : rest.length ≠ height) :
    engine.informs? height move = none := by
  cases move with
  | step =>
    simp only [informs?, hstack]
    split
    · rename_i heq
      obtain ⟨-, rfl⟩ := List.cons.inj heq
      exact if_neg hrest
    · rfl
  | _ => rfl

-- ---------------------------------------------------------------------------
-- Nobody is subscribed twice
-- ---------------------------------------------------------------------------

theorem Piece.distinct (h : before.Piece after) (hbefore : before.forest.Distinct) :
    after.forest.Distinct := by
  cases h with
  | plant hfresh => exact hbefore.plant hfresh.subscribers
  | subscribe _ => exact hbefore.subscribe
  | unsubscribe _ => exact hbefore.unsubscribe
  | @edit id edit =>
    rw [edit_snd]
    split
    · exact hbefore.edit edit
    · exact hbefore.edit edit
  | attach _ _ => exact hbefore.attach.bump
  | detach hdetach => exact (hbefore.detach hdetach).bump
  | relay _ =>
    unfold tell
    dsimp only
    split
    · exact hbefore.prune _
    · exact (hbefore.prune _).bump
  | _ => exact hbefore

variable [BEq V]

/-- What every piece of work keeps of a forest holds after every run. -/
theorem play?_forest_induction {motive : Forest → Prop} {moves : List (Move V)}
    (hplay : engine.play? moves = some finish) (hengine : motive engine.forest)
    (hpiece : ∀ {before after : Engine V}, before.Piece after →
      motive before.forest → motive after.forest) : motive finish.forest := by
  refine play?_induction (motive := fun engine => motive engine.forest) hplay hengine
    fun hbefore hmove => ?_
  obtain ⟨middle, hwork, hafter⟩ := does_of_move? hmove
  have hmiddle : motive middle.forest := by
    clear hafter
    induction hwork with
    | refl => exact hbefore
    | tail _ hpiece' ih => exact hpiece hpiece' ih
  rcases hafter with rfl | ⟨id, rfl⟩
  · exact hmiddle
  · rw [forest_refreshHandle]
    exact hmiddle

theorem distinct_of_play? {moves : List (Move V)} (hplay : engine.play? moves = some finish)
    (hengine : engine.forest.Distinct) : finish.forest.Distinct :=
  play?_forest_induction hplay hengine Piece.distinct

-- ---------------------------------------------------------------------------
-- A telling
-- ---------------------------------------------------------------------------

/-- An operation that is in progress can go on, unless a listener is being called. -/
theorem isSome_step_or_callback? (h : engine.stack ≠ []) :
    engine.step.isSome ∨ engine.callback?.isSome := by
  obtain ⟨frame, rest, hstack⟩ := List.exists_cons_of_ne_nil h
  simp only [step, callback?, hstack]
  cases frame with
  | callback call => exact .inr rfl
  | tell node subscribers => cases subscribers <;> exact .inl rfl
  | deliver notice =>
    obtain ⟨handle, event, listeners⟩ := notice
    cases listeners <;> exact .inl rfl
  | refresh handles =>
    cases handles with
    | nil => exact .inl rfl
    | cons id handles =>
      simp only [run]
      split <;> exact .inl rfl
  | pass id notices =>
    cases notices with
    | cons notice notices => exact .inl rfl
    | nil =>
      simp only [run]
      split <;> exact .inl rfl
  | _ => exact .inl rfl

/-- Whom a run tells of changes, where the telling lies on a stack of this height. -/
def informed (engine : Engine V) (height : Nat) (moves : List (Move V)) : List Subscriber :=
  engine.record (fun before move _ => (before.informs? height move).toList) moves

/-- Is the stack higher than this at every move of the run? -/
def staysAbove (engine : Engine V) (height : Nat) (moves : List (Move V)) : Bool :=
  engine.every (fun before _ => height < before.stack.length) moves

/-- The topmost telling goes on to the next subscriber, or is over. -/
theorem stack_of_telling {node : NodeId} {pending : List Subscriber} {base : List (Frame V)}
    {move : Move V} (hstack : before.stack = .tell node pending :: base)
    (hmove : before.move? move = some after) :
    (pending = [] ∧ after.stack = base ∧ before.informs? base.length move = none) ∨
      ∃ subscriber left, pending = subscriber :: left ∧ (.tell node left :: base) <:+ after.stack ∧
        before.informs? base.length move = some subscriber := by
  cases move with
  | call call => simp [move?, isWaiting, isIdle, callback?, hstack] at hmove
  | resume => simp [move?, callback?, hstack] at hmove
  | wake id => simp [move?, isIdle, hstack] at hmove
  | step =>
    simp only [move?, step, hstack] at hmove
    cases pending with
    | nil =>
      obtain rfl := Option.some.inj hmove
      exact .inl ⟨rfl, rfl, by simp [informs?, hstack]⟩
    | cons subscriber left =>
      obtain rfl := Option.some.inj hmove
      refine .inr ⟨subscriber, left, rfl, ?_, by simp [informs?, hstack]⟩
      have heffect : Effect 0 none
          (Engine.push { before with stack := base } (.tell node left)) _ :=
        effect_tell node subscriber
      exact heffect.suffix

/-- As long as a telling goes on, those that have been told are the first of its
subscribers; when it is over, all of them have been told. -/
theorem informed_of_telling {node : NodeId} {pending : List Subscriber}
    {base : List (Frame V)} {moves : List (Move V)}
    (hstack : (.tell node pending :: base) <:+ engine.stack)
    (hplay : engine.play? moves = some finish)
    (habove : engine.staysAbove base.length moves = true) :
    ∃ left, engine.informed base.length moves ++ left = pending ∧
      (finish.stack.length ≤ base.length → left = []) := by
  induction moves generalizing engine pending with
  | nil =>
    obtain rfl := Option.some.inj hplay
    refine ⟨pending, rfl, fun hlow => ?_⟩
    have hhigh := hstack.length_le
    rw [List.length_cons] at hhigh
    exact absurd hhigh (Nat.not_le_of_lt (Nat.lt_succ_of_le hlow))
  | cons move rest ih =>
    obtain ⟨next, hnext, hrest⟩ := play?_cons_eq_some.mp hplay
    obtain ⟨-, hlater⟩ := (every_cons hnext).mp habove
    rw [informed, record_cons hnext]
    obtain ⟨above, habove⟩ := hstack
    cases above with
    | cons frame above =>
      -- the move works above the telling
      have hnone : engine.informs? base.length move = none := by
        refine informs?_of_length_ne habove.symm ?_
        simp only [List.append_eq, List.length_append, List.length_cons]
        omega
      rw [hnone]
      have hbelow := stack_of_move? habove.symm hnext
      exact ih ((List.suffix_append _ _).trans hbelow) hrest hlater
    | nil =>
      rcases stack_of_telling habove.symm hnext with
        ⟨rfl, hover, hnone⟩ | ⟨subscriber, left, rfl, hsuffix, hsome⟩
      · -- the operation is over, and no move of it can follow
        rw [hnone]
        cases rest with
        | nil => exact ⟨[], rfl, fun _ => rfl⟩
        | cons move rest =>
          obtain ⟨next', hnext', -⟩ := play?_cons_eq_some.mp hrest
          have hhigh := ((every_cons hnext').mp hlater).1
          rw [hover] at hhigh
          exact absurd hhigh (by simp)
      · rw [hsome]
        obtain ⟨left', hleft', hdone⟩ := ih hsuffix hrest hlater
        exact ⟨left', congrArg _ hleft', hdone⟩

-- ---------------------------------------------------------------------------
-- Edits of a leaf
-- ---------------------------------------------------------------------------

/-- An edit of a leaf has been reported: it says so, has counted one version, and its operation
tells everyone who subscribes to the leaf, each once and in their order. -/
structure Reported (engine : Engine V) (leaf : NodeId) (result : Bool × Engine V) : Prop where
  changed : result.1 = true
  version : result.2.forest.version leaf = engine.forest.version leaf + 1
  distinct : (engine.forest.subscribers leaf).Nodup
  /-- All have been told once the stack is what it was before. Until then the operation
  can go on, unless a listener is being called. -/
  told : ∀ moves finish, result.2.play? moves = some finish →
    result.2.staysAbove engine.stack.length moves = true →
      ∃ left, result.2.informed engine.stack.length moves ++ left = engine.forest.subscribers leaf ∧
        (finish.stack.length ≤ engine.stack.length → left = []) ∧
        (left ≠ [] → finish.step.isSome ∨ finish.callback?.isSome)

theorem reported_of_changed {leaf : NodeId} {entries : Entries} {edit : Edit}
    (hdistinct : engine.forest.Distinct) (hleaf : engine.forest.leaf? leaf = some entries)
    (hchanged : (edit.run entries).2 = true) :
    engine.Reported leaf (engine.edit leaf edit) := by
  have hflag : (engine.forest.edit leaf edit).1 = true :=
    (Forest.edit_fst_of_leaf? hleaf edit).trans hchanged
  have hafter : (engine.edit leaf edit).2 =
      { engine with forest := (engine.forest.edit leaf edit).2 }.announce leaf := by
    rw [edit_snd, if_pos hflag]
  have hsubscribers : (engine.forest.edit leaf edit).2.subscribers leaf =
      engine.forest.subscribers leaf := by
    rw [Forest.edit_of_leaf? hleaf, if_pos hchanged]
    exact Forest.subscribers_modify fun _ => rfl
  constructor
  · exact hflag
  · rw [hafter]
    exact ((Forest.revises_edit hflag).version leaf).trans
      (by rw [if_pos ⟨rfl, Forest.has_of_leaf? hleaf⟩])
  · exact hdistinct.subscribers leaf
  · intro moves finish hplay habove
    have htelling : (Frame.tell leaf (engine.forest.subscribers leaf) :: engine.stack) <:+
        (engine.edit leaf edit).2.stack := by
      rw [hafter, ← hsubscribers]
      exact List.suffix_rfl
    obtain ⟨left, hleft, hdone⟩ := informed_of_telling htelling hplay habove
    refine ⟨left, hleft, hdone, fun hne => isSome_step_or_callback? fun hstack => ?_⟩
    exact hne (hdone (by rw [hstack]; exact Nat.zero_le _))

/-- An edit of a leaf leaves what it says. If the entries are others then, or the edit asks
for two things of one key, it says so, counts a version, and has everyone who subscribes
to the leaf told once. If the entries are what they were and the edit asks for one thing
of each key at most, it says so and does nothing. -/
theorem edit_reports {moves : List (Move V)} {leaf : NodeId} {entries : Entries}
    (hplay : ({} : Engine V).play? moves = some engine)
    (hleaf : engine.forest.leaf? leaf = some entries) (edit : Edit) :
    (engine.edit leaf edit).2.forest.entries leaf = (edit.run entries).1 ∧
      ((engine.edit leaf edit).2.forest.entries leaf ≠ engine.forest.entries leaf ∨ ¬ edit.Steady →
        engine.Reported leaf (engine.edit leaf edit)) ∧
      ((engine.edit leaf edit).2.forest.entries leaf = engine.forest.entries leaf →
        edit.Steady → engine.edit leaf edit = (false, engine)) := by
  have hdistinct := distinct_of_play? hplay Forest.distinct_empty
  have hafter : (engine.edit leaf edit).2.forest.leaf? leaf = some (edit.run entries).1 := by
    have heffect : Effect leaf (if leaf = leaf then some edit else none) engine _ :=
      effect_edit leaf edit
    simpa using heffect.leaf entries hleaf
  rw [Forest.entries_of_leaf? hafter, Forest.entries_of_leaf? hleaf]
  refine ⟨rfl, fun hreason => ?_, fun heq hsteady => ?_⟩
  · refine reported_of_changed hdistinct hleaf ?_
    rcases hreason with hne | hsteady
    · exact Edit.changed_of_ne hne
    · exact Edit.changed_of_not_steady hsteady
  · have hunchanged : (engine.forest.edit leaf edit).1 = false := by
      rw [Forest.edit_fst_of_leaf? hleaf]
      exact Bool.eq_false_iff.mpr fun hchanged => hsteady.ne_of_changed hchanged heq
    refine Prod.ext hunchanged ?_
    rw [edit_snd, hunchanged, Forest.edit_unchanged hunchanged]
    rfl

/-- A leaf that the caller holds, and that an observer follows. -/
def observedLeaf (entries : Entries) : List (Move V) :=
  [.call (.settable "leaf" entries), .call (.hold [.node 0]), .call (.observe 0 7)]

/-- The observer is told, and returns. -/
theorem edit_reports_observed : ∃ start finish : Engine Nat,
    ({} : Engine Nat).play? (observedLeaf .empty) = some start ∧
      start.forest.leaf? 0 = some .empty ∧
      (start.edit 0 (.set "key" "one")).2.play? [.step, .resume, .step] = some finish ∧
      finish.isIdle ∧ finish.forest.version 0 = 1 ∧
      (start.edit 0 (.set "key" "one")).2.informed 0 [.step, .resume, .step] = [.observer 7] := by
  refine ⟨_, _, rfl, rfl, rfl, rfl, rfl, ?_⟩
  have hreports := edit_reports (V := Nat)
    (show ({} : Engine Nat).play? (observedLeaf .empty) = some _ from rfl)
    (show Forest.leaf? _ 0 = some .empty from rfl) (.set "key" "one")
  obtain ⟨left, hleft, hdone, -⟩ := (hreports.2.1 (.inl (by decide))).told
    [.step, .resume, .step] _ rfl (by decide)
  rw [hdone (by decide), List.append_nil] at hleft
  exact hleft

/-- A delta removes a key and sets it to what it held: the entries are what they were, and
yet the edit says that it changed them, counts a version and tells the observer. -/
theorem reported_restored : ∃ start changed finish : Engine Nat,
    ({} : Engine Nat).play? (observedLeaf (.ofPairs [("key", "one")])) = some start ∧
      start.edit 0 (.update (.delta ["key"] (.ofPairs [("key", "one")]))) = (true, changed) ∧
      changed.forest.entries 0 = start.forest.entries 0 ∧
      changed.forest.version 0 = start.forest.version 0 + 1 ∧
      changed.play? [.step, .resume, .step] = some finish ∧ finish.isIdle ∧
      changed.informed 0 [.step, .resume, .step] = [.observer 7] :=
  ⟨_, _, _, rfl, rfl, by decide, by decide, rfl, rfl, by decide⟩

end Overlay.Engine

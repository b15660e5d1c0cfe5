import Overlay.Proofs.Crew.Run
import Overlay.Proofs.Engine.Anchors

/-!
# One worker at a time

A crew in which one worker has something in hand and the others nothing is an engine by
itself (`Represents`). So every run of an engine is a run of a crew, in which callers and
notifiers take turns when no operation is in progress (`exists_play?`), and what holds
after every run of a crew holds after every run of an engine. What others have in hand
must be kept from what the caller holds for this, which changes by its word only
(`anchors_of_move?`).
-/

namespace Overlay

variable {V : Type}

-- ---------------------------------------------------------------------------
-- A crew with one worker
-- ---------------------------------------------------------------------------

namespace Crew

variable {crew finish : Crew V} {worker other : Worker} {engine after : Engine V} {move : Move V}

/-- The worker finds this engine, and the others have nothing in hand. -/
structure Represents (crew : Crew V) (worker : Worker) (engine : Engine V) : Prop where
  view : crew.view worker = engine
  alone : ∀ entry ∈ crew.frames, entry.2 = [] ∨ entry = (worker, crew.stack worker)

theorem inHand_of_alone
    (h : ∀ entry ∈ crew.frames, entry.2 = [] ∨ entry = (worker, crew.stack worker)) :
    crew.inHand worker = [] := by
  refine List.flatMap_eq_nil_iff.mpr fun entry hmem => ?_
  obtain ⟨hframes, hother⟩ := List.mem_filter.mp hmem
  rcases h entry hframes with hnone | heq
  · rw [hnone, List.flatMap_nil]
  · exact absurd hother (by simp [heq])

theorem view_of_inHand (h : crew.inHand worker = []) :
    crew.view worker = { crew.engine with stack := crew.stack worker } := by
  rw [view, h, List.map_nil, List.append_nil]

theorem represents_empty (worker : Worker) : ({} : Crew V).Represents worker {} :=
  ⟨rfl, fun _ hmem => absurd hmem List.not_mem_nil⟩

theorem Represents.isIdle (h : crew.Represents worker engine) (hidle : engine.isIdle) :
    crew.isIdle := by
  have hstack : crew.stack worker = [] := by
    rw [← h.view] at hidle
    exact List.isEmpty_iff.mp hidle
  refine List.all_eq_true.mpr fun entry hmem => List.isEmpty_iff.mpr ?_
  rcases h.alone entry hmem with hnone | heq
  · exact hnone
  · rw [heq, hstack]

/-- When no operation is in progress any worker may be the next. -/
theorem Represents.change (h : crew.Represents worker engine) (hidle : engine.isIdle)
    (other : Worker) : crew.Represents other engine := by
  have hcrew := h.isIdle hidle
  have halone : ∀ entry ∈ crew.frames, entry.2 = [] ∨ entry = (other, crew.stack other) :=
    fun entry hmem => .inl (List.isEmpty_iff.mp (List.all_eq_true.mp hcrew entry hmem))
  refine ⟨?_, halone⟩
  rw [← h.view, view_of_inHand (inHand_of_alone halone), view_of_inHand (inHand_of_alone h.alone),
    stack_of_isIdle hcrew, stack_of_isIdle hcrew]

variable [BEq V] {moves : List (Move V)}

theorem Represents.makes (h : crew.Represents worker engine) (hpermits : crew.permits worker move)
    (hmove : engine.move? move = some after) :
    ∃ next, crew.move? worker move = some next ∧ next.Represents worker after := by
  have hview := h.view
  subst hview
  refine ⟨crew.leave worker move after, move?_eq_some.mpr ⟨hpermits, after, hmove, rfl⟩, ?_⟩
  have hstack : (crew.leave worker move after).stack worker = after.stack := by
    rw [stack_leave, if_pos rfl]
  have halone : ∀ entry ∈ (crew.leave worker move after).frames, entry.2 = [] ∨
      entry = (worker, (crew.leave worker move after).stack worker) := by
    intro entry hmem
    rcases List.mem_cons.mp hmem with rfl | hrest
    · rw [hstack]
      exact .inr rfl
    · obtain ⟨hframes, hother⟩ := List.mem_filter.mp hrest
      rcases h.alone entry hframes with hnone | heq
      · exact .inl hnone
      · exact absurd hother (by simp [heq])
  have hanchors : crew.anchorsAfter move = after.anchors := by
    by_cases hhold : ∃ anchors, move = .call (.hold anchors)
    · obtain ⟨anchors, rfl⟩ := hhold
      obtain ⟨-, hstart⟩ := Option.ite_none_right_eq_some.mp hmove
      exact Option.some.inj hstart ▸ rfl
    · rw [Engine.anchors_of_move? hmove fun anchors heq => hhold ⟨anchors, heq⟩,
        view_of_inHand (inHand_of_alone h.alone), anchorsAfter]
      exact fun anchors heq => hhold ⟨anchors, heq⟩
  refine ⟨?_, halone⟩
  rw [view_of_inHand (inHand_of_alone halone), hstack]
  show { after with stack := after.stack, anchors := crew.anchorsAfter move } = after
  rw [hanchors]

/-- Whoever is to make a move may be chosen when no operation is in progress, and is the
one whose operation is in progress otherwise. -/
theorem Represents.exists_permits (h : crew.Represents worker engine)
    (hmove : engine.move? move = some after) :
    ∃ other, crew.Represents other engine ∧ crew.permits other move := by
  by_cases hidle : engine.isIdle
  · cases move with
    | wake home => exact ⟨.notifier home, h.change hidle _, by simp [permits]⟩
    | _ => exact ⟨.caller 0, h.change hidle _, rfl⟩
  · refine ⟨worker, h, ?_⟩
    have hstack : (crew.stack worker).isEmpty = false := by
      rw [← h.view] at hidle
      exact eq_false_of_ne_true hidle
    have hwake : move.isWake = false := by
      cases move with
      | wake home =>
        obtain ⟨hwaiting, -⟩ := Option.ite_none_right_eq_some.mp hmove
        exact absurd hwaiting hidle
      | _ => rfl
    cases worker with
    | caller thread => simp [permits, hwake]
    | notifier home =>
      cases move with
      | wake _ => exact absurd hwake (by simp [Move.isWake])
      | call _ => simp [permits, hstack]
      | _ => rfl

/-- Every run of an engine is a run of a crew. -/
theorem exists_play? (h : crew.Represents worker engine) (hplay : engine.play? moves = some after) :
    ∃ turns finish other, turns.map (·.2) = moves ∧ crew.play? turns = some finish ∧
      finish.Represents other after := by
  induction moves generalizing crew worker engine with
  | nil =>
    obtain rfl := Option.some.inj hplay
    exact ⟨[], crew, worker, rfl, rfl, h⟩
  | cons move rest ih =>
    obtain ⟨middle, hmiddle, hrest⟩ := Engine.play?_cons_eq_some.mp hplay
    obtain ⟨chosen, hchosen, hpermits⟩ := h.exists_permits hmiddle
    obtain ⟨next, hnext, hrepresents⟩ := hchosen.makes hpermits hmiddle
    obtain ⟨turns, finish, other, hmoves, hturns, hfinish⟩ := ih hrepresents hrest
    refine ⟨(chosen, move) :: turns, finish, other, ?_, ?_, hfinish⟩
    · rw [List.map_cons, hmoves]
    · exact play?_cons_eq_some.mpr ⟨next, hnext, hturns⟩

end Crew

end Overlay

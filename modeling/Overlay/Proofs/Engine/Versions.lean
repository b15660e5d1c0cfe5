import Overlay.Proofs.Engine.Sound
import Overlay.Proofs.Tree.Answers

/-!
# Versions

The version of a node speaks for the whole tree below it. It never falls, and
between operations two equal versions of a node mean that everything that can be
asked of it has the same answer (`reads_eq_of_version_eq`): no change goes
unnoticed, however deep it lies and whichever way it was made.
-/

namespace Overlay.Engine

variable {V : Type} {engine : Engine V} {id : NodeId}

/-- What the caller can get at is not gone. -/
theorem Sound.live (h : engine.Sound) (hholds : engine.Holds id) :
    engine.forest.gone id = false := by
  obtain ⟨root, hroot, hreach⟩ := hholds
  induction hreach with
  | refl => exact h.held root hroot
  | tail _ hstep ih =>
    obtain ⟨child, hchild, rfl⟩ := hstep
    exact h.linked.live _ ih child hchild

variable [BEq V]

/-- Versions never fall, whatever is done. When no operation is in progress, a
node that the caller can get at and whose version is that of an earlier moment
answers as it did then: every key, the layer that a key comes from, the list of
keys, and the walk through all that lies below, which is what a visitor that
writes down every call has written and so all that any visitor can see. -/
theorem reads_eq_of_version_eq {earlier later : List (Move V)} {start finish : Engine V}
    (hearlier : ({} : Engine V).play? earlier = some start)
    (hlater : start.play? later = some finish) :
    (∀ id, start.forest.version id ≤ finish.forest.version id) ∧
      (finish.isIdle → finish.forest.Acyclic → ∀ id, start.forest.Has id → finish.Holds id →
        finish.forest.version id = start.forest.version id →
          (∀ key, (finish.forest.tree id).get? key = (start.forest.tree id).get? key) ∧
          (∀ key, (finish.forest.tree id).resolve? key = (start.forest.tree id).resolve? key) ∧
          (finish.forest.tree id).keys = (start.forest.tree id).keys ∧
          (finish.forest.tree id).walk = (start.forest.tree id).walk ∧
          (finish.forest.tree id).accept Tree.recorder [] = (start.forest.tree id).walk ∧
          ∀ (σ : Type) (visitor : Visitor σ) (state : σ),
            (finish.forest.tree id).accept visitor state =
              (start.forest.tree id).accept visitor state) := by
  have hstart : start.Sound := (keeps_of_play? hearlier sound_empty).sound
  have hkeeps : start.Keeps finish := keeps_of_play? hlater hstart
  refine ⟨hkeeps.since.version, fun hidle hacyclic id hhas hholds hversion => ?_⟩
  have htree : finish.forest.tree id = start.forest.tree id :=
    hkeeps.since.tree_eq hstart.linked hkeeps.sound.linked hidle hacyclic hhas
      (hkeeps.sound.live hholds) hversion
  simp only [htree, Tree.accept_recorder, List.nil_append, implies_true, and_self]

/-- A leaf in a composite, seen before and after an edit that changes nothing and
an attempt to add a child under a name that is taken. -/
theorem reads_eq_of_idle_edit :
    ∃ start finish : Engine Nat, ({} : Engine Nat).play? (leafInRoot .empty) = some start ∧
      start.play? [.call (.edit 0 (.clear "key")), .call (.attachUnique 1 "leaf" 0)] =
        some finish ∧
      finish.isIdle ∧ finish.forest.Acyclic ∧ start.forest.Has 1 ∧ finish.Holds 1 ∧
      finish.forest.version 1 = start.forest.version 1 ∧
      (finish.forest.tree 1).walk = (start.forest.tree 1).walk ∧
      (finish.forest.tree 1).accept Tree.recorder [] =
        [.enter "leaf" "leaf", .leave "leaf"] := by
  refine ⟨_, _, rfl, rfl, rfl, Forest.acyclic_of_lt (by decide), by decide,
    ⟨1, by decide, .refl⟩, rfl, ?_⟩
  have hreads := reads_eq_of_version_eq (V := Nat)
    (show ({} : Engine Nat).play? (leafInRoot .empty) = some _ from rfl)
    (show Engine.play? _ [.call (.edit 0 (.clear "key")), .call (.attachUnique 1 "leaf" 0)] =
      some _ from rfl)
  obtain ⟨-, -, -, hwalk, hrecorded, -⟩ := hreads.2 rfl (Forest.acyclic_of_lt (by decide)) 1
    (by decide) ⟨1, by decide, .refl⟩ rfl
  exact ⟨hwalk, hrecorded.trans rfl⟩

end Overlay.Engine

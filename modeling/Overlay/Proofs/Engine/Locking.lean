import Mathlib.Logic.Function.Basic
import Overlay.Proofs.Engine.Handles
import Overlay.Proofs.Engine.Run
import Overlay.Shard

/-!
# Locking

Whoever resolves a handle holds the lock of its key's shard until the handle has what came of it and
the notice has been left with a notifier or is the next work. No listener is called meanwhile, and
no other handle is read: nobody waits for a lock that it holds itself, so a run is the same with any
number of shards (`playUnder?_eq`).
-/

namespace Overlay.Engine

variable {V : Type} [BEq V] {engine before after : Engine V} {move : Move V} {moves : List (Move V)}
  {locks : RegistryId → Locks}

/-- The handles that a move resolves, in the order in which they were made. -/
def resolved (before after : Engine V) : List (Handle V) :=
  let ids := (List.range after.handles.length).filter fun id => (before.resolution? after id).isSome
  ids.filterMap after.handleAt?

/-- Take the locks of these handles' shards, one after the other. -/
def lockAll? (locks : RegistryId → Locks) : List (Handle V) → Option (RegistryId → Locks)
  | [] => some locks
  | handle :: rest => ((locks handle.registry).lock? handle.key).bind fun locked =>
    lockAll? (Function.update locks handle.registry locked) rest

def unlockAll (locks : RegistryId → Locks) : List (Handle V) → (RegistryId → Locks)
  | [] => locks
  | handle :: rest => unlockAll
    (Function.update locks handle.registry ((locks handle.registry).unlock handle.key)) rest

/-- A move cannot be made while a lock that it needs is held. -/
def moveLocked? (locks : RegistryId → Locks) (engine : Engine V) (move : Move V) :
    Option ((RegistryId → Locks) × Engine V) :=
  (engine.move? move).bind fun after =>
    (lockAll? locks (engine.resolved after)).map fun locked =>
      (unlockAll locked (engine.resolved after), after)

def playLocked? (locks : RegistryId → Locks) (engine : Engine V) :
    List (Move V) → Option ((RegistryId → Locks) × Engine V)
  | [] => some (locks, engine)
  | move :: rest => (moveLocked? locks engine move).bind fun (locks, after) =>
    playLocked? locks after rest

/-- A run in which the registries have these numbers of shards. -/
def playUnder? (count : RegistryId → Nat) (engine : Engine V) (moves : List (Move V)) :
    Option (Engine V) :=
  (playLocked? (fun registry => { count := count registry }) engine moves).map (·.2)

/-- A move reads one handle at most. -/
theorem exists_read (hmove : before.move? move = some after) :
    ∃ read, ∀ id, id ≠ read → after.cached? id = before.cached? id := by
  obtain ⟨middle, hwork, rfl | ⟨read, rfl⟩⟩ := does_of_move? hmove
  · exact ⟨0, fun id _ => hwork.spares.cached id⟩
  · exact ⟨read, fun id hne =>
      ((retains_refreshHandle middle read).2 id hne).trans (hwork.spares.cached id)⟩

theorem length_resolved_le (hmove : before.move? move = some after) :
    (before.resolved after).length ≤ 1 := by
  obtain ⟨read, hcached⟩ := exists_read hmove
  refine Nat.le_trans (List.length_filterMap_le _ _) ?_
  have hread : ∀ id ∈ (List.range after.handles.length).filter fun id =>
      (before.resolution? after id).isSome, id = read := by
    intro id hmem
    by_contra hne
    have hsome := (List.mem_filter.mp hmem).2
    simp [resolution?_of_cached_eq (hcached id hne)] at hsome
  have hnodup := (List.nodup_range (n := after.handles.length)).filter fun id =>
    (before.resolution? after id).isSome
  generalize (List.range after.handles.length).filter _ = ids at hread hnodup
  cases ids with
  | nil => exact Nat.zero_le 1
  | cons first rest =>
    cases rest with
    | nil => exact Nat.le_refl 1
    | cons second rest =>
      have hfirst := hread first List.mem_cons_self
      have hsecond := hread second (List.mem_cons_of_mem _ List.mem_cons_self)
      simp [hfirst, hsecond] at hnodup

/-- As long as no lock is held between moves, no move waits. -/
theorem moveLocked?_eq (hfree : ∀ registry, (locks registry).taken = []) :
    moveLocked? locks engine move = (engine.move? move).map fun after => (locks, after) := by
  unfold moveLocked?
  cases hmove : engine.move? move with
  | none => rfl
  | some after =>
    have hlength := length_resolved_le hmove
    simp only [Option.bind_some, Option.map_some]
    cases hresolved : engine.resolved after with
    | nil => rfl
    | cons handle rest =>
      obtain rfl : rest = [] := List.eq_nil_of_length_eq_zero (by simpa [hresolved] using hlength)
      obtain ⟨locked, hlock, hunlock⟩ := Locks.lock?_of_free (hfree handle.registry) handle.key
      simp [lockAll?, unlockAll, hlock, hunlock]

theorem playLocked?_eq (hfree : ∀ registry, (locks registry).taken = []) :
    playLocked? locks engine moves = (engine.play? moves).map fun after => (locks, after) := by
  induction moves generalizing engine with
  | nil => rfl
  | cons move rest ih =>
    rw [playLocked?, moveLocked?_eq hfree, play?]
    cases engine.move? move with
    | none => rfl
    | some after => exact ih

/-- No run depends on the numbers of shards. -/
theorem playUnder?_eq (count : RegistryId → Nat) (engine : Engine V) (moves : List (Move V)) :
    engine.playUnder? count moves = engine.play? moves := by
  rw [playUnder?, playLocked?_eq fun _ => rfl, Option.map_map]
  exact Option.map_id'

end Overlay.Engine

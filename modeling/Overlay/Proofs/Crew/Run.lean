import Overlay.Proofs.Engine.Listeners

/-!
# Crews

A crew is an engine that several workers share: threads of the caller's, and a notifier
for each registry. A piece of work is done as a whole, but between two pieces of one
worker the others may do any number of theirs. So each worker has a stack of its own,
and the rest is common to all (`Crew.view`).

A notifier takes the tasks of its own registry and no others do. It starts no operation
of its own accord; a listener that it calls may start any.
-/

namespace Overlay

inductive Worker
  | caller (thread : Nat)
  | notifier (registry : RegistryId)
deriving DecidableEq, Repr

def Worker.does {V : Type} (worker : Worker) (moves : List (Move V)) : List (Worker × Move V) :=
  moves.map (worker, ·)

/-- Each worker's work is kept apart; the engine's own stack is not in use. -/
structure Crew (V : Type) where
  engine : Engine V := {}
  frames : List (Worker × List (Frame V)) := []

namespace Crew

section
variable {V : Type}

def stack (crew : Crew V) (worker : Worker) : List (Frame V) :=
  (crew.frames.lookup worker).getD []

/-- The nodes that others than this worker have in hand. -/
def inHand (crew : Crew V) (worker : Worker) : List NodeId :=
  (crew.frames.filter (·.1 ≠ worker)).flatMap fun entry => entry.2.flatMap crew.engine.frameNodes

/-- The engine as the worker finds it: its own work is in progress, and what others have
in hand cannot be lost. -/
def view (crew : Crew V) (worker : Worker) : Engine V :=
  { crew.engine with
    stack := crew.stack worker
    anchors := crew.engine.anchors ++ (crew.inHand worker).map .node }

def permits (crew : Crew V) : Worker → Move V → Bool
  | .caller _, move => !move.isWake
  | .notifier id, .wake other => id = other
  | .notifier id, .call _ => !(crew.stack (.notifier id)).isEmpty
  | .notifier _, _ => true

/-- What the caller holds, which changes by its word only. -/
def anchorsAfter (crew : Crew V) : Move V → List Anchor
  | .call (.hold anchors) => anchors
  | _ => crew.engine.anchors

/-- The crew once a worker has left the engine like this. -/
def leave (crew : Crew V) (worker : Worker) (move : Move V) (after : Engine V) : Crew V where
  engine := { after with stack := [], anchors := crew.anchorsAfter move }
  frames := (worker, after.stack) :: crew.frames.filter (·.1 ≠ worker)

def move? [BEq V] (crew : Crew V) (worker : Worker) (move : Move V) : Option (Crew V) :=
  if crew.permits worker move then
    ((crew.view worker).move? move).map (crew.leave worker move)
  else none

/-- Is no operation in progress, and no notifier at work? -/
def isIdle (crew : Crew V) : Bool := crew.frames.all (·.2.isEmpty)

/-- The crew after these moves of workers, when all of them are possible. -/
def play? [BEq V] (crew : Crew V) : List (Worker × Move V) → Option (Crew V)
  | [] => some crew
  | (worker, move) :: rest => (crew.move? worker move).bind (·.play? rest)

/-- What is seen in the moves of a run, in their order. -/
def record {α : Type} [BEq V] (see : Crew V → Worker → Move V → Crew V → List α) (crew : Crew V) :
    List (Worker × Move V) → List α
  | [] => []
  | (worker, move) :: rest =>
    match crew.move? worker move with
    | none => []
    | some next => see crew worker move next ++ next.record see rest

end

variable {V : Type} {crew next finish : Crew V} {worker other : Worker} {move : Move V}
  {after : Engine V}

theorem lookup_filter (h : other ≠ worker) (frames : List (Worker × List (Frame V))) :
    (frames.filter (·.1 ≠ worker)).lookup other = frames.lookup other := by
  induction frames with
  | nil => rfl
  | cons entry rest ih =>
    obtain ⟨owner, frames⟩ := entry
    by_cases howner : owner = worker
    · subst howner
      rw [List.filter_cons_of_neg (by simp), ih, List.lookup_cons, beq_eq_false_iff_ne.mpr h]
    · rw [List.filter_cons_of_pos (by simpa using howner), List.lookup_cons, List.lookup_cons, ih]

theorem stack_leave : (crew.leave worker move after).stack other =
    if other = worker then after.stack else crew.stack other := by
  rw [stack, leave, List.lookup_cons, stack]
  by_cases h : other = worker
  · subst h
    simp
  · rw [lookup_filter h, beq_eq_false_iff_ne.mpr h, if_neg h]

theorem stack_of_isIdle (h : crew.isIdle) (worker : Worker) : crew.stack worker = [] := by
  rw [stack]
  cases hlookup : crew.frames.lookup worker with
  | none => rfl
  | some frames =>
    obtain ⟨before, after, hframes, -⟩ := List.lookup_eq_some_iff.mp hlookup
    have hmem : (worker, frames) ∈ crew.frames := by simp [hframes]
    exact List.isEmpty_iff.mp (List.all_eq_true.mp h _ hmem)

variable [BEq V] {moves : List (Worker × Move V)}

theorem move?_eq_some : crew.move? worker move = some next ↔
    crew.permits worker move = true ∧
      ∃ after, (crew.view worker).move? move = some after ∧ crew.leave worker move after = next := by
  rw [move?, Option.ite_none_right_eq_some, Option.map_eq_some_iff]

theorem play?_cons_eq_some {rest : List (Worker × Move V)} :
    crew.play? ((worker, move) :: rest) = some finish ↔
      ∃ next, crew.move? worker move = some next ∧ next.play? rest = some finish :=
  Option.bind_eq_some_iff

theorem play?_append_eq_some {former latter : List (Worker × Move V)} :
    crew.play? (former ++ latter) = some finish ↔
      ∃ middle, crew.play? former = some middle ∧ middle.play? latter = some finish := by
  induction former generalizing crew with
  | nil => simp [play?]
  | cons entry rest ih =>
    obtain ⟨worker, move⟩ := entry
    rw [List.cons_append, play?_cons_eq_some]
    constructor
    · rintro ⟨next, hnext, hrest⟩
      obtain ⟨middle, hformer, hlatter⟩ := ih.mp hrest
      exact ⟨middle, play?_cons_eq_some.mpr ⟨next, hnext, hformer⟩, hlatter⟩
    · rintro ⟨middle, hformer, hlatter⟩
      obtain ⟨next, hnext, hrest⟩ := play?_cons_eq_some.mp hformer
      exact ⟨next, hnext, ih.mpr ⟨middle, hrest, hlatter⟩⟩

/-- What every move keeps holds after every run. -/
theorem play?_induction {motive : Crew V → Prop} (hplay : crew.play? moves = some finish)
    (hstart : motive crew)
    (hmove : ∀ {before worker move after}, motive before → before.move? worker move = some after →
      motive after) : motive finish := by
  induction moves generalizing crew with
  | nil => exact Option.some.inj hplay ▸ hstart
  | cons entry rest ih =>
    obtain ⟨worker, move⟩ := entry
    obtain ⟨next, hnext, hrest⟩ := play?_cons_eq_some.mp hplay
    exact ih hrest (hmove hstart hnext)

theorem record_cons {α : Type} {see : Crew V → Worker → Move V → Crew V → List α}
    {rest : List (Worker × Move V)} (h : crew.move? worker move = some next) :
    crew.record see ((worker, move) :: rest) = see crew worker move next ++ next.record see rest := by
  rw [record, h]

/-- A worker's move is a turn of the engine as the worker finds it. -/
theorem turn_of_move? (h : crew.move? worker move = some next) :
    crew.permits worker move = true ∧ ∃ after, (crew.view worker).Turn move after ∧
      (crew.view worker).Retains after ∧ crew.leave worker move after = next := by
  obtain ⟨hpermits, after, hmove, hnext⟩ := move?_eq_some.mp h
  exact ⟨hpermits, after, Engine.turn_of_move? hmove, (Engine.does_of_move? hmove).retains, hnext⟩

theorem retains_of_play? (h : crew.play? moves = some finish) :
    crew.engine.Retains finish.engine := by
  refine play?_induction (motive := fun later => crew.engine.Retains later.engine) h ?_ ?_
  · exact (Engine.spares_of_eq rfl rfl).toRetains
  · intro before worker move next hretains hmove
    obtain ⟨-, after, -, hafter, rfl⟩ := turn_of_move? hmove
    exact hretains.trans ⟨hafter.handle, hafter.registry⟩

omit [BEq V] in
/-- Only a notifier takes up tasks, and only those of its registry. -/
theorem eq_wake_of_permits (h : crew.permits worker move = true) (hwake : move.isWake = true) :
    ∃ home, worker = .notifier home ∧ move = .wake home := by
  cases move with
  | wake home =>
    cases worker with
    | caller _ => exact absurd h (by simp [permits, Move.isWake])
    | notifier id =>
      have hsame : id = home := by simpa [permits] using h
      exact ⟨home, by rw [hsame], rfl⟩
  | _ => exact absurd hwake (by simp [Move.isWake])

end Crew

end Overlay

import Overlay.Proofs.Engine.Announcements
import Overlay.Proofs.Engine.Versions

/-!
# Reports

What a listener of a node is told is the version that the node has when it is called
(`report?`), not the one that the telling began with. So while tellings are nested, an
outer one may come to a listener after an inner one has told it of something newer, and
then tells it the same again. The versions that it hears of never fall
(`reports_sorted`), and whoever was registered when the version last rose has heard of it
when all tellings are over (`reports_reach_version`).
-/

namespace Overlay.Engine

variable {V : Type} {engine before after finish : Engine V} {node : NodeId}
  {observer : ObserverId} {move : Move V}

/-- The version that a move reports to a listener of the node, if it calls the listener. -/
def report? (before after : Engine V) (observer : ObserverId) (node : NodeId) (move : Move V) :
    Option Nat :=
  if before.addresses? move = some (observer, node) then some (after.forest.version node) else none

theorem report?_eq_some {version : Nat} :
    before.report? after observer node move = some version ↔
      before.addresses? move = some (observer, node) ∧ after.forest.version node = version := by
  simp [report?]

theorem report?_eq_none : before.report? after observer node move = none ↔
    before.addresses? move ≠ some (observer, node) := by
  simp [report?]

section
variable [BEq V]

/-- The versions that a run reports to a listener of the node, in their order. -/
def reports (engine : Engine V) (observer : ObserverId) (node : NodeId) (moves : List (Move V)) :
    List Nat :=
  engine.record (fun before move after => (before.report? after observer node move).toList) moves

/-- Who is registered on the node when its version rises, for each time that it does in a run. -/
def audiences (engine : Engine V) (node : NodeId) (moves : List (Move V)) :
    List (List Subscriber) :=
  engine.record (fun before _ after =>
    if before.forest.version node < after.forest.version node then [before.forest.subscribers node]
    else []) moves

/-- The listener has last been told of the version that the node has, or has yet to be told. -/
def Current (engine : Engine V) (observer : ObserverId) (node : NodeId) (heard : List Nat) : Prop :=
  heard.getLast? = some (engine.forest.version node) ∨ engine.Due observer node

/-- Whoever was registered when the version last rose has heard of it, or is due. -/
def Informed (engine : Engine V) (observer : ObserverId) (node : NodeId) (heard : List Nat)
    (told : List (List Subscriber)) : Prop :=
  ∀ audience, told.getLast? = some audience → .observer observer ∈ audience →
    engine.Current observer node heard

theorem Sound.next (h : before.Sound) (hmove : before.move? move = some after) : after.Sound :=
  ((does_of_move? hmove).keeps h).sound

theorem version_le_of_move? (hsound : before.Sound) (hmove : before.move? move = some after)
    (node : NodeId) : before.forest.version node ≤ after.forest.version node :=
  ((does_of_move? hmove).keeps hsound).since.version node

/-- A run reports no version from before its start, and none that is older than one it has
reported. -/
theorem reports_sorted {moves : List (Move V)} (hsound : engine.Sound)
    (hplay : engine.play? moves = some finish) (observer : ObserverId) (node : NodeId) :
    (engine.reports observer node moves).Pairwise (· ≤ ·) ∧
      ∀ version ∈ engine.reports observer node moves, engine.forest.version node ≤ version := by
  induction moves generalizing engine with
  | nil => exact ⟨.nil, fun _ hmem => absurd hmem List.not_mem_nil⟩
  | cons move rest ih =>
    obtain ⟨next, hnext, hrest⟩ := play?_cons_eq_some.mp hplay
    have hrise := version_le_of_move? hsound hnext node
    obtain ⟨hsorted, hlater⟩ := ih (hsound.next hnext) hrest
    rw [reports, record_cons hnext, ← reports]
    cases hreport : engine.report? next observer node move with
    | none => exact ⟨hsorted, fun version hmem => hrise.trans (hlater version hmem)⟩
    | some reported =>
      obtain ⟨-, rfl⟩ := report?_eq_some.mp hreport
      refine ⟨List.pairwise_cons.mpr ⟨hlater, hsorted⟩, ?_⟩
      intro version hmem
      rcases List.mem_cons.mp hmem with rfl | hmem
      · exact hrise
      · exact hrise.trans (hlater version hmem)

/-- A call reports the version of the moment, and who is not called stays due. -/
theorem Current.next {heard : List Nat} (h : before.Current observer node heard)
    (hmove : before.move? move = some after)
    (hversion : after.forest.version node = before.forest.version node) :
    after.Current observer node (heard ++ (before.report? after observer node move).toList) := by
  cases hreport : before.report? after observer node move with
  | some reported =>
    obtain ⟨-, rfl⟩ := report?_eq_some.mp hreport
    exact .inl List.getLast?_concat
  | none =>
    rw [Option.toList_none, List.append_nil]
    rcases h with hlast | hdue
    · exact .inl (hlast.trans (congrArg some hversion.symm))
    · exact .inr ((hdue.kept hmove).resolve_right (report?_eq_none.mp hreport))

theorem Informed.next {heard : List Nat} {told : List (List Subscriber)}
    (h : before.Informed observer node heard told) (hsound : before.Sound)
    (hmove : before.move? move = some after) :
    after.Informed observer node (heard ++ (before.report? after observer node move).toList)
      (told ++ if before.forest.version node < after.forest.version node then
        [before.forest.subscribers node] else []) := by
  intro audience haudience hmem
  split at haudience
  · rename_i hrise
    obtain rfl := Option.some.inj (List.getLast?_concat.symm.trans haudience)
    exact .inr ((announces_of_move? hmove node).resolve_left (Nat.ne_of_gt hrise) observer hmem)
  · rename_i hsame
    rw [List.append_nil] at haudience
    have hversion := Nat.le_antisymm (Nat.le_of_not_lt hsame) (version_le_of_move? hsound hmove node)
    exact (h audience haudience hmem).next hmove hversion

theorem Informed.play {heard : List Nat} {told : List (List Subscriber)} {moves : List (Move V)}
    (h : engine.Informed observer node heard told) (hsound : engine.Sound)
    (hplay : engine.play? moves = some finish) :
    finish.Informed observer node (heard ++ engine.reports observer node moves)
      (told ++ engine.audiences node moves) := by
  induction moves generalizing engine heard told with
  | nil =>
    obtain rfl := Option.some.inj hplay
    rwa [reports, audiences, record, record, List.append_nil, List.append_nil]
  | cons move rest ih =>
    obtain ⟨next, hnext, hrest⟩ := play?_cons_eq_some.mp hplay
    rw [reports, audiences, record_cons hnext, record_cons hnext, ← reports, ← audiences,
      ← List.append_assoc, ← List.append_assoc]
    exact ih (h.next hsound hnext) (hsound.next hnext) hrest

/-- The versions of a node that a run reports to a listener never fall. Whoever was registered when
the version last rose, even if it has been removed since, has been told of the version that
the node has, or is due; and as long as somebody is due the operation can go on, unless a listener
is being called. So nobody has missed it when no operation is in progress, whatever the listeners
did in between. -/
theorem reports_reach_version {moves : List (Move V)}
    (hplay : ({} : Engine V).play? moves = some finish) (observer : ObserverId) (node : NodeId) :
    (({} : Engine V).reports observer node moves).Pairwise (· ≤ ·) ∧
    ∀ audience, (({} : Engine V).audiences node moves).getLast? = some audience →
      .observer observer ∈ audience →
        (finish.isIdle → (({} : Engine V).reports observer node moves).getLast? =
          some (finish.forest.version node)) ∧
        finish.Current observer node (({} : Engine V).reports observer node moves) ∧
        (finish.Due observer node → finish.step.isSome ∨ finish.callback?.isSome) := by
  refine ⟨(reports_sorted sound_empty hplay observer node).1, ?_⟩
  intro audience haudience hmem
  have hstart : ({} : Engine V).Informed observer node [] [] := fun _ h => by simp at h
  have hcurrent := hstart.play sound_empty hplay audience haudience hmem
  refine ⟨fun hidle => hcurrent.resolve_right (not_due_of_isIdle hidle), hcurrent, ?_⟩
  rintro ⟨subscribers, hmem, -⟩
  exact isSome_step_or_callback? (List.ne_nil_of_mem hmem)

end

/-- Two listeners follow a leaf, and the first edits the leaf while it is being told of an edit. -/
def nestedEdits : List (Move V) :=
  observedLeaf .empty ++ [.call (.observe 0 8), .call (.edit 0 (.set "key" "one")), .step,
    .call (.edit 0 (.set "key" "two")), .step, .resume, .step, .resume, .step, .resume, .step,
    .resume, .step]

/-- The second listener is told of the second edit before the telling of the first one comes to it,
and what it is told last is the version that the leaf has. -/
theorem reports_reach_version_nested : ∃ finish : Engine Nat,
    ({} : Engine Nat).play? nestedEdits = some finish ∧ finish.isIdle ∧
      ({} : Engine Nat).reports 7 0 nestedEdits = [1, 2] ∧
      (({} : Engine Nat).reports 8 0 nestedEdits).getLast? = some (finish.forest.version 0) := by
  refine ⟨_, rfl, rfl, by decide, ?_⟩
  have hreach := reports_reach_version (V := Nat)
    (show ({} : Engine Nat).play? nestedEdits = some _ from rfl) 8 0
  exact (hreach.2 [.observer 7, .observer 8] (by decide) (by decide)).1 rfl

end Overlay.Engine

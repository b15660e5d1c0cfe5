import Overlay.Proofs.Engine.Tellings
import Overlay.Proofs.Forest.Ascents

/-!
# Announcements

A listener of a node is due as long as some telling of the node has yet to come to it
(`Due`). Tellings are nested: an operation that a listener starts tells of its changes
above the telling that is going on, which waits. Nothing is taken off a telling but the
subscriber that is told next, so whoever is due stays so until the call is made
(`Due.kept`, `callback?_of_addresses?`). And a version is counted by the move that begins
the telling of it, with all who are registered at that moment (`announces_of_move?`).
-/

namespace Overlay

/-- A composite that gives up a child takes its own link off the child, and no listener. -/
theorem Forest.observes_detach {before after : Forest} {parent node : NodeId} {name : String}
    {child : Child} {observer : ObserverId}
    (h : before.detach parent name = some (child, after))
    (hmem : .observer observer ∈ before.subscribers node) :
    .observer observer ∈ after.subscribers node := by
  obtain ⟨-, rfl⟩ := detach_eq_some_iff.mp h
  rw [mem_subscribers_unsubscribe, subscribers_setChildren]
  refine ⟨hmem, ?_⟩
  rintro ⟨-, hlink⟩
  cases hlink

namespace Engine

variable {V : Type} {engine before middle after start finish : Engine V} {node : NodeId}
  {observer : ObserverId}

/-- The listener that a move tells of a change, and the node that has changed. -/
def addresses? (engine : Engine V) : Move V → Option (ObserverId × NodeId)
  | .step =>
    match engine.stack with
    | .tell node (.observer observer :: _) :: _ => some (observer, node)
    | _ => none
  | _ => none

/-- The listener has yet to be told of a change of the node. -/
def Due (engine : Engine V) (observer : ObserverId) (node : NodeId) : Prop :=
  ∃ subscribers, .tell node subscribers ∈ engine.stack ∧ .observer observer ∈ subscribers

/-- A node that has another version has yet to tell all of its listeners. -/
def Announces (before after : Engine V) : Prop :=
  ∀ node, after.forest.version node = before.forest.version node ∨
    ∀ observer, .observer observer ∈ before.forest.subscribers node → after.Due observer node

-- ---------------------------------------------------------------------------
-- Listeners who are due
-- ---------------------------------------------------------------------------

theorem not_due_of_isIdle (h : engine.isIdle) : ¬ engine.Due observer node := by
  rintro ⟨subscribers, hmem, -⟩
  rw [List.isEmpty_iff.mp h] at hmem
  exact List.not_mem_nil hmem

/-- What the telling on top of the stack says is addressed to its next subscriber. -/
theorem addresses?_of_informs? {pending : List Subscriber} {base : List (Frame V)} {move : Move V}
    {height : Nat} (hstack : before.stack = .tell node pending :: base)
    (h : before.informs? height move = some (.observer observer)) :
    before.addresses? move = some (observer, node) := by
  cases move with
  | step =>
    simp only [informs?, addresses?, hstack] at h ⊢
    cases pending with
    | nil => simp at h
    | cons subscriber pending =>
      obtain ⟨-, rfl⟩ := by simpa using h
      rfl
  | _ => simp [informs?] at h

section
variable [BEq V] {move : Move V}

theorem callback?_of_addresses? (h : before.addresses? move = some (observer, node))
    (hmove : before.move? move = some after) : after.callback? = some (.node observer node) := by
  cases move with
  | step =>
    simp only [addresses?] at h
    split at h
    · rename_i hstack
      cases h
      simp only [move?, step, hstack] at hmove
      obtain rfl := Option.some.inj hmove
      rfl
    · simp at h
  | _ => simp [addresses?] at h

/-- Whoever is due stays due until the call is made. -/
theorem Due.kept (h : before.Due observer node) (hmove : before.move? move = some after) :
    after.Due observer node ∨ before.addresses? move = some (observer, node) := by
  obtain ⟨subscribers, hmem, hobserver⟩ := h
  obtain ⟨frame, rest, hstack⟩ := List.exists_cons_of_ne_nil (List.ne_nil_of_mem hmem)
  rw [hstack] at hmem
  rcases List.mem_cons.mp hmem with rfl | hrest
  · rcases stack_of_telling hstack hmove with ⟨rfl, -⟩ | ⟨subscriber, left, rfl, hleft, hinforms⟩
    · exact absurd hobserver List.not_mem_nil
    · rcases List.mem_cons.mp hobserver with rfl | hobserver
      · exact .inr (addresses?_of_informs? hstack hinforms)
      · exact .inl ⟨left, hleft.subset List.mem_cons_self, hobserver⟩
  · exact .inl ⟨subscribers, (stack_of_move? hstack hmove).subset hrest, hobserver⟩

end

-- ---------------------------------------------------------------------------
-- A version that is counted
-- ---------------------------------------------------------------------------

theorem announces_of_version
    (h : ∀ node, after.forest.version node = before.forest.version node) :
    before.Announces after := fun node => .inl (h node)

theorem announces_of_forest_eq (h : after.forest = before.forest) : before.Announces after :=
  announces_of_version fun _ => by rw [h]

/-- The node that has changed tells everybody who listens to it. -/
theorem announces_announce {forest : Forest} {id : NodeId} {stack : List (Frame V)}
    (hversion : ∀ other, other ≠ id → forest.version other = before.forest.version other)
    (hobservers : ∀ observer, .observer observer ∈ before.forest.subscribers id →
      .observer observer ∈ forest.subscribers id) :
    before.Announces ({ before with forest, stack }.announce id) := by
  intro node
  by_cases hnode : node = id
  · subst hnode
    right
    intro observer hmem
    exact ⟨_, List.mem_cons_self, hobservers observer hmem⟩
  · exact .inl (hversion node hnode)

theorem announces_edit (id : NodeId) (edit : Edit) (stack : List (Frame V)) :
    before.Announces ({ before with stack }.edit id edit).2 := by
  rw [edit_snd]
  split
  · rename_i hchanged
    refine announces_announce (fun other hne => (Forest.revises_edit hchanged).version_of_ne hne) ?_
    intro observer hmem
    rwa [Forest.subscribers_edit]
  · rename_i hsame
    refine announces_of_forest_eq ?_
    exact Forest.edit_unchanged (Bool.eq_false_iff.mpr hsame)

theorem announces_attach (parent : NodeId) (place : Place) (name : String) (child : NodeId) :
    before.Announces (before.attach parent place name child) := by
  refine announces_announce (fun other hne => Forest.revises_attach.version_of_ne hne) ?_
  intro observer hmem
  rw [Forest.subscribers_bump]
  exact Forest.mem_subscribers_attach.mpr (.inl hmem)

theorem announces_detach (parent : NodeId) (name : String) :
    before.Announces (before.detach parent name).2 := by
  unfold detach
  split
  · exact announces_of_forest_eq rfl
  · rename_i child forest hdetach
    refine announces_announce
      (fun other hne => (Forest.revises_detach hdetach).version_of_ne hne) ?_
    intro observer hmem
    show _ ∈ (forest.bump parent).subscribers parent
    rw [Forest.subscribers_bump]
    exact Forest.observes_detach hdetach hmem

/-- A composite that hears of a change counts a version and tells its listeners in turn. -/
theorem announces_tell (id : NodeId) (subscriber : Subscriber) (stack : List (Frame V)) :
    before.Announces ({ before with stack }.tell id subscriber) := by
  cases subscriber with
  | registry registry => exact announces_of_forest_eq rfl
  | observer observer => exact announces_of_forest_eq rfl
  | link parent link =>
    unfold tell
    dsimp only
    split
    · exact announces_of_version fun _ => Forest.version_prune _
    · refine announces_announce (fun other hne => ?_) ?_
      · rw [(Forest.revises_bump parent).version_of_ne hne, Forest.version_prune]
      · intro observer hmem
        rwa [Forest.subscribers_bump, Forest.subscribers_prune]

section
variable [BEq V] {move : Move V}

theorem announces_start (call : Call V) : before.Announces (before.start call) := by
  have hplant (planted : Node) (hfresh : planted.version = 0) :
      before.Announces (before.plant planted).2 :=
    announces_of_version fun _ => Forest.version_plant hfresh
  cases call with
  | fixed name entries => exact hplant _ rfl
  | settable name entries => exact hplant _ rfl
  | composite name => exact hplant _ rfl
  | edit id edit => exact announces_edit id edit before.stack
  | attach parent place name child => exact announces_attach parent place name child
  | attachUnique parent name child =>
    simp only [start, attachUnique]
    split
    · exact announces_of_forest_eq rfl
    · exact announces_attach parent .last name child
  | detach parent name => exact announces_detach parent name
  | observe id observer => exact announces_of_version fun _ => Forest.version_subscribe
  | unobserve id observer => exact announces_of_version fun _ => Forest.version_unsubscribe
  | openRegistry root policy delimiter eager =>
    simp only [start, openRegistry_eq, forestWith]
    split
    · exact announces_of_version fun _ => Forest.version_subscribe
    · exact announces_of_forest_eq rfl
  | closeRegistry id =>
    simp only [start, closeRegistry]
    split
    · exact announces_of_forest_eq rfl
    · exact announces_of_version fun _ => Forest.version_unsubscribe
  | absorb id answer =>
    simp only [start, absorb]
    split
    · exact announces_of_forest_eq rfl
    · exact announces_of_forest_eq rfl
    · rename_i poller response _
      let settle : Frame V := .settle id response.checkpoint
        (before.forest.edit poller.target (.update response.content)).1
      have hedit : before.Announces ({ before with stack := settle :: before.stack }.edit
          poller.target (.update response.content)).2 := announces_edit poller.target _ _
      exact hedit
  | reload leaf source file =>
    simp only [start, reload]
    split
    · exact announces_of_forest_eq rfl
    · rename_i entries _
      show before.Announces (before.edit leaf (.update (.snapshot entries))).2
      exact announces_edit leaf _ before.stack
  | _ => exact announces_of_forest_eq (forest_start rfl)

theorem announces_of_move? (h : before.move? move = some after) : before.Announces after := by
  by_cases hspares : move.sparesNodes = true
  · rcases forest_of_move? hspares h with hforest | ⟨stack, id, subscriber, rfl⟩
    · exact announces_of_forest_eq hforest
    · exact announces_tell id subscriber stack
  · cases move with
    | call call =>
      obtain ⟨-, hstart⟩ := Option.ite_none_right_eq_some.mp h
      exact Option.some.inj hstart ▸ announces_start call
    | _ => exact absurd rfl hspares

end

end Engine

end Overlay

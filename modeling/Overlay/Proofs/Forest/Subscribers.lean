import Overlay.Proofs.Forest.Views

/-!
# Subscribers

Nobody is subscribed to a node twice (`Forest.Distinct`): whoever subscribes again stays
where it is. So a pass over the subscribers of a node tells each of them once.
-/

namespace Overlay

theorem Node.nodup_subscribe {node : Node} (h : node.subscribers.Nodup) (subscriber : Subscriber) :
    (node.subscribe subscriber).subscribers.Nodup := by
  unfold Node.subscribe
  split
  · exact h
  · rename_i hnew
    refine List.nodup_append.mpr ⟨h, List.pairwise_singleton _ _, ?_⟩
    rintro other hmem _ hsingle rfl
    obtain rfl := List.mem_singleton.mp hsingle
    exact hnew hmem

theorem Node.nodup_unsubscribe {node : Node} (h : node.subscribers.Nodup)
    (subscriber : Subscriber) : (node.unsubscribe subscriber).subscribers.Nodup :=
  h.filter _

namespace Forest

variable {forest before after : Forest} {id parent node : NodeId}

def Distinct (forest : Forest) : Prop :=
  ∀ id node, forest.node? id = some node → node.subscribers.Nodup

theorem distinct_empty : ({} : Forest).Distinct := by
  intro id node hnode
  simp [node?] at hnode

theorem Distinct.subscribers (h : forest.Distinct) (id : NodeId) :
    (forest.subscribers id).Nodup := by
  unfold Forest.subscribers
  cases hnode : forest.node? id with
  | none => exact List.nodup_nil
  | some node => exact h id node hnode

theorem Distinct.modify (h : forest.Distinct) {f : Node → Node}
    (hf : ∀ node, node.subscribers.Nodup → (f node).subscribers.Nodup) :
    (forest.modify id f).Distinct := by
  intro other node hnode
  rw [node?_modify] at hnode
  obtain ⟨old, hold, rfl⟩ := Option.map_eq_some_iff.mp hnode
  split
  · exact hf old (h other old hold)
  · exact h other old hold

theorem Distinct.bump (h : forest.Distinct) : (forest.bump id).Distinct :=
  h.modify fun _ hnodup => hnodup

theorem Distinct.subscribe (h : forest.Distinct) {subscriber : Subscriber} :
    (forest.subscribe id subscriber).Distinct :=
  h.modify fun _ hnodup => Node.nodup_subscribe hnodup subscriber

theorem Distinct.unsubscribe (h : forest.Distinct) {subscriber : Subscriber} :
    (forest.unsubscribe id subscriber).Distinct :=
  h.modify fun _ hnodup => Node.nodup_unsubscribe hnodup subscriber

theorem Distinct.setChildren (h : forest.Distinct) {children : List Child} :
    (forest.setChildren id children).Distinct :=
  h.modify fun _ hnodup => hnodup

theorem Distinct.attach (h : forest.Distinct) {place : Place} {name : String} :
    (forest.attach parent place name node).Distinct := by
  have hlinked : ({ forest with links := forest.links + 1 } : Forest).Distinct := h
  exact hlinked.setChildren.subscribe

theorem Distinct.detach (h : before.Distinct) {name : String} {child : Child}
    (hdetach : before.detach parent name = some (child, after)) : after.Distinct := by
  obtain ⟨-, rfl⟩ := detach_eq_some_iff.mp hdetach
  exact h.setChildren.unsubscribe

theorem Distinct.plant (h : forest.Distinct) {planted : Node} (hnew : planted.subscribers = []) :
    (forest.plant planted).2.Distinct := by
  intro other node hnode
  rw [node?_plant] at hnode
  split at hnode
  · obtain rfl := Option.some.inj hnode
    rw [hnew]
    exact List.nodup_nil
  · exact h other node hnode

theorem Distinct.edit (h : forest.Distinct) (edit : Edit) : (forest.edit id edit).2.Distinct := by
  rcases edit_eq forest id edit with heq | ⟨_, _, _, -, -, -, heq⟩
  · rw [heq]
    exact h
  · rw [heq]
    exact h.modify fun _ hnodup => hnodup

theorem Distinct.prune (h : forest.Distinct) (roots : List NodeId) :
    (forest.prune roots).Distinct := by
  intro other node hnode
  rw [node?_prune] at hnode
  obtain ⟨old, hold, rfl⟩ := Option.map_eq_some_iff.mp hnode
  exact h other old hold

end Forest

end Overlay

import Mathlib
import Overlay.Proofs.Forest.Answers
import Overlay.Proofs.Tree.Dumps

/-!
# Dumps lose nothing

The dump of a node shows every node below it as an object: a leaf with its entries, a composite
with a member for each child, under the child's name or the first numbered name that is free
(`Forest.Renders`). Whatever the names are, the texts under a key are the values of its
definitions (`dump_renders`).
-/

namespace Overlay.Forest

variable {forest : Forest} {id : NodeId}

/-- How a node is shown by a dump. -/
inductive Renders (forest : Forest) : NodeId → Dump → Prop
  | leaf {id : NodeId} (hleaf : (forest.node? id).any Node.isComposite = false) :
    Renders forest id
      (.object ((forest.entries id).toList.map fun pair => (pair.1, .text pair.2)))
  | composite {id : NodeId} {members : List (String × Dump)}
      (hcomposite : (forest.node? id).any Node.isComposite = true)
      (hlength : members.length = (forest.children id).length)
      (hnodup : (members.map (·.1)).Nodup)
      (hslot : ∀ (index : Nat) (child : Child) (member : String × Dump),
        (forest.children id)[index]? = some child → members[index]? = some member →
          Dump.Slot ((members.take index).map (·.1)) child.name member.1)
      (hbelow : ∀ (index : Nat) (child : Child) (member : String × Dump),
        (forest.children id)[index]? = some child → members[index]? = some member →
          Renders forest child.node member.2) :
    Renders forest id (.object members)

theorem exists_unfold_eq_composite (h : (forest.node? id).any Node.isComposite = true)
    (fuel : Nat) : ∃ name, forest.unfold (fuel + 1) id =
      .composite name ((forest.children id).map fun child =>
        (child.name, forest.unfold fuel child.node)) := by
  cases hnode : forest.node? id with
  | none => simp [hnode] at h
  | some node =>
    obtain ⟨name, content, version, subscribers, gone⟩ := node
    cases content with
    | composite children =>
      exact ⟨name, by simp [unfold, Forest.children, Node.children, hnode]⟩
    | fixed entries | settable entries => simp [hnode, Node.isComposite] at h

theorem exists_unfold_eq_leaf (h : (forest.node? id).any Node.isComposite = false) (fuel : Nat) :
    ∃ name, forest.unfold (fuel + 1) id = .leaf name (forest.entries id) := by
  cases hnode : forest.node? id with
  | none => exact ⟨"", by simp [unfold, Forest.entries, hnode]⟩
  | some node =>
    obtain ⟨name, content, version, subscribers, gone⟩ := node
    cases content with
    | composite children => simp [hnode, Node.isComposite] at h
    | fixed entries | settable entries =>
      exact ⟨name, by simp [unfold, Forest.entries, hnode]⟩

theorem renders_composite {members : List (String × Dump)} (dump : NodeId → Dump)
    (hcomposite : (forest.node? id).any Node.isComposite = true)
    (hlength : members.length = (forest.children id).length) (hnodup : (members.map (·.1)).Nodup)
    (hmembers : ∀ index : Nat, members[index]? = (forest.children id)[index]?.map fun child =>
      (Dump.freeName child.name ((members.take index).map (·.1)), dump child.node))
    (hbelow : ∀ child ∈ forest.children id, forest.Renders child.node (dump child.node)) :
    forest.Renders id (.object members) := by
  refine .composite hcomposite hlength hnodup ?_ ?_
  · intro index child member hchild hmember
    rw [hmembers, hchild] at hmember
    obtain rfl := Option.some.inj hmember
    exact Dump.slot_freeName _ _
  · intro index child member hchild hmember
    rw [hmembers, hchild] at hmember
    obtain rfl := Option.some.inj hmember
    exact hbelow child (List.mem_of_getElem? hchild)

theorem renders_unfold {fuel : Nat} (h : forest.Fits fuel id) :
    forest.Renders id (.object (forest.unfold fuel id).members) := by
  induction fuel generalizing id with
  | zero =>
    have hnot : ¬ forest.Has id := (h [] id rfl).2 rfl
    have hleaf : (forest.node? id).any Node.isComposite = false := by
      cases hnode : forest.node? id with
      | none => rfl
      | some node => exact absurd (has_iff.mpr ⟨node, hnode⟩) hnot
    have hrenders : forest.Renders id _ := .leaf hleaf
    rw [entries_of_not_has hnot] at hrenders
    exact hrenders
  | succ fuel ih =>
    cases hcomposite : (forest.node? id).any Node.isComposite with
    | false =>
      obtain ⟨name, hunfold⟩ := exists_unfold_eq_leaf hcomposite fuel
      rw [hunfold]
      exact .leaf hcomposite
    | true =>
      obtain ⟨name, hunfold⟩ := exists_unfold_eq_composite hcomposite fuel
      have hnodup := (forest.unfold (fuel + 1) id).nodup_members
      rw [hunfold, Tree.members] at hnodup ⊢
      refine renders_composite (fun node => .object (forest.unfold fuel node).members) hcomposite
        (by simp [Tree.length_membersIn]) hnodup (fun index => ?_)
        fun child hchild => ih (h.child hchild)
      rw [Tree.getElem?_membersIn, List.getElem?_map, Option.map_map]
      rfl

/-- A dump shows every node below the one it is of, and under each key the values that the search
for its definitions finds. -/
theorem dump_renders (hacyclic : forest.AcyclicBelow id) :
    forest.Renders id (forest.tree id).dump ∧
      ((forest.node? id).any Node.isComposite = true → ∀ key,
        ((forest.tree id).dump.texts key : Multiset String) =
          ((forest.tree id).explain key).map (·.value)) := by
  constructor
  · rw [Tree.dump_eq]
    exact renders_unfold hacyclic.fits
  · intro hcomposite key
    obtain ⟨name, children, htree⟩ := exists_tree_eq_composite hcomposite
    rw [htree, Tree.texts_dump]

/-- Two children of one name, and between them one that has the name which the second would get. -/
def crowdedNames : Forest where
  nodes := [
    .settable "first" (.ofPairs [("key", "one")]), .settable "second" (.ofPairs [("key", "two")]),
    { name := "outer", content := .composite [⟨"dup", 0, 0⟩, ⟨"dup#2", 1, 1⟩, ⟨"dup", 0, 2⟩] }]
  links := 3

theorem dump_renders_crowded :
    crowdedNames.AcyclicBelow 2 ∧ crowdedNames.Renders 2 (crowdedNames.tree 2).dump ∧
      (∃ members, (crowdedNames.tree 2).dump = .object members ∧
        members.map (·.1) = ["dup", "dup#2", "dup#3"]) ∧
      ((crowdedNames.tree 2).dump.texts "key" : Multiset String) = ↑["one", "two", "one"] := by
  have hacyclic : crowdedNames.AcyclicBelow 2 := fun node _ => acyclic_of_lt (by decide) node
  obtain ⟨hrenders, htexts⟩ := dump_renders hacyclic
  refine ⟨hacyclic, hrenders, ⟨_, Tree.dump_eq _, by decide⟩, ?_⟩
  rw [htexts rfl "key"]
  decide

end Overlay.Forest

import Mathlib.Data.List.Perm.Subperm
import Mathlib.Logic.Relation
import Overlay.Proofs.Forest.Views

/-!
# Downward paths

What lies below a node is what a downward path leads to. A path need not meet a
node twice, and only nodes of the forest have children, so no more steps are
needed than the forest has nodes: `Forest.reach` finds everything
(`mem_reach_iff`), and `Forest.prune` keeps exactly what can be reached
(`gone_prune`). In an acyclic forest every path is that short, and the tree below
a node does not depend on the depth to which it is unfolded
(`unfold_eq_of_acyclic`).
-/

namespace Overlay.Forest

variable {forest : Forest} {id target : NodeId}

/-- The node holds this one as a child. -/
def Holds (forest : Forest) (parent node : NodeId) : Prop :=
  ∃ child ∈ forest.children parent, child.node = node

/-- The node lies at or below another. -/
def Reaches (forest : Forest) : NodeId → NodeId → Prop := Relation.ReflTransGen forest.Holds

/-- No node lies below itself. -/
def Acyclic (forest : Forest) : Prop := ∀ id, ¬ Relation.TransGen forest.Holds id id

/-- A downward path: the nodes passed behind the first one, up to the target. -/
def Path (forest : Forest) : NodeId → List NodeId → NodeId → Prop
  | id, [], target => id = target
  | id, next :: rest, target => forest.Holds id next ∧ forest.Path next rest target

theorem Holds.has {parent node : NodeId} (h : forest.Holds parent node) : forest.Has parent := by
  obtain ⟨child, hchild, -⟩ := h
  exact has_of_mem_children hchild

/-- Who holds whom is seen in the children. -/
theorem holds_congr {before after : Forest}
    (h : ∀ id, after.children id = before.children id) : after.Holds = before.Holds := by
  funext parent node
  simp only [Holds, h]

theorem Path.reaches {path : List NodeId} (h : forest.Path id path target) :
    forest.Reaches id target := by
  induction path generalizing id with
  | nil => exact h ▸ .refl
  | cons next rest ih => exact .head h.1 (ih h.2)

/-- From any node on a path, the rest of it leads to the same target. -/
theorem Path.from_mem {path : List NodeId} {node : NodeId} (h : forest.Path id path target)
    (hmem : node ∈ id :: path) :
    ∃ rest, forest.Path node rest target ∧ (node :: rest).Sublist (id :: path) := by
  induction path generalizing id with
  | nil =>
    obtain rfl := List.mem_singleton.mp hmem
    exact ⟨[], h, .refl _⟩
  | cons next rest ih =>
    rcases List.mem_cons.mp hmem with rfl | hmem
    · exact ⟨next :: rest, h, .refl _⟩
    · obtain ⟨tail, htail, hsub⟩ := ih h.2 hmem
      exact ⟨tail, htail, hsub.cons _⟩

/-- Every node of a path lies at or below its first one. -/
theorem Path.reaches_of_mem {path : List NodeId} {node : NodeId} (h : forest.Path id path target)
    (hmem : node ∈ id :: path) : forest.Reaches id node := by
  induction path generalizing id with
  | nil => exact List.mem_singleton.mp hmem ▸ .refl
  | cons next rest ih =>
    rcases List.mem_cons.mp hmem with rfl | hmem
    · exact .refl
    · exact .head h.1 (ih h.2 hmem)

theorem Reaches.exists_nodup_path (h : forest.Reaches id target) :
    ∃ path, forest.Path id path target ∧ (id :: path).Nodup := by
  induction h using Relation.ReflTransGen.head_induction_on with
  | refl => exact ⟨[], rfl, by simp⟩
  | @head id next hstep _ ih =>
    obtain ⟨path, hpath, hnodup⟩ := ih
    by_cases hmem : id ∈ next :: path
    · obtain ⟨rest, hrest, hsub⟩ := hpath.from_mem hmem
      exact ⟨rest, hrest, hnodup.sublist hsub⟩
    · exact ⟨next :: path, ⟨hstep, hpath⟩, List.nodup_cons.mpr ⟨hmem, hnodup⟩⟩

/-- Every node of a path but the last one has children. -/
theorem Path.has_of_mem_dropLast {path : List NodeId} {node : NodeId}
    (h : forest.Path id path target) (hmem : node ∈ (id :: path).dropLast) : forest.Has node := by
  induction path generalizing id with
  | nil => simp at hmem
  | cons next rest ih =>
    rw [List.dropLast_cons_cons, List.mem_cons] at hmem
    rcases hmem with rfl | hmem
    · exact h.1.has
    · exact ih h.2 hmem

theorem length_le_of_nodup {ids : List NodeId} {bound : Nat} (hnodup : ids.Nodup)
    (hlt : ∀ id ∈ ids, id < bound) : ids.length ≤ bound := by
  have hsub : ids ⊆ List.range bound := fun id hid => List.mem_range.mpr (hlt id hid)
  simpa using (List.subperm_of_subset hnodup hsub).length_le

theorem Path.length_le_of_nodup {path : List NodeId} (h : forest.Path id path target)
    (hnodup : (id :: path).Nodup) : path.length ≤ forest.nodes.length := by
  have hlen := Forest.length_le_of_nodup (hnodup.sublist (List.dropLast_sublist _))
    fun _ hmem => h.has_of_mem_dropLast hmem
  simpa using hlen

-- ---------------------------------------------------------------------------
-- Everything below some nodes
-- ---------------------------------------------------------------------------

theorem mem_reach_iff_path {depth : Nat} {ids : List NodeId} :
    target ∈ forest.reach depth ids ↔
      ∃ id ∈ ids, ∃ path, forest.Path id path target ∧ path.length ≤ depth := by
  induction depth generalizing ids with
  | zero =>
    constructor
    · exact fun h => ⟨target, h, [], rfl, Nat.le_refl _⟩
    · rintro ⟨id, hid, path, hpath, hlen⟩
      obtain rfl := List.eq_nil_of_length_eq_zero (Nat.le_zero.mp hlen)
      exact hpath ▸ hid
  | succ depth ih =>
    simp only [reach, List.mem_append, ih, List.mem_eraseDups, List.mem_flatMap, List.mem_map]
    constructor
    · rintro (h | ⟨next, ⟨id, hid, hnext⟩, path, hpath, hlen⟩)
      · exact ⟨target, h, [], rfl, Nat.zero_le _⟩
      · exact ⟨id, hid, next :: path, ⟨hnext, hpath⟩, Nat.succ_le_succ hlen⟩
    · rintro ⟨id, hid, path, hpath, hlen⟩
      cases path with
      | nil => exact .inl (hpath ▸ hid)
      | cons next rest =>
        exact .inr ⟨next, ⟨id, hid, hpath.1⟩, rest, hpath.2, Nat.le_of_succ_le_succ hlen⟩

/-- As many steps as there are nodes lead everywhere. -/
theorem mem_reach_iff {ids : List NodeId} :
    target ∈ forest.reach forest.nodes.length ids ↔ ∃ id ∈ ids, forest.Reaches id target := by
  rw [mem_reach_iff_path]
  constructor
  · rintro ⟨id, hid, path, hpath, -⟩
    exact ⟨id, hid, hpath.reaches⟩
  · rintro ⟨id, hid, hreach⟩
    obtain ⟨path, hpath, hnodup⟩ := hreach.exists_nodup_path
    exact ⟨id, hid, path, hpath, hpath.length_le_of_nodup hnodup⟩

theorem gone_prune {roots : List NodeId} :
    (forest.prune roots).gone target = false ↔
      forest.gone target = false ∧ ∃ root ∈ roots, forest.Reaches root target := by
  rw [← mem_reach_iff]
  simp only [gone, node?_prune]
  cases forest.node? target with
  | none => simp
  | some node => simp

-- ---------------------------------------------------------------------------
-- The tree below a node
-- ---------------------------------------------------------------------------

theorem name_eq : forest.name id = ((forest.face? id).map (·.1)).getD "" := by
  cases h : forest.node? id with
  | none => simp [name, face?, h]
  | some node => simp [name, face?, h, Node.face]

/-- Unfolding by one more level follows the children of a composite. -/
theorem unfold_succ (fuel : Nat) :
    forest.unfold (fuel + 1) id =
      match forest.face? id with
      | none => .leaf "" .empty
      | some (name, .fixed entries) | some (name, .settable entries) => .leaf name entries
      | some (name, .composite children) =>
        .composite name
          (children.map fun child => (child.name, forest.unfold fuel child.node)) := by
  rw [unfold]
  cases h : forest.node? id with
  | none => simp [face?, h]
  | some node =>
    obtain ⟨_, content, _, _, _⟩ := node
    cases content <;> simp [face?, h, Node.face]

/-- Two forests that show the same on a set of nodes closed under children have
the same trees below these nodes. -/
theorem unfold_congr {before after : Forest} {within : NodeId → Prop}
    (hface : ∀ id, within id → after.face? id = before.face? id)
    (hclosed : ∀ id, within id → ∀ child ∈ before.children id, within child.node)
    (fuel : Nat) (hid : within id) : after.unfold fuel id = before.unfold fuel id := by
  induction fuel generalizing id with
  | zero => simp only [unfold, name_eq, hface id hid]
  | succ fuel ih =>
    have hchildren := hclosed id hid
    rw [children_eq] at hchildren
    rw [unfold_succ, unfold_succ, hface id hid]
    split
    · rfl
    · rfl
    · rfl
    · rename_i name children hcomposite
      rw [hcomposite] at hchildren
      congr 1
      refine List.map_congr_left fun child hchild => ?_
      rw [ih (hchildren child hchild)]

/-- Once all paths have been followed to their ends, more fuel adds nothing. -/
theorem unfold_eq_of_path_lt {fuel more : Nat}
    (hpaths : ∀ path target, forest.Path id path target → path.length < fuel) (hle : fuel ≤ more) :
    forest.unfold more id = forest.unfold fuel id := by
  induction fuel generalizing id more with
  | zero => exact absurd (hpaths [] id rfl) (Nat.lt_irrefl 0)
  | succ fuel ih =>
    obtain ⟨more, rfl⟩ : ∃ m, more = m + 1 := ⟨more - 1, by omega⟩
    rw [unfold_succ, unfold_succ]
    split
    · rfl
    · rfl
    · rfl
    · rename_i name children hcomposite
      congr 1
      refine List.map_congr_left fun child hchild => ?_
      have hholds : forest.Holds id child.node := by
        refine ⟨child, ?_, rfl⟩
        rw [children_eq, hcomposite]
        exact hchild
      rw [ih (fun path target hpath => ?_) (Nat.le_of_succ_le_succ hle)]
      exact Nat.lt_of_succ_lt_succ (hpaths (child.node :: path) target ⟨hholds, hpath⟩)

theorem Acyclic.nodup_path (hacyclic : forest.Acyclic) {path : List NodeId}
    (h : forest.Path id path target) : (id :: path).Nodup := by
  induction path generalizing id with
  | nil => exact by simp
  | cons next rest ih =>
    -- a node met again would lie below itself
    have hnot : id ∉ next :: rest := fun hmem => hacyclic id (.head' h.1 (h.2.reaches_of_mem hmem))
    exact List.nodup_cons.mpr ⟨hnot, ih h.2⟩

/-- A forest in which children are older than what holds them is acyclic. -/
theorem acyclic_of_lt
    (h : ∀ parent ∈ List.range forest.nodes.length, ∀ child ∈ forest.children parent,
      child.node < parent) : forest.Acyclic := by
  have hstep {parent node : NodeId} (hholds : forest.Holds parent node) : node < parent := by
    obtain ⟨child, hchild, rfl⟩ := hholds
    exact h parent (List.mem_range.mpr (has_of_mem_children hchild)) child hchild
  have hbelow {top node : NodeId} (hpath : Relation.TransGen forest.Holds top node) :
      node < top := by
    induction hpath with
    | single hholds => exact hstep hholds
    | tail _ hholds ih => exact Nat.lt_trans (hstep hholds) ih
  exact fun id hcycle => Nat.lt_irrefl id (hbelow hcycle)

/-- In an acyclic forest the depth of the unfolding does not matter as soon as it
exceeds the number of every node below. -/
theorem unfold_eq_of_acyclic (hacyclic : forest.Acyclic) {bound more : Nat}
    (hbound : ∀ target, forest.Reaches id target → target < bound) (hle : bound ≤ more) :
    forest.unfold more id = forest.unfold bound id := by
  refine unfold_eq_of_path_lt (fun path target hpath => ?_) hle
  have hlen := Forest.length_le_of_nodup (hacyclic.nodup_path hpath)
    fun node hnode => hbound node (hpath.reaches_of_mem hnode)
  rw [List.length_cons] at hlen
  exact hlen

end Overlay.Forest

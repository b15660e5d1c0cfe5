import Overlay.Proofs.Forest.Routes
import Overlay.Proofs.Tree.Answers

/-!
# One composite, five answers

What a node of a forest is asked, the tree below it answers. The routes of the
tree are those of the forest, as long as no node below lies below itself, and a
definition is found at the end of each (`answers_agree`).
-/

namespace Overlay.Forest

variable {forest : Forest} {id target : NodeId} {key : String} {depth : Nat}

/-- No node at or below this one lies below itself. -/
def AcyclicBelow (forest : Forest) (id : NodeId) : Prop :=
  ∀ node, forest.Reaches id node → ¬ Relation.TransGen forest.Holds node node

theorem AcyclicBelow.child {child : Child} (h : forest.AcyclicBelow id)
    (hchild : child ∈ forest.children id) : forest.AcyclicBelow child.node :=
  fun node hreach => h node (.head ⟨child, hchild, rfl⟩ hreach)

theorem AcyclicBelow.nodup_path {path : List NodeId} (hacyclic : forest.AcyclicBelow id)
    (h : forest.Path id path target) : (id :: path).Nodup := by
  induction path generalizing id with
  | nil => simp
  | cons next rest ih =>
    obtain ⟨⟨child, hchild, rfl⟩, hrest⟩ := h
    refine List.nodup_cons.mpr ⟨fun hmem => ?_, ih (hacyclic.child hchild) hrest⟩
    exact hacyclic id .refl (.head' ⟨child, hchild, rfl⟩ (hrest.reaches_of_mem hmem))

/-- What a leaf of the forest says about a key. The depth is the number of composites passed. -/
def definition? (forest : Forest) (id : NodeId) (key : String) (route : List Nat) :
    Option Resolution :=
  (forest.follow id route).bind fun leaf =>
    ((forest.entries leaf).get? key).map fun value => ⟨value, forest.name leaf, route.length⟩

-- ---------------------------------------------------------------------------
-- The routes of the tree
-- ---------------------------------------------------------------------------

theorem children_unfold (fuel : Nat) :
    (forest.unfold (fuel + 1) id).children =
      (forest.children id).map fun child => (child.name, forest.unfold fuel child.node) := by
  cases hnode : forest.node? id with
  | none => simp [unfold, hnode, Forest.children, Tree.children]
  | some node =>
    cases hcontent : node.content <;>
      simp [unfold, hnode, hcontent, Forest.children, Tree.children, Node.children_eq,
        Content.children]

theorem name_unfold (fuel : Nat) : (forest.unfold fuel id).name = forest.name id := by
  cases fuel with
  | zero => rfl
  | succ fuel =>
    cases hnode : forest.node? id with
    | none => simp [unfold, hnode, Forest.name, Tree.name]
    | some node =>
      cases hcontent : node.content <;> simp [unfold, hnode, hcontent, Forest.name, Tree.name]

theorem entries_of_not_has (h : ¬ forest.Has id) : forest.entries id = .empty := by
  cases hnode : forest.node? id with
  | none => simp [Forest.entries, hnode]
  | some node => exact absurd (has_iff.mpr ⟨node, hnode⟩) h

theorem children_of_not_has (h : ¬ forest.Has id) : forest.children id = [] :=
  List.eq_nil_iff_forall_not_mem.mpr fun _ hchild => h (has_of_mem_children hchild)

theorem entries_unfold (fuel : Nat) :
    (forest.unfold (fuel + 1) id).entries = forest.entries id := by
  cases hnode : forest.node? id with
  | none => simp [unfold, hnode, Forest.entries, Tree.entries]
  | some node =>
    obtain ⟨name, content, version, subscribers, gone⟩ := node
    cases content <;> simp [unfold, hnode, Forest.entries, Tree.entries]

theorem Path.has_of_mem {path : List NodeId} {node : NodeId} (h : forest.Path id path target)
    (htarget : forest.Has target) (hmem : node ∈ id :: path) : forest.Has node := by
  induction path generalizing id with
  | nil => exact List.mem_singleton.mp hmem ▸ h ▸ htarget
  | cons next rest ih =>
    cases hmem with
    | head => exact h.1.has
    | tail _ hmem => exact ih h.2 hmem

/-- A path that uses up the fuel ends at a node that is not there. -/
def Fits (forest : Forest) (fuel : Nat) (id : NodeId) : Prop :=
  ∀ path target, forest.Path id path target →
    path.length ≤ fuel ∧ (path.length = fuel → ¬ forest.Has target)

theorem AcyclicBelow.fits (h : forest.AcyclicBelow id) : forest.Fits forest.nodes.length id := by
  intro path target hpath
  have hnodup := h.nodup_path hpath
  refine ⟨hpath.length_le_of_nodup hnodup, fun hlen hhas => ?_⟩
  have hle := Forest.length_le_of_nodup hnodup fun node hmem => hpath.has_of_mem hhas hmem
  simp only [List.length_cons, hlen] at hle
  exact Nat.not_succ_le_self _ hle

theorem Fits.child {fuel : Nat} {child : Child} (h : forest.Fits (fuel + 1) id)
    (hchild : child ∈ forest.children id) : forest.Fits fuel child.node := by
  intro path target hpath
  obtain ⟨hle, hlast⟩ := h (child.node :: path) target ⟨⟨child, hchild, rfl⟩, hpath⟩
  simp only [List.length_cons] at hle hlast
  exact ⟨Nat.le_of_succ_le_succ hle, fun hlen => hlast (congrArg _ hlen)⟩

theorem definition?_unfold {fuel : Nat} {route : List Nat} (h : forest.Fits fuel id) :
    (forest.unfold fuel id).definition? key depth route =
      (forest.follow id route).bind fun leaf =>
        ((forest.entries leaf).get? key).map fun value =>
          ⟨value, forest.name leaf, depth + route.length⟩ := by
  induction route generalizing fuel id depth with
  | nil =>
    cases fuel with
    | zero =>
      have hnot : ¬ forest.Has id := (h [] id rfl).2 rfl
      simp [Tree.definition?, Tree.at?, follow, unfold, entries_of_not_has hnot, Tree.entries]
    | succ fuel => simp [Tree.definition?, Tree.at?, follow, entries_unfold, name_unfold]
  | cons position rest ih =>
    rw [Tree.definition?_cons]
    cases fuel with
    | zero =>
      have hnot : ¬ forest.Has id := (h [] id rfl).2 rfl
      simp [follow, unfold, Tree.children, children_of_not_has hnot]
    | succ fuel =>
      simp only [children_unfold, List.getElem?_map, follow, Option.bind_assoc, Option.bind_map]
      cases hchild : (forest.children id)[position]? with
      | none => rfl
      | some child =>
        simp [ih (h.child (List.mem_of_getElem? hchild)), Nat.add_assoc, Nat.add_comm 1]

theorem definition?_tree (h : forest.AcyclicBelow id) (route : List Nat) :
    (forest.tree id).definition? key 0 route = forest.definition? id key route := by
  simp [tree, definition?_unfold h.fits, definition?]

-- ---------------------------------------------------------------------------
-- The answers
-- ---------------------------------------------------------------------------

theorem exists_tree_eq_composite (h : (forest.node? id).any Node.isComposite = true) :
    ∃ name children, forest.tree id = .composite name children := by
  cases hnode : forest.node? id with
  | none => simp [hnode] at h
  | some node =>
    obtain ⟨fuel, hfuel⟩ : ∃ fuel, forest.nodes.length = fuel + 1 :=
      Nat.exists_eq_succ_of_ne_zero (Nat.ne_of_gt (Nat.zero_lt_of_lt (has_iff.mpr ⟨node, hnode⟩)))
    cases hcontent : node.content <;>
      simp [hnode, Node.isComposite, hcontent, tree, hfuel, unfold] at h ⊢

/-- Whatever lies below a composite, its answers describe the same tree. A lookup gives the value
that the key resolves to, and the key resolves to the first definition that the search finds. The
search finds one definition for each route to a leaf that has one, in the order of the routes. The
keys are those that a lookup finds, ascending, and without them the composite is empty. -/
theorem answers_agree (hcomposite : (forest.node? id).any Node.isComposite = true)
    (hacyclic : forest.AcyclicBelow id) :
    (∀ key, (forest.tree id).get? key = ((forest.tree id).resolve? key).map (·.value)) ∧
    (∀ key, (forest.tree id).resolve? key = ((forest.tree id).explain key).head?) ∧
    (∀ key, ∃ routes : List (List Nat), routes.Pairwise (· < ·) ∧
      (∀ route, route ∈ routes ↔ (forest.definition? id key route).isSome) ∧
      ((forest.tree id).explain key).map some = routes.map (forest.definition? id key)) ∧
    (forest.tree id).keys.Pairwise (· < ·) ∧
    (∀ key, key ∈ (forest.tree id).keys ↔ ((forest.tree id).get? key).isSome) ∧
    ((forest.tree id).isEmpty = true ↔ (forest.tree id).keys = []) := by
  obtain ⟨name, children, htree⟩ := exists_tree_eq_composite hcomposite
  refine ⟨fun key => Tree.get?_eq _, fun key => ?_, fun key => ?_, Tree.keys_sorted _,
    fun key => Tree.mem_keys_iff key _, Tree.isEmpty_iff _⟩
  · simpa [htree] using Tree.resolve?_eq_head? name children
  · refine ⟨(forest.tree id).routes.filter fun route => (forest.definition? id key route).isSome,
      (Tree.routes_sorted _).filter _, fun route => ?_, ?_⟩
    · simp only [List.mem_filter, and_iff_right_iff_imp, ← definition?_tree hacyclic]
      exact Tree.mem_routes_of_definition?
    · have hexplain : (forest.tree id).explain key =
          (forest.tree id).routes.filterMap (forest.definition? id key) := by
        have hdefinition : (forest.tree id).definition? key 0 = forest.definition? id key :=
          funext (definition?_tree hacyclic)
        simp only [← hdefinition, htree, Tree.explain_eq]
      rw [hexplain, List.map_filterMap_some_eq_filter_map_isSome, List.filter_map]
      rfl

/-- A leaf in a composite under two entries of one name, and that composite under two entries of
another with the leaf between them. -/
def sharedLayers : Forest where
  nodes := [
    .settable "leaf" (.ofPairs [("key", "value")]),
    { name := "inner", content := .composite [⟨"twice", 0, 0⟩, ⟨"twice", 0, 1⟩] },
    { name := "outer", content := .composite [⟨"inner", 1, 2⟩, ⟨"leaf", 0, 3⟩, ⟨"inner", 1, 4⟩] }]
  links := 5

theorem answers_agree_shared :
    (sharedLayers.node? 2).any Node.isComposite = true ∧ sharedLayers.AcyclicBelow 2 ∧
      ((sharedLayers.tree 2).explain "key").map (·.depth) = [2, 2, 1, 2, 2] ∧
      (sharedLayers.tree 2).get? "key" =
        ((sharedLayers.tree 2).resolve? "key").map (·.value) := by
  have hacyclic : sharedLayers.AcyclicBelow 2 := fun node _ => acyclic_of_lt (by decide) node
  have hcomposite : (sharedLayers.node? 2).any Node.isComposite = true := rfl
  exact ⟨hcomposite, hacyclic, by decide, (answers_agree hcomposite hacyclic).1 "key"⟩

end Overlay.Forest

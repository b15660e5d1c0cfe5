import Overlay.Proofs.Engine.Work
import Overlay.Proofs.Forest.Links

/-!
# Later moments

A change of a node counts a version of that node at once; the composites above
it follow when they are told. Until then the engine owes them the word. `Since`
says what a node of an unchanged version can rely on: it shows what it showed,
and each of its children has an unchanged version too, or word of the child's
change is owed. The relation is transitive, so that it need be shown for single
pieces of work only, and once nothing is owed the whole tree below such a node
is what it was (`Since.tree_eq`).
-/

namespace Overlay.Engine

variable {V : Type} {engine before middle after : Engine V} {id parent : NodeId}

structure Unchanged (before after : Engine V) (id : NodeId) : Prop where
  face : after.forest.face? id = before.forest.face? id
  children : ∀ child ∈ before.forest.children id,
    after.forest.version child.node = before.forest.version child.node ∨ after.Owes id child.link
  owes : ∀ link, before.Owes id link → after.Owes id link

/-- A version never falls, and while it stands the node is unchanged. -/
structure Since (before after : Engine V) : Prop where
  has : ∀ id, before.forest.Has id → after.forest.Has id
  gone : ∀ id, before.forest.Has id → after.forest.gone id = false → before.forest.gone id = false
  version : ∀ id, before.forest.version id ≤ after.forest.version id
  unchanged : ∀ id, before.forest.Has id → after.forest.gone id = false →
    after.forest.version id = before.forest.version id → before.Unchanged after id

theorem Unchanged.trans (h : before.Unchanged middle id) (h' : middle.Unchanged after id) :
    before.Unchanged after id where
  face := h'.face.trans h.face
  children child hchild := by
    rcases h.children child hchild with hversion | howes
    · rw [← hversion]
      exact h'.children child (Forest.children_congr h.face ▸ hchild)
    · exact .inr (h'.owes _ howes)
  owes link howes := h'.owes link (h.owes link howes)

theorem Since.trans (h : before.Since middle) (h' : middle.Since after) : before.Since after where
  has id hhas := h'.has id (h.has id hhas)
  gone id hhas hgone := h.gone id hhas (h'.gone id (h.has id hhas) hgone)
  version id := Nat.le_trans (h.version id) (h'.version id)
  unchanged id hhas hgone hversion := by
    have hle := h.version id
    have hle' := h'.version id
    have hmiddle : middle.forest.version id = before.forest.version id :=
      Nat.le_antisymm (hversion ▸ hle') hle
    have hlive := h'.gone id (h.has id hhas) hgone
    exact (h.unchanged id hhas hlive hmiddle).trans
      (h'.unchanged id (h.has id hhas) hgone (hversion.trans hmiddle.symm))

-- ---------------------------------------------------------------------------
-- Pieces of work
-- ---------------------------------------------------------------------------

theorem Since.of_forest_eq (hforest : after.forest = before.forest)
    (howes : ∀ parent link, before.Owes parent link → after.Owes parent link) :
    before.Since after where
  has id hhas := hforest ▸ hhas
  gone id _ hgone := hforest ▸ hgone
  version id := Nat.le_of_eq (by rw [hforest])
  unchanged id _ _ _ :=
    ⟨by rw [hforest], fun _ _ => .inl (by rw [hforest]), fun link => howes id link⟩

theorem Since.refl (engine : Engine V) : engine.Since engine := .of_forest_eq rfl fun _ _ => id

/-- Nothing that a node shows has changed, nor its version. -/
theorem Since.of_views {forest : Forest} (hhas : ∀ id, engine.forest.Has id → forest.Has id)
    (hgone : ∀ id, engine.forest.Has id → forest.gone id = false → engine.forest.gone id = false)
    (hversion : ∀ id, engine.forest.Has id → forest.version id = engine.forest.version id)
    (hface : ∀ id, engine.forest.Has id → forest.face? id = engine.forest.face? id)
    (hlinked : engine.forest.Linked) : engine.Since { engine with forest } where
  has := hhas
  gone := hgone
  version id := by
    by_cases h : engine.forest.Has id
    · exact Nat.le_of_eq (hversion id h).symm
    · rw [Forest.version_of_not_has h]
      exact Nat.zero_le _
  unchanged id hid _ _ := by
    refine ⟨hface id hid, fun child hchild => .inl (hversion _ ?_), fun _ howes => howes⟩
    exact Forest.has_of_mem_subscribers (hlinked.subscribed id child hchild)

/-- A node that counts a version announces it, and so owes the word to all who hold it. -/
theorem Since.announce {forest : Forest} (h : engine.forest.Revises forest id)
    (hlinked : forest.Linked) : engine.Since ({ engine with forest }.announce id) where
  has other hhas := (h.has other).mpr hhas
  gone other _ hgone := (h.gone other).symm.trans hgone
  version other := by
    show engine.forest.version other ≤ forest.version other
    rw [h.version]
    exact Nat.le_add_right _ _
  unchanged other hhas hgone hversion := by
    replace hversion : forest.version other = engine.forest.version other := hversion
    have hne : other ≠ id := by
      rintro rfl
      rw [h.version, if_pos ⟨rfl, hhas⟩] at hversion
      exact absurd hversion (Nat.succ_ne_self _)
    have hface := h.face other hne
    refine ⟨hface, fun child hchild => ?_, fun link howes => ?_⟩
    · by_cases hchanged : child.node = id
      · have hmem := hlinked.subscribed other child (Forest.children_congr hface ▸ hchild)
        exact .inr ⟨id, forest.subscribers id, List.mem_cons_self, hchanged ▸ hmem⟩
      · refine .inl ((h.version child.node).trans ?_)
        rw [if_neg fun hid => hchanged hid.1]
        rfl
    · obtain ⟨node, subscribers, hmem, hlink⟩ := howes
      exact ⟨node, subscribers, List.mem_cons_of_mem _ hmem, hlink⟩

/-- A debt is paid by counting a version for the composite that was to be told. -/
theorem Since.of_told (hforest : middle.forest = before.forest) (h : middle.Since after)
    (howes : ∀ other link, before.Owes other link → other ≠ parent → middle.Owes other link)
    (hpaid : after.forest.gone parent = true ∨
      before.forest.version parent < after.forest.version parent) : before.Since after where
  has id hhas := h.has id (hforest ▸ hhas)
  gone id hhas hgone := hforest ▸ h.gone id (hforest ▸ hhas) hgone
  version id := hforest ▸ h.version id
  unchanged id hhas hgone hversion := by
    have hne : id ≠ parent := by
      rintro rfl
      rcases hpaid with hlost | hlt
      · exact absurd hgone (by simp [hlost])
      · exact absurd hversion (Nat.ne_of_gt hlt)
    have hsame := h.unchanged id (hforest ▸ hhas) hgone (hforest ▸ hversion)
    exact ⟨hforest ▸ hsame.face, hforest ▸ hsame.children,
      fun link howe => hsame.owes link (howes id link howe hne)⟩

-- ---------------------------------------------------------------------------
-- Between operations
-- ---------------------------------------------------------------------------

theorem not_owes_of_isIdle (hidle : engine.isIdle) (link : LinkId) : ¬ engine.Owes parent link := by
  rintro ⟨_, _, hmem, -⟩
  rw [List.isEmpty_iff.mp hidle] at hmem
  exact absurd hmem (by simp)

theorem Since.length_le (h : before.Since after) :
    before.forest.nodes.length ≤ after.forest.nodes.length := by
  cases hlen : before.forest.nodes.length with
  | zero => exact Nat.zero_le _
  | succ n => exact h.has n (by simp [Forest.Has, hlen])

/-- While the version of a node stands, so does the tree below it. -/
theorem Since.tree_eq (h : before.Since after) (hbefore : before.forest.Linked)
    (hafter : after.forest.Linked) (hidle : after.isIdle) (hacyclic : after.forest.Acyclic)
    (hhas : before.forest.Has id) (hlive : after.forest.gone id = false)
    (hversion : after.forest.version id = before.forest.version id) :
    after.forest.tree id = before.forest.tree id := by
  -- with no debt left, a version that stands makes the children's versions stand
  let within (id : NodeId) : Prop := before.forest.Has id ∧ after.forest.gone id = false ∧
    after.forest.version id = before.forest.version id
  have hface : ∀ id, within id → after.forest.face? id = before.forest.face? id :=
    fun id ⟨hhas, hlive, hversion⟩ => (h.unchanged id hhas hlive hversion).face
  have hclosed : ∀ id, within id → ∀ child ∈ before.forest.children id, within child.node := by
    rintro id ⟨hhas, hlive, hversion⟩ child hchild
    have hsame := h.unchanged id hhas hlive hversion
    refine ⟨Forest.has_of_mem_subscribers (hbefore.subscribed id child hchild), ?_, ?_⟩
    · exact hafter.live id hlive child (Forest.children_congr hsame.face ▸ hchild)
    · exact (hsame.children child hchild).resolve_right (not_owes_of_isIdle hidle _)
  have hreach : ∀ target, after.forest.Reaches id target → within target := by
    intro target hreach
    induction hreach with
    | refl => exact ⟨hhas, hlive, hversion⟩
    | tail _ hholds ih =>
      obtain ⟨child, hchild, rfl⟩ := hholds
      exact hclosed _ ih child (Forest.children_congr (hface _ ih) ▸ hchild)
  -- the forest has grown, so both trees are unfolded to the earlier depth
  calc after.forest.tree id
      = after.forest.unfold before.forest.nodes.length id :=
        Forest.unfold_eq_of_acyclic hacyclic (fun target ht => (hreach target ht).1) h.length_le
    _ = before.forest.tree id := Forest.unfold_congr hface hclosed _ ⟨hhas, hlive, hversion⟩

end Overlay.Engine

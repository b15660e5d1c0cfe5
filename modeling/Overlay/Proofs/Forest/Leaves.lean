import Overlay.Proofs.Edit.Asked
import Overlay.Proofs.Forest.Views

/-!
# Leaves

The entries of a leaf that can be edited (`Forest.leaf?`). An edit of the leaf changes
them as the edit says (`leaf?_edit`), and nothing else in a forest does: composites
come and go around a leaf, and never take its place.
-/

namespace Overlay

/-- The entries that an edit can change. -/
def Content.editable? : Content → Option Entries
  | .settable entries => some entries
  | .fixed _ | .composite _ => none

namespace Forest

variable {forest before after : Forest} {id parent node : NodeId} {entries : Entries}

def leaf? (forest : Forest) (id : NodeId) : Option Entries :=
  (forest.face? id).bind (·.2.editable?)

theorem leaf?_eq_some : forest.leaf? id = some entries ↔
    ∃ node, forest.node? id = some node ∧ node.content = .settable entries := by
  simp only [leaf?, face?, Option.bind_map]
  cases forest.node? id with
  | none => simp
  | some node =>
    obtain ⟨name, content, version, subscribers, gone⟩ := node
    cases content with
    | fixed held => simp [Node.face, Content.editable?]
    | settable held => simp [Node.face, Content.editable?]
    | composite children => simp [Node.face, Content.editable?]

theorem entries_of_leaf? (h : forest.leaf? id = some entries) : forest.entries id = entries := by
  obtain ⟨⟨name, content, version, subscribers, gone⟩, hnode, rfl⟩ := leaf?_eq_some.mp h
  simp [Forest.entries, hnode]

theorem has_of_leaf? (h : forest.leaf? id = some entries) : forest.Has id := by
  obtain ⟨node, hnode, -⟩ := leaf?_eq_some.mp h
  exact has_iff.mpr ⟨node, hnode⟩

/-- A leaf has no children. -/
theorem children_of_leaf? (h : forest.leaf? id = some entries) : forest.children id = [] := by
  obtain ⟨node, hnode, hcontent⟩ := leaf?_eq_some.mp h
  simp [children, hnode, Node.children_eq, hcontent, Content.children]

theorem ne_of_isComposite (h : forest.leaf? id = some entries)
    (hparent : (forest.node? parent).any Node.isComposite = true) : id ≠ parent := by
  rintro rfl
  obtain ⟨node, hnode, hcontent⟩ := leaf?_eq_some.mp h
  simp [hnode, Node.isComposite, hcontent] at hparent

theorem leaf?_congr (h : after.face? id = before.face? id) : after.leaf? id = before.leaf? id := by
  rw [leaf?, leaf?, h]

-- ---------------------------------------------------------------------------
-- Edits
-- ---------------------------------------------------------------------------

theorem edit_of_leaf? (h : forest.leaf? id = some entries) (edit : Edit) :
    forest.edit id edit =
      if (edit.run entries).2 = true then
        (true, forest.modify id fun node =>
          { node with content := .settable (edit.run entries).1, version := node.version + 1 })
      else (false, forest) := by
  obtain ⟨⟨name, content, version, subscribers, gone⟩, hnode, rfl⟩ := leaf?_eq_some.mp h
  simp only [Forest.edit, hnode]

theorem edit_fst_of_leaf? (h : forest.leaf? id = some entries) (edit : Edit) :
    (forest.edit id edit).1 = (edit.run entries).2 := by
  rw [edit_of_leaf? h]
  split
  · rename_i hchanged
    exact hchanged.symm
  · rename_i hunchanged
    exact (Bool.eq_false_iff.mpr hunchanged).symm

/-- An edit changes the entries of the leaf that it is an edit of. -/
theorem leaf?_edit (h : forest.leaf? id = some entries) (node : NodeId) (edit : Edit) :
    (forest.edit node edit).2.leaf? id =
      some (if node = id then (edit.run entries).1 else entries) := by
  by_cases hid : node = id
  · subst hid
    rw [if_pos rfl, edit_of_leaf? h]
    obtain ⟨found, hnode, -⟩ := leaf?_eq_some.mp h
    split
    · simp [leaf?, face?, node?_modify, hnode, Node.face, Content.editable?]
    · rename_i hunchanged
      rw [h, Edit.eq_of_not_changed hunchanged]
  · rw [if_neg hid]
    rcases edit_eq forest node edit with heq | ⟨_, _, _, -, -, -, heq⟩
    · rw [heq, h]
    · rw [heq, ← h]
      exact leaf?_congr (by simp only [face?, node?_modify_of_ne (Ne.symm hid)])

-- ---------------------------------------------------------------------------
-- What else happens in a forest
-- ---------------------------------------------------------------------------

theorem leaf?_plant (h : forest.leaf? id = some entries) (planted : Node) :
    (forest.plant planted).2.leaf? id = some entries := by
  rw [← h]
  exact leaf?_congr (by simp only [face?, node?_plant_of_has planted (has_of_leaf? h)])

theorem leaf?_attach (h : forest.leaf? id = some entries)
    (hparent : (forest.node? parent).any Node.isComposite = true) {place : Place} {name : String} :
    ((forest.attach parent place name node).bump parent).leaf? id = some entries := by
  rw [← h]
  exact leaf?_congr (by rw [face?_bump, face?_attach_of_ne (ne_of_isComposite h hparent)])

theorem leaf?_detach (h : before.leaf? id = some entries) {name : String} {child : Child}
    (hdetach : before.detach parent name = some (child, after)) :
    (after.bump parent).leaf? id = some entries := by
  obtain ⟨hfind, rfl⟩ := detach_eq_some_iff.mp hdetach
  have hne : id ≠ parent := by
    rintro rfl
    rw [children_of_leaf? h] at hfind
    exact absurd hfind (by simp)
  rw [← h]
  exact leaf?_congr (by rw [face?_bump, face?_unsubscribe, face?_setChildren_of_ne hne])

end Forest

end Overlay

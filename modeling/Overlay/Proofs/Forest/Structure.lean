import Overlay.Proofs.Forest.Ascents

/-!
# Structure

Telling of changes counts versions and finds out what nobody can get at any more. All else
that a forest consists of stays as it is (`Alike`), and so do the trees that are read off.
A child that is put in front of the others and then taken out by its name leaves the forest
like this (`alike_detach_attach`): of all the entries of that name the new one is found, and of
all the links to that node its link is cut.
-/

namespace Overlay.Forest

variable {forest before middle after : Forest} {id other parent node : NodeId}

/-- The same nodes, which show the same and tell the same subscribers. -/
structure Alike (before after : Forest) : Prop where
  length : after.nodes.length = before.nodes.length
  face : ∀ id, after.face? id = before.face? id
  subscribers : ∀ id, after.subscribers id = before.subscribers id

theorem Alike.of_eq (h : after = before) : before.Alike after :=
  h ▸ ⟨rfl, fun _ => rfl, fun _ => rfl⟩

theorem Alike.trans (h : before.Alike middle) (h' : middle.Alike after) : before.Alike after where
  length := h'.length.trans h.length
  face id := (h'.face id).trans (h.face id)
  subscribers id := (h'.subscribers id).trans (h.subscribers id)

theorem length_modify (f : Node → Node) : (forest.modify id f).nodes.length = forest.nodes.length :=
  List.length_modify _ _ _

theorem Alike.bump (h : before.Alike after) : before.Alike (after.bump id) :=
  h.trans ⟨length_modify _, fun _ => face?_bump, fun _ => subscribers_bump⟩

theorem Alike.prune (h : before.Alike after) (roots : List NodeId) :
    before.Alike (after.prune roots) :=
  h.trans ⟨List.length_mapIdx, fun _ => face?_prune roots, fun _ => subscribers_prune roots⟩

theorem Alike.children (h : before.Alike after) (id : NodeId) :
    after.children id = before.children id :=
  children_congr (h.face id)

theorem Alike.tree (h : before.Alike after) (id : NodeId) : after.tree id = before.tree id := by
  rw [Forest.tree, h.length]
  exact unfold_congr (fun id (_ : True) => h.face id) (fun _ _ _ _ => trivial) _ trivial

-- ---------------------------------------------------------------------------
-- Views after one change
-- ---------------------------------------------------------------------------

theorem subscribers_unsubscribe {subscriber : Subscriber} :
    (forest.unsubscribe id subscriber).subscribers other =
      if other = id then (forest.subscribers other).filter (· ≠ subscriber)
      else forest.subscribers other := by
  simp only [Forest.subscribers, unsubscribe, node?_modify]
  cases forest.node? other with
  | none => simp
  | some found =>
    by_cases he : other = id
    · subst he
      simp [Node.unsubscribe]
    · simp [he, Ne.symm he]

/-- A new subscriber goes to the end. -/
theorem subscribers_subscribe {subscriber : Subscriber} (hhas : forest.Has id)
    (hnew : subscriber ∉ forest.subscribers id) :
    (forest.subscribe id subscriber).subscribers other =
      if other = id then forest.subscribers other ++ [subscriber]
      else forest.subscribers other := by
  obtain ⟨found, hfound⟩ := has_iff.mp hhas
  split
  · rename_i he
    subst he
    replace hnew : subscriber ∉ found.subscribers := by
      simpa [Forest.subscribers, hfound] using hnew
    simp [Forest.subscribers, subscribe, node?_modify, hfound, Node.subscribe, hnew]
  · rename_i hne
    simp only [Forest.subscribers, subscribe, node?_modify_of_ne hne]

theorem subscribers_attach {place : Place} {name : String} (hnode : forest.Has node)
    (hnew : .link parent forest.links ∉ forest.subscribers node) :
    (forest.attach parent place name node).subscribers other =
      if other = node then forest.subscribers other ++ [.link parent forest.links]
      else forest.subscribers other := by
  have hkept (id : NodeId) (children : List Child) :
      ({ forest with links := forest.links + 1 }.setChildren parent children).subscribers id =
        forest.subscribers id := subscribers_setChildren
  have hhas (children : List Child) :
      ({ forest with links := forest.links + 1 }.setChildren parent children).Has node :=
    has_setChildren.mpr hnode
  simp only [attach]
  rw [subscribers_subscribe (hhas _) (by rwa [hkept]), hkept]

theorem face?_setChildren {children : List Child} :
    (forest.setChildren id children).face? id =
      (forest.face? id).map fun face => (face.1, .composite children) := by
  simp only [face?, setChildren, node?_modify, if_pos, Option.map_map]
  rfl

theorem face?_of_isComposite (h : (forest.node? id).any Node.isComposite = true) :
    ∃ name, forest.face? id = some (name, .composite (forest.children id)) := by
  obtain ⟨found, hfound, hcomposite⟩ := (Option.any_eq_true _ _).mp h
  obtain ⟨name, content, version, subscribers, gone⟩ := found
  cases content with
  | composite children =>
    exact ⟨name, by simp [face?, Forest.children, hfound, Node.face, Node.children]⟩
  | fixed entries => simp [Node.isComposite] at hcomposite
  | settable entries => simp [Node.isComposite] at hcomposite

/-- Links that nodes tell have been made. -/
theorem Tight.link_lt (h : forest.Tight) (hlinked : forest.Linked) {link : LinkId}
    (hmem : .link parent link ∈ forest.subscribers node) : link < forest.links := by
  obtain ⟨child, hchild, rfl, -⟩ := h node parent link hmem
  exact hlinked.fresh parent child hchild

-- ---------------------------------------------------------------------------
-- In and out again
-- ---------------------------------------------------------------------------

theorem alike_detach_attach {name : String} (hlinked : forest.Linked) (htight : forest.Tight)
    (hparent : (forest.node? parent).any Node.isComposite = true) (hnode : forest.Has node)
    (hmiddle : (forest.attach parent .first name node).Alike middle) :
    ∃ after, middle.detach parent name = some (⟨name, node, forest.links⟩, after) ∧
      forest.Alike after := by
  obtain ⟨title, hface⟩ := face?_of_isComposite hparent
  have hhas : forest.Has parent :=
    has_of_node?_ne_none fun hnone => by simp [hnone] at hparent
  have hchildren : middle.children parent =
      ⟨name, node, forest.links⟩ :: forest.children parent := by
    rw [hmiddle.children, children_attach, if_pos ⟨rfl, hhas⟩]
    rfl
  have hnew (id : NodeId) : .link parent forest.links ∉ forest.subscribers id := fun hmem =>
    absurd (htight.link_lt hlinked hmem) (Nat.lt_irrefl _)
  have hrest : (middle.children parent).eraseP (·.name = name) = forest.children parent := by
    simp [hchildren]
  refine ⟨_, detach_eq_some_iff.mpr ⟨by simp [hchildren], rfl⟩, ?_, fun id => ?_, fun id => ?_⟩
  · exact ((length_modify _).trans (length_modify _)).trans
      (hmiddle.length.trans ((length_modify _).trans (length_modify _)))
  · rw [hrest, face?_unsubscribe]
    by_cases hid : id = parent
    · subst hid
      obtain ⟨children, hattached⟩ : ∃ children, (forest.attach id .first name node).face? id =
          some (title, .composite children) := by
        simp only [attach, face?_subscribe]
        exact ⟨_, face?_setChildren.trans (congrArg (Option.map _) hface)⟩
      rw [face?_setChildren, hmiddle.face, hattached, hface]
      rfl
    · rw [face?_setChildren_of_ne hid, hmiddle.face, face?_attach_of_ne hid]
  · rw [subscribers_unsubscribe, subscribers_setChildren, hmiddle.subscribers,
      subscribers_attach hnode (hnew node)]
    split
    · -- nobody else has the link that was made for the new entry
      rw [List.filter_append, List.filter_eq_self.mpr fun subscriber hmem => ?_]
      · simp
      · rw [decide_eq_true_eq]
        rintro rfl
        exact hnew id hmem
    · rfl

end Overlay.Forest

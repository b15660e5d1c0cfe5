import Overlay.Proofs.Forest.Paths

/-!
# Links

A composite hears of a child through the link that the child's entry subscribes
to the child. `Linked` says that no entry lacks its link, and that no link is
used twice; every operation on a forest keeps it. `Revises` is what the
operations that count a version have in common: one node has another version,
and all others show what they showed.
-/

namespace Overlay.Forest

variable {forest before after : Forest} {id parent node : NodeId}

/-- Whatever a composite holds tells it of changes. -/
structure Linked (forest : Forest) : Prop where
  subscribed : ∀ parent, ∀ child ∈ forest.children parent,
    .link parent child.link ∈ forest.subscribers child.node
  distinct : ∀ parent, ((forest.children parent).map (·.link)).Nodup
  fresh : ∀ parent, ∀ child ∈ forest.children parent, child.link < forest.links
  /-- What can be got at does not hold what cannot. -/
  live : ∀ parent, forest.gone parent = false →
    ∀ child ∈ forest.children parent, forest.gone child.node = false

theorem linked_empty : ({} : Forest).Linked := by
  have hnone (parent : NodeId) : ({} : Forest).children parent = [] := rfl
  constructor <;> simp [hnone]

/-- Where nothing but subscribers has changed, and no link has been cut. -/
theorem Linked.congr (h : before.Linked)
    (hchildren : ∀ parent, after.children parent = before.children parent)
    (hsubscribers : ∀ node parent link, .link parent link ∈ before.subscribers node →
      .link parent link ∈ after.subscribers node)
    (hlinks : after.links = before.links) (hgone : ∀ node, after.gone node = before.gone node) :
    after.Linked where
  subscribed parent child hchild := by
    rw [hchildren] at hchild
    exact hsubscribers _ _ _ (h.subscribed parent child hchild)
  distinct parent := by
    rw [hchildren]
    exact h.distinct parent
  fresh parent child hchild := by
    rw [hchildren] at hchild
    rw [hlinks]
    exact h.fresh parent child hchild
  live parent hlive child hchild := by
    rw [hgone] at hlive ⊢
    rw [hchildren] at hchild
    exact h.live parent hlive child hchild

theorem Linked.bump (h : forest.Linked) : (forest.bump id).Linked :=
  h.congr (by simp) (by simp) rfl (by simp)

theorem Linked.subscribe (h : forest.Linked) {subscriber : Subscriber} :
    (forest.subscribe id subscriber).Linked :=
  h.congr (by simp) (fun _ _ _ hmem => mem_subscribers_subscribe.mpr (.inl hmem)) rfl (by simp)

theorem Linked.unsubscribe (h : forest.Linked) {subscriber : Subscriber}
    (hother : ∀ parent link, subscriber ≠ .link parent link) :
    (forest.unsubscribe id subscriber).Linked := by
  refine h.congr (by simp) (fun node parent link hmem => ?_) rfl (by simp)
  exact mem_subscribers_unsubscribe.mpr ⟨hmem, fun heq => hother parent link heq.2.symm⟩

/-- A leaf has no links before an edit, and none after it. -/
theorem Linked.edit (h : forest.Linked) (edit : Edit) : (forest.edit id edit).2.Linked := by
  rcases edit_eq forest id edit with heq | ⟨node, entries, next, hnode, hleaf, -, heq⟩
  · rw [heq]
    exact h
  · rw [heq]
    refine h.congr (fun parent => ?_) (fun other parent link hmem => ?_) rfl (fun other => ?_)
    · by_cases hp : parent = id
      · subst hp
        simp [children, node?_modify, hnode, Node.children_eq, hleaf, Content.children]
      · simp [children, node?_modify_of_ne hp]
    · rw [subscribers_modify]
      · exact hmem
      · exact fun _ => rfl
    · exact gone_modify fun _ => rfl

theorem Linked.plant (h : forest.Linked) {planted : Node} (hchildren : planted.children = []) :
    (forest.plant planted).2.Linked := by
  have hplant : ∀ parent, ∀ child ∈ (forest.plant planted).2.children parent,
      child ∈ forest.children parent := by
    intro parent child hchild
    rw [children, node?_plant] at hchild
    split at hchild
    · simp [hchildren] at hchild
    · exact hchild
  constructor
  · intro parent child hchild
    have hmem := h.subscribed parent child (hplant parent child hchild)
    rw [subscribers, node?_plant_of_has planted (has_of_mem_subscribers hmem)]
    exact hmem
  · intro parent
    rw [children, node?_plant]
    split
    · simp [hchildren]
    · exact h.distinct parent
  · exact fun parent child hchild => h.fresh parent child (hplant parent child hchild)
  · intro parent hlive child hchild
    have hmem := hplant parent child hchild
    have hparent : forest.gone parent = false := by
      rw [← hlive, gone, gone, node?_plant_of_has planted (has_of_mem_children hmem)]
    have hnode := h.live parent hparent child hmem
    rw [gone, node?_plant_of_has planted (has_of_gone_eq_false hnode)]
    exact hnode

theorem Linked.attach (h : forest.Linked) {place : Place} {name : String}
    (hnode : forest.gone node = false) : (forest.attach parent place name node).Linked := by
  have hattach : ∀ {holder child}, child ∈ (forest.attach parent place name node).children holder →
      child ∈ forest.children holder ∨ (holder = parent ∧ child = ⟨name, node, forest.links⟩) := by
    intro holder child hchild
    rw [children_attach] at hchild
    split at hchild
    · rename_i hholder
      rcases place.mem_insert.mp hchild with rfl | hmem
      · exact .inr ⟨hholder.1, rfl⟩
      · exact .inl (hholder.1 ▸ hmem)
    · exact .inl hchild
  constructor
  · intro holder child hchild
    rw [mem_subscribers_attach]
    rcases hattach hchild with hmem | ⟨rfl, rfl⟩
    · exact .inl (h.subscribed holder child hmem)
    · exact .inr ⟨rfl, has_of_gone_eq_false hnode, rfl⟩
  · intro holder
    rw [children_attach]
    split
    · -- the new link is larger than all that exist
      have hnew : forest.links ∉ (forest.children parent).map (·.link) := by
        intro hmem
        obtain ⟨child, hchild, hlink⟩ := List.mem_map.mp hmem
        exact absurd hlink (Nat.ne_of_lt (h.fresh parent child hchild))
      cases place with
      | first =>
        rw [Place.insert, List.map_cons]
        exact List.nodup_cons.mpr ⟨hnew, h.distinct parent⟩
      | last =>
        rw [Place.insert, List.map_append]
        refine List.nodup_append.mpr ⟨h.distinct parent, by simp, ?_⟩
        rintro link hlink other hother rfl
        obtain rfl := List.mem_singleton.mp hother
        exact hnew hlink
    · exact h.distinct holder
  · intro holder child hchild
    rw [links_attach]
    rcases hattach hchild with hmem | ⟨rfl, rfl⟩
    · exact Nat.lt_succ_of_lt (h.fresh holder child hmem)
    · exact Nat.lt_succ_self _
  · intro holder hlive child hchild
    rw [gone_attach] at hlive ⊢
    rcases hattach hchild with hmem | ⟨rfl, rfl⟩
    · exact h.live holder hlive child hmem
    · exact hnode

/-- The entry that is found is the entry that is erased. -/
theorem link_ne_of_mem_eraseP {children : List Child} {p : Child → Bool} {child kept : Child}
    (hdistinct : (children.map (·.link)).Nodup) (hfind : children.find? p = some child)
    (hkept : kept ∈ children.eraseP p) : kept.link ≠ child.link := by
  induction children with
  | nil => simp at hkept
  | cons first rest ih =>
    rw [List.map_cons, List.nodup_cons] at hdistinct
    cases hp : p first with
    | true =>
      rw [List.find?_cons_of_pos hp] at hfind
      rw [List.eraseP_cons_of_pos hp] at hkept
      obtain rfl := Option.some.inj hfind
      intro hlink
      exact hdistinct.1 (hlink ▸ List.mem_map_of_mem hkept)
    | false =>
      rw [List.find?_cons_of_neg (by simp [hp])] at hfind
      rw [List.eraseP_cons_of_neg (by simp [hp])] at hkept
      rcases List.mem_cons.mp hkept with rfl | hkept
      · intro hlink
        exact hdistinct.1 (hlink ▸ List.mem_map_of_mem (List.mem_of_find?_eq_some hfind))
      · exact ih hdistinct.2 hfind hkept

theorem children_detach_sublist {name : String} {child : Child}
    (hdetach : before.detach parent name = some (child, after)) (id : NodeId) :
    (after.children id).Sublist (before.children id) := by
  obtain ⟨-, rfl⟩ := detach_eq_some_iff.mp hdetach
  rw [children_unsubscribe, children_setChildren]
  split
  · rename_i hid
    exact hid.1 ▸ List.eraseP_sublist
  · exact .refl _

theorem Linked.detach (h : before.Linked) {name : String} {child : Child}
    (hdetach : before.detach parent name = some (child, after)) : after.Linked := by
  have hsub := children_detach_sublist hdetach
  obtain ⟨hfind, rfl⟩ := detach_eq_some_iff.mp hdetach
  constructor
  · intro holder kept hkept
    have hmem := (hsub holder).subset hkept
    rw [mem_subscribers_unsubscribe, subscribers_setChildren]
    refine ⟨h.subscribed holder kept hmem, ?_⟩
    -- the one link that has been cut belongs to the one entry that has been erased
    rintro ⟨-, hlink⟩
    rw [Subscriber.link.injEq] at hlink
    obtain ⟨rfl, hlink⟩ := hlink
    rw [children_unsubscribe, children_setChildren,
      if_pos ⟨rfl, has_of_mem_children hmem⟩] at hkept
    exact link_ne_of_mem_eraseP (h.distinct holder) hfind hkept hlink
  · exact fun holder => (h.distinct holder).sublist ((hsub holder).map _)
  · exact fun holder kept hkept => h.fresh holder kept ((hsub holder).subset hkept)
  · intro holder hlive kept hkept
    rw [gone_unsubscribe, gone_setChildren] at hlive ⊢
    exact h.live holder hlive kept ((hsub holder).subset hkept)

theorem Linked.prune (h : forest.Linked) {roots : List NodeId} : (forest.prune roots).Linked where
  subscribed parent child hchild := by
    rw [children_prune] at hchild
    rw [subscribers_prune]
    exact h.subscribed parent child hchild
  distinct parent := by
    rw [children_prune]
    exact h.distinct parent
  fresh parent child hchild := by
    rw [children_prune] at hchild
    exact h.fresh parent child hchild
  live parent hlive child hchild := by
    rw [children_prune] at hchild
    rw [gone_prune] at hlive ⊢
    obtain ⟨hlive, root, hroot, hreach⟩ := hlive
    exact ⟨h.live parent hlive child hchild, root, hroot, hreach.tail ⟨child, hchild, rfl⟩⟩

-- ---------------------------------------------------------------------------
-- Changes that count a version
-- ---------------------------------------------------------------------------

/-- One node has changed, and a version has been counted for it. -/
structure Revises (before after : Forest) (id : NodeId) : Prop where
  has : ∀ other, after.Has other ↔ before.Has other
  gone : ∀ other, after.gone other = before.gone other
  version : ∀ other, after.version other =
    before.version other + if other = id ∧ before.Has id then 1 else 0
  face : ∀ other, other ≠ id → after.face? other = before.face? other

theorem revises_bump (id : NodeId) : forest.Revises (forest.bump id) id where
  has _ := has_bump
  gone _ := gone_bump
  version _ := version_bump
  face _ _ := face?_bump

theorem revises_attach {place : Place} {name : String} :
    forest.Revises ((forest.attach parent place name node).bump parent) parent where
  has other := by simp
  gone other := by simp
  version other := by simp [version_bump]
  face other hne := by rw [face?_bump, face?_attach_of_ne hne]

theorem revises_detach {name : String} {child : Child}
    (h : before.detach parent name = some (child, after)) :
    before.Revises (after.bump parent) parent := by
  obtain ⟨-, rfl⟩ := detach_eq_some_iff.mp h
  constructor
  · simp
  · simp
  · simp [version_bump]
  · intro other hne
    rw [face?_bump, face?_unsubscribe, face?_setChildren_of_ne hne]

theorem has_of_edit {edit : Edit} (h : (forest.edit id edit).1 = true) : forest.Has id := by
  rcases edit_eq forest id edit with heq | ⟨node, _, _, hnode, -⟩
  · simp [heq] at h
  · exact has_iff.mpr ⟨node, hnode⟩

theorem revises_edit {edit : Edit} (h : (forest.edit id edit).1 = true) :
    forest.Revises (forest.edit id edit).2 id := by
  rcases edit_eq forest id edit with heq | ⟨node, _, next, hnode, -, -, heq⟩
  · rw [heq] at h
    exact absurd h (by simp)
  · rw [heq]
    have hhas : forest.Has id := has_iff.mpr ⟨node, hnode⟩
    refine ⟨fun _ => has_modify _, fun _ => gone_modify fun _ => rfl, fun other => ?_,
      fun other hne => by simp only [face?, node?_modify_of_ne hne]⟩
    by_cases hid : other = id
    · subst hid
      simp [version, node?_modify, hnode, hhas]
    · simp [version, node?_modify_of_ne hid, hid]

theorem edit_unchanged {edit : Edit} (h : (forest.edit id edit).1 = false) :
    (forest.edit id edit).2 = forest := by
  rcases edit_eq forest id edit with heq | ⟨_, _, _, -, -, -, heq⟩
  · rw [heq]
  · rw [heq] at h
    exact absurd h (by simp)

end Overlay.Forest

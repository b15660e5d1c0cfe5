import Overlay.Proofs.Engine.Since

/-!
# Sound engines

In every engine that a run leads to, composites are linked to their children,
and what the caller holds is not gone (`Sound`); and every later engine of a run
continues an earlier one in the sense of `Since`. Both are shown for single
pieces of work (`Piece.keeps`), and so hold for whole runs (`keeps_of_play?`).
-/

namespace Overlay.Engine

variable {V : Type} {engine before middle after : Engine V} {id : NodeId}

structure Sound (engine : Engine V) : Prop where
  linked : engine.forest.Linked
  held : ∀ id ∈ engine.held, engine.forest.gone id = false
  rooted : ∀ registry ∈ engine.registries, engine.forest.Has registry.root

theorem sound_empty : ({} : Engine V).Sound where
  linked := Forest.linked_empty
  held := by simp [held]
  rooted := by simp

theorem mem_handleRoot {handle : HandleId} :
    id ∈ engine.handleRoot handle ↔
      ∃ found, engine.handleAt? handle = some found ∧ engine.root found = id := by
  simp [handleRoot]

theorem mem_held : id ∈ engine.held ↔
    .node id ∈ engine.anchors ∨
      (∃ handle, .handle handle ∈ engine.anchors ∧ id ∈ engine.handleRoot handle) ∨
        ∃ registry ∈ engine.registries, registry.closed = false ∧ registry.root = id := by
  simp only [held, List.mem_append, List.mem_flatMap, List.mem_map, List.mem_filter,
    Bool.not_eq_true', and_assoc, ← or_assoc]
  refine or_congr_left ⟨?_, ?_⟩
  · rintro ⟨anchor, hanchor, hmem⟩
    cases anchor with
    | node _ => exact .inl (List.mem_singleton.mp hmem ▸ hanchor)
    | handle handle => exact .inr ⟨handle, hanchor, hmem⟩
  · rintro (hanchor | ⟨handle, hanchor, hmem⟩)
    · exact ⟨_, hanchor, List.mem_singleton_self _⟩
    · exact ⟨_, hanchor, hmem⟩

/-- What the caller holds is spared by the search for what nobody can get at. -/
theorem held_subset_roots : engine.held ⊆ engine.roots := by
  intro id hid
  simp only [held, roots, List.mem_append] at hid ⊢
  rcases hid with hanchor | hregistry
  · exact .inl (.inl hanchor)
  · exact .inr hregistry

-- ---------------------------------------------------------------------------
-- What is held
-- ---------------------------------------------------------------------------

/-- A view that a rewriting keeps at its place is the same everywhere. -/
theorem map_getElem?_modify {α β : Type} {items : List α} {view : α → β} {f : α → α} {i j : Nat}
    (h : ∀ a, items[i]? = some a → view (f a) = view a) :
    ((items.modify i f)[j]?).map view = (items[j]?).map view := by
  rw [List.getElem?_modify]
  cases ha : items[j]? with
  | none => simp
  | some a =>
    by_cases hij : i = j
    · subst hij
      simp [h a ha]
    · simp [hij]

/-- A new item stands behind those that there are, and where there is none nothing
is found. -/
theorem getElem?_concat_cases {α : Type} (items : List α) (a : α) (i : Nat) :
    (items ++ [a])[i]? = items[i]? ∨ items[i]? = none ∧ (items ++ [a])[i]? = some a := by
  rcases Nat.lt_trichotomy i items.length with hlt | rfl | hgt
  · exact .inl (List.getElem?_append_left hlt)
  · exact .inr ⟨List.getElem?_eq_none (Nat.le_refl _), List.getElem?_concat_length⟩
  · refine .inl ?_
    rw [List.getElem?_eq_none (Nat.le_of_lt hgt), List.getElem?_eq_none]
    rw [List.length_append, List.length_singleton]
    exact hgt

theorem eq_length_of_concat {α : Type} {items : List α} {a b : α} {i : Nat}
    (hnone : items[i]? = none) (hsome : (items ++ [a])[i]? = some b) :
    i = items.length ∧ b = a := by
  have hlt := (List.getElem?_eq_some_iff.mp hsome).1
  rw [List.length_append, List.length_singleton] at hlt
  obtain rfl := Nat.le_antisymm (Nat.le_of_lt_succ hlt) (List.getElem?_eq_none_iff.mp hnone)
  exact ⟨rfl, Option.some.inj (hsome.symm.trans List.getElem?_concat_length)⟩

theorem handleRoot_congr
    (hhandles : ∀ id, (after.handleAt? id).map Handle.bare = (before.handleAt? id).map Handle.bare)
    (hregistries : ∀ id, (after.registryAt? id).map Registry.bare =
      (before.registryAt? id).map Registry.bare) (id : HandleId) :
    after.handleRoot id = before.handleRoot id := by
  have hroot (handle : Handle V) : after.root handle = before.root handle.bare := by
    have hregistry := congrArg (Option.map (·.root)) (hregistries handle.registry)
    rw [Option.map_map, Option.map_map] at hregistry
    exact congrArg (Option.getD · 0) hregistry
  have hhandle := congrArg (Option.map before.root) (hhandles id)
  rw [Option.map_map, Option.map_map] at hhandle
  rw [handleRoot, handleRoot, funext hroot]
  exact congrArg Option.toList hhandle

/-- Where the forest stands, what is held in addition must not be gone. -/
theorem Sound.of_forest_eq (h : before.Sound) (hforest : after.forest = before.forest)
    (hheld : ∀ id ∈ after.held, id ∈ before.held ∨ before.forest.gone id = false)
    (hrooted : ∀ registry ∈ after.registries,
      (∃ old ∈ before.registries, old.root = registry.root) ∨ before.forest.Has registry.root) :
    after.Sound where
  linked := hforest ▸ h.linked
  held id hid := hforest ▸ (hheld id hid).elim (h.held id) fun hlive => hlive
  rooted registry hmem := by
    rw [hforest]
    rcases hrooted registry hmem with ⟨old, hold, hsame⟩ | hhas
    · exact hsame ▸ h.rooted old hold
    · exact hhas

/-- Registries may close, and handles and registries may change what they do not
have for good. -/
theorem Sound.of_bare (h : before.Sound) (hforest : after.forest = before.forest)
    (hanchors : after.anchors = before.anchors)
    (hhandles : ∀ id, (after.handleAt? id).map Handle.bare = (before.handleAt? id).map Handle.bare)
    (hregistries : ∀ id, (after.registryAt? id).map Registry.bare =
      (before.registryAt? id).map Registry.bare)
    (hclosed : ∀ registry ∈ after.registries, ∃ old ∈ before.registries,
      old.root = registry.root ∧ (registry.closed = false → old.closed = false)) : after.Sound := by
  refine h.of_forest_eq hforest (fun id hid => .inl ?_) fun registry hmem => ?_
  · rw [mem_held] at hid ⊢
    rcases hid with hnode | ⟨handle, hanchor, hmem⟩ | ⟨registry, hmem, hopen, hroot⟩
    · exact .inl (hanchors ▸ hnode)
    · exact .inr (.inl ⟨handle, hanchors ▸ hanchor, handleRoot_congr hhandles hregistries _ ▸ hmem⟩)
    · obtain ⟨old, hold, hsame, hwas⟩ := hclosed registry hmem
      exact .inr (.inr ⟨old, hold, hwas hopen, hsame.trans hroot⟩)
  · obtain ⟨old, hold, hsame, -⟩ := hclosed registry hmem
    exact .inl ⟨old, hold, hsame⟩

theorem Sound.modifyHandle (h : engine.Sound) {f : Handle V → Handle V}
    (hbare : ∀ handle, engine.handleAt? id = some handle → (f handle).bare = handle.bare) :
    (engine.modifyHandle id f).Sound :=
  h.of_bare rfl rfl (fun _ => map_getElem?_modify hbare) (fun _ => rfl)
    fun registry hmem => ⟨registry, hmem, rfl, fun hopen => hopen⟩

theorem Sound.modifyRegistry (h : engine.Sound) {f : Registry V → Registry V}
    (hbare : ∀ registry, (f registry).bare = registry.bare)
    (hclosed : ∀ registry, registry.closed = true → (f registry).closed = true) :
    (engine.modifyRegistry id f).Sound := by
  refine h.of_bare rfl rfl (fun _ => rfl) (fun _ => map_getElem?_modify fun registry _ =>
    hbare registry) fun registry hmem => ?_
  obtain ⟨i, hi⟩ := List.mem_iff_getElem?.mp hmem
  rw [Engine.modifyRegistry, List.getElem?_modify] at hi
  obtain ⟨old, hold, rfl⟩ := Option.map_eq_some_iff.mp hi
  refine ⟨old, List.mem_iff_getElem?.mpr ⟨i, hold⟩, ?_⟩
  split
  · have hroot : (f old).root = old.root := congrArg (·.root) (hbare old)
    refine ⟨hroot.symm, fun hopen => ?_⟩
    cases hwas : old.closed with
    | false => rfl
    | true => exact absurd (hclosed old hwas) (by simp [hopen])
  · exact ⟨rfl, fun hopen => hopen⟩

theorem root_openRegistry (registry : Registry V) (handle : Handle V) :
    { engine with registries := engine.registries ++ [registry] }.root handle =
        engine.root handle ∨
      { engine with registries := engine.registries ++ [registry] }.root handle =
        registry.root := by
  simp only [root, registryAt?]
  rcases getElem?_concat_cases engine.registries registry handle.registry with hold | ⟨-, hnew⟩
  · rw [hold]
    exact .inl rfl
  · rw [hnew]
    exact .inr rfl

theorem Sound.openRegistry (h : engine.Sound) {registry : Registry V}
    (hroot : engine.forest.gone registry.root = false) :
    { engine with registries := engine.registries ++ [registry] }.Sound := by
  refine h.of_forest_eq rfl (fun id hid => ?_) fun other hmem => ?_
  · rw [mem_held] at hid ⊢
    rcases hid with hnode | ⟨handle, hanchor, hmem⟩ | ⟨other, hmem, hopen, rfl⟩
    · exact .inl (.inl hnode)
    · obtain ⟨found, hfound, rfl⟩ := mem_handleRoot.mp hmem
      rcases root_openRegistry registry found with hold | hnew
      · exact .inl (.inr (.inl ⟨handle, hanchor, mem_handleRoot.mpr ⟨found, hfound, hold.symm⟩⟩))
      · exact .inr (hnew ▸ hroot)
    · rcases List.mem_append.mp hmem with hold | hnew
      · exact .inl (.inr (.inr ⟨other, hold, hopen, rfl⟩))
      · exact .inr (List.mem_singleton.mp hnew ▸ hroot)
  · rcases List.mem_append.mp hmem with hold | hnew
    · exact .inl ⟨other, hold, rfl⟩
    · exact .inr (Forest.has_of_gone_eq_false (List.mem_singleton.mp hnew ▸ hroot))

theorem Sound.makeHandle (h : engine.Sound) {handle : Handle V}
    (hopen : (engine.registryAt? handle.registry).any (!·.closed) = true) :
    { engine with handles := engine.handles ++ [handle] }.Sound := by
  refine h.of_forest_eq rfl (fun id hid => .inl ?_) fun registry hmem => .inl ⟨registry, hmem, rfl⟩
  rw [mem_held] at hid ⊢
  rcases hid with hnode | ⟨other, hanchor, hmem⟩ | hregistry
  · exact .inl hnode
  · obtain ⟨found, hfound, rfl⟩ := mem_handleRoot.mp hmem
    rcases getElem?_concat_cases engine.handles handle other with hold | ⟨-, hnew⟩
    · exact .inr (.inl ⟨other, hanchor, mem_handleRoot.mpr ⟨found, hold.symm.trans hfound, rfl⟩⟩)
    · obtain rfl := Option.some.inj (hnew.symm.trans hfound)
      obtain ⟨registry, hregistry, hwas⟩ := (Option.any_eq_true _ _).mp hopen
      refine .inr (.inr ⟨registry, List.mem_of_getElem? hregistry, by simpa using hwas, ?_⟩)
      simp only [root, registryAt?] at hregistry ⊢
      simp [hregistry]
  · exact .inr (.inr hregistry)

-- ---------------------------------------------------------------------------
-- Forests
-- ---------------------------------------------------------------------------

theorem Sound.of_forest {forest : Forest} (h : engine.Sound) (hlinked : forest.Linked)
    (hhas : ∀ id, engine.forest.Has id → forest.Has id)
    (hheld : ∀ id ∈ engine.held, forest.gone id = false) : { engine with forest }.Sound where
  linked := hlinked
  held := hheld
  rooted registry hmem := hhas _ (h.rooted registry hmem)

/-- A change of a node, counted and announced. -/
theorem Sound.announce {forest : Forest} (h : engine.Sound) (hlinked : forest.Linked)
    (hrevises : engine.forest.Revises forest id) : ({ engine with forest }.announce id).Sound := by
  have hforest : { engine with forest }.Sound := h.of_forest hlinked
    (fun other hhas => (hrevises.has other).mpr hhas)
    fun other hheld => (hrevises.gone other).trans (h.held other hheld)
  exact ⟨hforest.linked, hforest.held, hforest.rooted⟩

theorem Sound.prune (h : engine.Sound) :
    { engine with forest := engine.forest.prune engine.roots }.Sound := by
  refine h.of_forest h.linked.prune (fun _ hhas => (Forest.has_prune _).mpr hhas) fun id hid => ?_
  exact Forest.gone_prune.mpr ⟨h.held id hid, id, held_subset_roots hid, .refl⟩

-- ---------------------------------------------------------------------------
-- Everything that happens
-- ---------------------------------------------------------------------------

/-- The later engine is sound, and continues the earlier one. -/
structure Keeps (before after : Engine V) : Prop where
  sound : after.Sound
  since : before.Since after

theorem Keeps.trans (h : before.Keeps middle) (h' : middle.Keeps after) : before.Keeps after :=
  ⟨h'.sound, h.since.trans h'.since⟩

theorem Sound.keeps (h : engine.Sound) : engine.Keeps engine := ⟨h, .refl engine⟩

/-- A change of a node, counted and announced. -/
theorem keeps_announce {forest : Forest} (h : engine.Sound) (hlinked : forest.Linked)
    (hrevises : engine.forest.Revises forest id) :
    engine.Keeps ({ engine with forest }.announce id) :=
  ⟨h.announce hlinked hrevises, .announce hrevises hlinked⟩

theorem keeps_plant {node : Node} (h : engine.Sound) (hfresh : node.Fresh) :
    engine.Keeps (engine.plant node).2 := by
  have hhas : ∀ id, engine.forest.Has id → (engine.forest.plant node).2.Has id := by
    intro id hid
    simp only [Forest.Has, Forest.plant, List.length_append]
    exact Nat.lt_add_right _ hid
  have hview {α : Type} (view : Node → α) : ∀ id, engine.forest.Has id →
      ((engine.forest.plant node).2.node? id).map view = (engine.forest.node? id).map view :=
    fun id hid => by rw [Forest.node?_plant_of_has node hid]
  -- the new node is the only one that differs
  have hgone : ∀ id, engine.forest.Has id →
      (engine.forest.plant node).2.gone id = engine.forest.gone id :=
    fun id hid => congrArg (Option.getD · true) (hview (·.gone) id hid)
  constructor
  · refine h.of_forest (h.linked.plant hfresh.children) hhas fun id hid => ?_
    have hlive := h.held id hid
    exact (hgone id (Forest.has_of_gone_eq_false hlive)).trans hlive
  · refine .of_views hhas (fun id hid hlive => (hgone id hid).symm.trans hlive) ?_
      (hview Node.face) h.linked
    exact fun id hid => congrArg (Option.getD · 0) (hview (·.version) id hid)

theorem keeps_hold {anchors : List Anchor} (h : engine.Sound)
    (hallows : engine.Allows (.hold anchors)) : engine.Keeps (engine.hold anchors) := by
  refine ⟨h.of_forest_eq rfl (fun id hid => ?_) fun registry hmem => .inl ⟨registry, hmem, rfl⟩,
    .of_forest_eq rfl fun _ _ howes => howes⟩
  rw [mem_held] at hid ⊢
  rcases hid with hnode | ⟨handle, hanchor, hmem⟩ | hregistry
  · exact .inr (hallows _ hnode id (List.mem_singleton_self _))
  · exact .inr (hallows _ hanchor id hmem)
  · exact .inl (.inr (.inr hregistry))

/-- Who is told of changes is not what a node shows. -/
theorem keeps_subscribers {forest : Forest} (h : engine.Sound) (hlinked : forest.Linked)
    (hhas : ∀ id, forest.Has id ↔ engine.forest.Has id)
    (hgone : ∀ id, forest.gone id = engine.forest.gone id)
    (hversion : ∀ id, forest.version id = engine.forest.version id)
    (hface : ∀ id, forest.face? id = engine.forest.face? id) :
    engine.Keeps { engine with forest } where
  sound := h.of_forest hlinked (fun id => (hhas id).mpr)
    fun id hid => (hgone id).trans (h.held id hid)
  since := .of_views (fun id => (hhas id).mpr) (fun id _ hlive => (hgone id).symm.trans hlive)
    (fun id _ => hversion id) (fun id _ => hface id) h.linked

theorem keeps_edit (h : engine.Sound) (edit : Edit) : engine.Keeps (engine.edit id edit).2 := by
  have hlinked : (engine.forest.edit id edit).2.Linked := h.linked.edit edit
  unfold Engine.edit
  cases hchanged : (engine.forest.edit id edit).1 with
  | false =>
    simp only [hchanged, Forest.edit_unchanged hchanged]
    exact h.keeps
  | true =>
    simp only [hchanged]
    exact keeps_announce h hlinked (Forest.revises_edit hchanged)

/-- A composite that is told follows its child with a version of its own, unless
nobody can get at it any more. -/
theorem keeps_relay {node parent : NodeId} {link : LinkId} {subscribers : List Subscriber}
    {rest : List (Frame V)} (h : engine.Sound)
    (hstack : engine.stack = .tell node (.link parent link :: subscribers) :: rest) :
    engine.Keeps ({ engine with stack := .tell node subscribers :: rest }.tell node
      (.link parent link)) := by
  -- the debt through this link is struck off first, and paid by what follows
  let told : Engine V := { engine with stack := .tell node subscribers :: rest }
  have htold : told.Sound := ⟨h.linked, h.held, h.rooted⟩
  have hforest : told.forest = engine.forest := rfl
  have howes : ∀ other link, engine.Owes other link → other ≠ parent → told.Owes other link := by
    intro other mine howes hne
    rcases howes.of_told hstack with heq | hleft
    · exact absurd (Subscriber.link.inj heq).1 hne
    · exact hleft
  have hprune : told.Keeps { told with forest := told.forest.prune told.roots } := by
    refine ⟨htold.prune, .of_views (fun _ => (Forest.has_prune _).mpr) (fun id _ hlive => ?_)
      (fun _ _ => Forest.version_prune _) (fun _ _ => Forest.face?_prune _) h.linked⟩
    exact (Forest.gone_prune.mp hlive).1
  unfold Engine.tell
  dsimp only
  split
  · rename_i hgone
    exact ⟨hprune.sound, Since.of_told hforest hprune.since howes (.inl hgone)⟩
  · rename_i hlive
    replace hlive := eq_false_of_ne_true hlive
    have hbump := hprune.trans
      (keeps_announce hprune.sound hprune.sound.linked.bump (Forest.revises_bump parent))
    refine ⟨hbump.sound, Since.of_told hforest hbump.since howes (.inr ?_)⟩
    show engine.forest.version parent < ((told.forest.prune told.roots).bump parent).version parent
    rw [Forest.version_bump, Forest.version_prune,
      if_pos ⟨rfl, Forest.has_of_gone_eq_false hlive⟩]
    exact Nat.lt_succ_self _

theorem Piece.keeps (h : before.Piece after) (hsound : before.Sound) : before.Keeps after := by
  cases h with
  | hold h => exact keeps_hold hsound h
  | shift h => exact ⟨⟨hsound.linked, hsound.held, hsound.rooted⟩, .of_forest_eq rfl h⟩
  | plant h => exact keeps_plant hsound h
  | subscribe _ =>
    exact keeps_subscribers hsound hsound.linked.subscribe (by simp) (by simp) (by simp) (by simp)
  | unsubscribe h =>
    refine keeps_subscribers hsound (hsound.linked.unsubscribe ?_) (by simp) (by simp) (by simp)
      (by simp)
    rintro parent link rfl
    exact absurd h (by simp [Subscriber.isLink])
  | edit => exact keeps_edit hsound _
  | attach hparent hnode =>
    exact keeps_announce hsound (hsound.linked.attach hnode).bump Forest.revises_attach
  | detach h =>
    exact keeps_announce hsound (hsound.linked.detach h).bump (Forest.revises_detach h)
  | relay h => exact keeps_relay hsound h
  | openRegistry h => exact ⟨hsound.openRegistry h, .of_forest_eq rfl fun _ _ howes => howes⟩
  | modifyRegistry hbare hclosed =>
    exact ⟨hsound.modifyRegistry hbare hclosed, .of_forest_eq rfl fun _ _ howes => howes⟩
  | makeHandle _ hopen => exact ⟨hsound.makeHandle hopen, .of_forest_eq rfl fun _ _ howes => howes⟩
  | modifyListeners =>
    exact ⟨hsound.modifyHandle fun _ _ => rfl, .of_forest_eq rfl fun _ _ howes => howes⟩

theorem Work.keeps (h : before.Work after) (hsound : before.Sound) : before.Keeps after := by
  induction h with
  | refl => exact hsound.keeps
  | tail _ hpiece ih => exact ih.trans (hpiece.keeps ih.sound)

section
variable [BEq V]

theorem keeps_store {reading : Reading V} (h : engine.Sound)
    (hreading : engine.reading? id = some reading) : engine.Keeps (engine.store id reading) := by
  obtain ⟨handle, registry, hhandle, -, rfl⟩ := reading?_eq_some.mp hreading
  have hcounted (metrics : Metrics) : { engine with metrics }.Sound := ⟨h.linked, h.held, h.rooted⟩
  refine ⟨(hcounted _).modifyHandle fun found hfound => ?_,
    .of_forest_eq rfl fun _ _ howes => howes⟩
  obtain rfl := Option.some.inj (hhandle.symm.trans hfound)
  exact handle.bare_read _ _ _

theorem keeps_refreshHandle (h : engine.Sound) (id : HandleId) :
    engine.Keeps (engine.refreshHandle id) := by
  cases hreading : engine.reading? id with
  | none =>
    rw [refreshHandle_of_none hreading]
    exact h.keeps
  | some reading =>
    have hstore := keeps_store h hreading
    rcases refreshHandle_of_some hreading with heq | ⟨registry, eager, notice, heq⟩
    · rw [heq]
      exact hstore
    · rw [heq]
      exact hstore.trans ((work_dispatch registry eager notice).keeps hstore.sound)

theorem Does.keeps (h : before.Does after) (hsound : before.Sound) : before.Keeps after := by
  obtain ⟨middle, hwork, rfl | ⟨id, rfl⟩⟩ := h
  · exact hwork.keeps hsound
  · have hkeeps := hwork.keeps hsound
    exact hkeeps.trans (keeps_refreshHandle hkeeps.sound id)

theorem keeps_of_play? {moves : List (Move V)} (h : before.play? moves = some after)
    (hsound : before.Sound) : before.Keeps after :=
  play?_induction h hsound.keeps fun hkeeps hmove =>
    hkeeps.trans ((does_of_move? hmove).keeps hkeeps.sound)

end

end Overlay.Engine

import Overlay.Forest

/-!
# Views of a forest

A forest is read through views of its nodes: what a node shows (its name and its
content), its children, its version, its subscribers, and whether it is gone.
An operation changes some of them and leaves the others alone. The lemmas here
say which, so that nothing later looks into the list of nodes.
-/

namespace Overlay

/-- What a node shows to a reader of the tree. -/
def Node.face (node : Node) : String × Content := (node.name, node.content)

def Content.children : Content → List Child
  | .composite children => children
  | .fixed _ | .settable _ => []

def Node.isComposite (node : Node) : Bool :=
  match node.content with
  | .composite _ => true
  | .fixed _ | .settable _ => false

theorem Node.children_eq (node : Node) : node.children = node.content.children := by
  obtain ⟨_, content, _, _, _⟩ := node
  cases content <;> rfl

theorem Node.mem_subscribe {node : Node} {subscriber other : Subscriber} :
    other ∈ (node.subscribe subscriber).subscribers ↔
      other ∈ node.subscribers ∨ other = subscriber := by
  unfold Node.subscribe
  split
  · rename_i h
    constructor
    · exact .inl
    · rintro (hother | rfl)
      · exact hother
      · exact h
  · simp

theorem Node.mem_unsubscribe {node : Node} {subscriber other : Subscriber} :
    other ∈ (node.unsubscribe subscriber).subscribers ↔
      other ∈ node.subscribers ∧ other ≠ subscriber := by
  simp [Node.unsubscribe]

theorem Place.mem_insert {α : Type} {a b : α} {items : List α} (place : Place) :
    b ∈ place.insert a items ↔ b = a ∨ b ∈ items := by
  cases place
  · simp [Place.insert]
  · simp [Place.insert, or_comm]

namespace Forest

variable {forest : Forest} {id other parent node : NodeId}

def face? (forest : Forest) (id : NodeId) : Option (String × Content) :=
  (forest.node? id).map Node.face

/-- The forest holds a node of this number. -/
def Has (forest : Forest) (id : NodeId) : Prop := id < forest.nodes.length

instance (forest : Forest) (id : NodeId) : Decidable (forest.Has id) :=
  inferInstanceAs (Decidable (id < forest.nodes.length))

theorem has_iff : forest.Has id ↔ ∃ node, forest.node? id = some node := by
  rw [Has, node?, ← Option.isSome_iff_exists]
  simp

theorem not_has_of_none (h : forest.node? id = none) : ¬ forest.Has id := by
  intro hhas
  obtain ⟨node, hnode⟩ := has_iff.mp hhas
  exact absurd (h.symm.trans hnode) (by simp)

/-- A view that says more of a node than of no node shows that there is one. -/
theorem has_of_node?_ne_none (h : forest.node? id ≠ none) : forest.Has id :=
  has_iff.mpr (Option.ne_none_iff_exists'.mp h)

theorem has_of_gone_eq_false (h : forest.gone id = false) : forest.Has id :=
  has_of_node?_ne_none fun hnone => by simp [gone, hnone] at h

theorem has_of_mem_subscribers {subscriber : Subscriber} (h : subscriber ∈ forest.subscribers id) :
    forest.Has id :=
  has_of_node?_ne_none fun hnone => by simp [subscribers, hnone] at h

theorem has_of_mem_children {child : Child} (h : child ∈ forest.children id) : forest.Has id :=
  has_of_node?_ne_none fun hnone => by simp [children, hnone] at h

theorem version_of_not_has (h : ¬ forest.Has id) : forest.version id = 0 := by
  cases hnode : forest.node? id with
  | none => simp [version, hnode]
  | some node => exact absurd (has_iff.mpr ⟨node, hnode⟩) h

theorem children_eq : forest.children id =
    ((forest.face? id).map fun face => face.2.children).getD [] := by
  cases h : forest.node? id with
  | none => simp [children, face?, h]
  | some node => simp [children, face?, h, Node.face, Node.children_eq]

theorem children_congr {before after : Forest} (h : after.face? id = before.face? id) :
    after.children id = before.children id := by
  rw [children_eq, children_eq, h]

-- ---------------------------------------------------------------------------
-- One node rewritten
-- ---------------------------------------------------------------------------

theorem node?_modify (f : Node → Node) :
    (forest.modify id f).node? other =
      (forest.node? other).map fun node => if id = other then f node else node := by
  simp only [node?, modify, List.getElem?_modify]
  rfl

/-- A view that a rewriting keeps is the same everywhere. -/
theorem map_node?_modify {α : Type} {view : Node → α} {f : Node → Node}
    (h : ∀ node, view (f node) = view node) :
    ((forest.modify id f).node? other).map view = (forest.node? other).map view := by
  rw [node?_modify, Option.map_map]
  congr 1
  funext node
  simp only [Function.comp_apply]
  split
  · exact h node
  · rfl

@[simp] theorem has_modify (f : Node → Node) :
    (forest.modify id f).Has other ↔ forest.Has other := by
  simp [Has, modify]

section
variable {f : Node → Node}

theorem face?_modify (h : ∀ node, (f node).face = node.face) :
    (forest.modify id f).face? other = forest.face? other := map_node?_modify h

theorem version_modify (h : ∀ node, (f node).version = node.version) :
    (forest.modify id f).version other = forest.version other := by
  simp only [version, map_node?_modify h]

theorem gone_modify (h : ∀ node, (f node).gone = node.gone) :
    (forest.modify id f).gone other = forest.gone other := by
  simp only [gone, map_node?_modify h]

theorem subscribers_modify (h : ∀ node, (f node).subscribers = node.subscribers) :
    (forest.modify id f).subscribers other = forest.subscribers other := by
  simp only [subscribers, map_node?_modify h]

theorem node?_modify_of_ne (h : other ≠ id) :
    (forest.modify id f).node? other = forest.node? other := by
  rw [node?_modify]
  simp [Ne.symm h]

end

-- ---------------------------------------------------------------------------
-- Versions
-- ---------------------------------------------------------------------------

theorem version_bump :
    (forest.bump id).version other =
      forest.version other + if other = id ∧ forest.Has id then 1 else 0 := by
  simp only [version, bump, node?_modify]
  cases h : forest.node? other with
  | none =>
    have hnot : ¬ (other = id ∧ forest.Has id) := by
      rintro ⟨rfl, hhas⟩
      exact not_has_of_none h hhas
    simp [hnot]
  | some node =>
    have hhas : forest.Has other := has_iff.mpr ⟨node, h⟩
    by_cases he : other = id
    · subst he
      simp [hhas]
    · simp [he, Ne.symm he]

@[simp] theorem face?_bump : (forest.bump id).face? other = forest.face? other :=
  face?_modify fun _ => rfl

@[simp] theorem children_bump : (forest.bump id).children other = forest.children other :=
  children_congr face?_bump

@[simp] theorem gone_bump : (forest.bump id).gone other = forest.gone other :=
  gone_modify fun _ => rfl

@[simp] theorem subscribers_bump : (forest.bump id).subscribers other = forest.subscribers other :=
  subscribers_modify fun _ => rfl

@[simp] theorem has_bump : (forest.bump id).Has other ↔ forest.Has other := has_modify _

-- ---------------------------------------------------------------------------
-- Subscribers
-- ---------------------------------------------------------------------------

section
variable {subscriber : Subscriber}

theorem face_subscribe (node : Node) : (node.subscribe subscriber).face = node.face := by
  unfold Node.subscribe
  split <;> rfl

@[simp] theorem face?_subscribe :
    (forest.subscribe id subscriber).face? other = forest.face? other :=
  face?_modify face_subscribe

@[simp] theorem children_subscribe :
    (forest.subscribe id subscriber).children other = forest.children other :=
  children_congr face?_subscribe

@[simp] theorem version_subscribe :
    (forest.subscribe id subscriber).version other = forest.version other := by
  refine version_modify fun node => ?_
  unfold Node.subscribe
  split <;> rfl

@[simp] theorem gone_subscribe :
    (forest.subscribe id subscriber).gone other = forest.gone other := by
  refine gone_modify fun node => ?_
  unfold Node.subscribe
  split <;> rfl

@[simp] theorem has_subscribe :
    (forest.subscribe id subscriber).Has other ↔ forest.Has other := has_modify _

theorem mem_subscribers_subscribe {told : Subscriber} :
    told ∈ (forest.subscribe id subscriber).subscribers other ↔
      told ∈ forest.subscribers other ∨ (other = id ∧ forest.Has id ∧ told = subscriber) := by
  simp only [subscribers, subscribe, node?_modify]
  cases h : forest.node? other with
  | none =>
    have hnot : other = id → ¬ forest.Has id := by
      rintro rfl
      exact not_has_of_none h
    simpa using fun he hhas _ => hnot he hhas
  | some node =>
    have hhas : forest.Has other := has_iff.mpr ⟨node, h⟩
    by_cases he : other = id
    · subst he
      simp [hhas, Node.mem_subscribe]
    · simp [he, Ne.symm he]

@[simp] theorem face?_unsubscribe :
    (forest.unsubscribe id subscriber).face? other = forest.face? other :=
  face?_modify fun _ => rfl

@[simp] theorem children_unsubscribe :
    (forest.unsubscribe id subscriber).children other = forest.children other :=
  children_congr face?_unsubscribe

@[simp] theorem version_unsubscribe :
    (forest.unsubscribe id subscriber).version other = forest.version other :=
  version_modify fun _ => rfl

@[simp] theorem gone_unsubscribe :
    (forest.unsubscribe id subscriber).gone other = forest.gone other :=
  gone_modify fun _ => rfl

@[simp] theorem has_unsubscribe :
    (forest.unsubscribe id subscriber).Has other ↔ forest.Has other := has_modify _

theorem mem_subscribers_unsubscribe {told : Subscriber} :
    told ∈ (forest.unsubscribe id subscriber).subscribers other ↔
      told ∈ forest.subscribers other ∧ ¬ (other = id ∧ told = subscriber) := by
  simp only [subscribers, unsubscribe, node?_modify]
  cases h : forest.node? other with
  | none => simp
  | some node =>
    by_cases he : other = id
    · subst he
      simp [Node.mem_unsubscribe]
    · simp [he, Ne.symm he]

end

-- ---------------------------------------------------------------------------
-- Children
-- ---------------------------------------------------------------------------

section
variable {children : List Child}

theorem children_setChildren :
    (forest.setChildren id children).children other =
      if other = id ∧ forest.Has id then children else forest.children other := by
  simp only [Forest.children, setChildren, node?_modify]
  cases h : forest.node? other with
  | none =>
    have hnot : ¬ (other = id ∧ forest.Has id) := by
      rintro ⟨rfl, hhas⟩
      exact not_has_of_none h hhas
    simp [hnot]
  | some node =>
    have hhas : forest.Has other := has_iff.mpr ⟨node, h⟩
    by_cases he : other = id
    · subst he
      simp [hhas, Node.children]
    · simp [he, Ne.symm he]

theorem face?_setChildren_of_ne (h : other ≠ id) :
    (forest.setChildren id children).face? other = forest.face? other := by
  simp only [face?, setChildren, node?_modify_of_ne h]

@[simp] theorem version_setChildren :
    (forest.setChildren id children).version other = forest.version other :=
  version_modify fun _ => rfl

@[simp] theorem gone_setChildren :
    (forest.setChildren id children).gone other = forest.gone other :=
  gone_modify fun _ => rfl

@[simp] theorem subscribers_setChildren :
    (forest.setChildren id children).subscribers other = forest.subscribers other :=
  subscribers_modify fun _ => rfl

@[simp] theorem has_setChildren :
    (forest.setChildren id children).Has other ↔ forest.Has other := has_modify _

end

-- ---------------------------------------------------------------------------
-- Operations
-- ---------------------------------------------------------------------------

section
variable {place : Place} {name : String}

theorem children_attach :
    (forest.attach parent place name node).children other =
      if other = parent ∧ forest.Has parent then
        place.insert ⟨name, node, forest.links⟩ (forest.children parent)
      else forest.children other := by
  simp only [attach, children_subscribe]
  exact children_setChildren

theorem mem_subscribers_attach {told : Subscriber} :
    told ∈ (forest.attach parent place name node).subscribers other ↔
      told ∈ forest.subscribers other ∨
        (other = node ∧ forest.Has node ∧ told = .link parent forest.links) := by
  simp only [attach, mem_subscribers_subscribe, subscribers_setChildren, has_setChildren]
  exact Iff.rfl

theorem face?_attach_of_ne (h : other ≠ parent) :
    (forest.attach parent place name node).face? other = forest.face? other := by
  simp only [attach, face?_subscribe]
  exact face?_setChildren_of_ne h

@[simp] theorem version_attach :
    (forest.attach parent place name node).version other = forest.version other := by
  simp only [attach, version_subscribe, version_setChildren]
  rfl

@[simp] theorem gone_attach :
    (forest.attach parent place name node).gone other = forest.gone other := by
  simp only [attach, gone_subscribe, gone_setChildren]
  rfl

@[simp] theorem has_attach :
    (forest.attach parent place name node).Has other ↔ forest.Has other := by
  simp only [attach, has_subscribe, has_setChildren]
  exact Iff.rfl

@[simp] theorem links_attach :
    (forest.attach parent place name node).links = forest.links + 1 := rfl

theorem detach_eq_some_iff {child : Child} {after : Forest} :
    forest.detach parent name = some (child, after) ↔
      (forest.children parent).find? (·.name = name) = some child ∧
        after = (forest.setChildren parent
          ((forest.children parent).eraseP (·.name = name))).unsubscribe child.node
            (.link parent child.link) := by
  simp only [detach, Option.bind_eq_bind, Option.bind_eq_some_iff, Option.pure_def,
    Option.some.injEq, Prod.mk.injEq]
  constructor
  · rintro ⟨_, hfind, rfl, rfl⟩
    exact ⟨hfind, rfl⟩
  · rintro ⟨hfind, rfl⟩
    exact ⟨child, hfind, rfl, rfl⟩

end

theorem edit_eq (forest : Forest) (id : NodeId) (edit : Edit) :
    forest.edit id edit = (false, forest) ∨
      ∃ node entries next, forest.node? id = some node ∧ node.content = .settable entries ∧
        edit.run entries = (next, true) ∧
        forest.edit id edit = (true, forest.modify id fun node =>
          { node with content := .settable next, version := node.version + 1 }) := by
  unfold Forest.edit
  split
  · rename_i name entries version subscribers gone hnode
    cases hrun : edit.run entries with
    | mk next changed =>
      cases changed with
      | false => exact .inl (by simp)
      | true => exact .inr ⟨_, entries, next, hnode, rfl, hrun, by simp⟩
  · exact .inl rfl

theorem node?_plant (planted : Node) :
    (forest.plant planted).2.node? other =
      if other = forest.nodes.length then some planted else forest.node? other := by
  simp only [plant, node?, List.getElem?_append]
  by_cases h : other < forest.nodes.length
  · simp [h, Nat.ne_of_lt h]
  · by_cases he : other = forest.nodes.length
    · simp [he]
    · have hlen : forest.nodes.length < other :=
        Nat.lt_of_le_of_ne (Nat.le_of_not_lt h) (Ne.symm he)
      have hpos : other - forest.nodes.length ≠ 0 := Nat.sub_ne_zero_of_lt hlen
      simp [h, he, hpos]

theorem node?_plant_of_has (planted : Node) (h : forest.Has id) :
    (forest.plant planted).2.node? id = forest.node? id := by
  rw [node?_plant, if_neg (Nat.ne_of_lt h)]

theorem node?_prune (roots : List NodeId) :
    (forest.prune roots).node? other = (forest.node? other).map fun node =>
      { node with
        gone := node.gone || !(forest.reach forest.nodes.length roots).contains other } := by
  simp [prune, node?]

@[simp] theorem has_prune (roots : List NodeId) :
    (forest.prune roots).Has other ↔ forest.Has other := by
  simp [prune, Has]

@[simp] theorem face?_prune (roots : List NodeId) :
    (forest.prune roots).face? other = forest.face? other := by
  simp only [face?, node?_prune, Option.map_map]
  rfl

@[simp] theorem children_prune (roots : List NodeId) :
    (forest.prune roots).children other = forest.children other :=
  children_congr (face?_prune roots)

@[simp] theorem version_prune (roots : List NodeId) :
    (forest.prune roots).version other = forest.version other := by
  simp only [version, node?_prune, Option.map_map]
  rfl

@[simp] theorem subscribers_prune (roots : List NodeId) :
    (forest.prune roots).subscribers other = forest.subscribers other := by
  simp only [subscribers, node?_prune, Option.map_map]
  rfl

end Forest

end Overlay

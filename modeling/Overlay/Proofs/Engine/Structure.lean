import Mathlib
import Overlay.Proofs.Engine.Loads
import Overlay.Proofs.Engine.Rises
import Overlay.Proofs.Forest.Structure

/-!
# Structural edits

Of a composite's children a reader knows the names and the nodes. They are edited like a list
(`ListEdit`), by nothing but the operations that put a child in or take one out, in whatever run
(`layers_of_play?`). An edit that fails does nothing at all. A child that is put in front and taken
out again by its name leaves all nodes as they were, but for their versions, if nothing else
happens to nodes in the meantime (`editsList_of_run`).
-/

namespace Overlay

variable {V : Type}

-- ---------------------------------------------------------------------------
-- Lists of named nodes
-- ---------------------------------------------------------------------------

/-- An edit of a list of named nodes. -/
inductive ListEdit
  | addFirst (name : String) (node : NodeId)
  | addLast (name : String) (node : NodeId)
  /-- Add at the end, unless the name is taken. -/
  | addUnique (name : String) (node : NodeId)
  /-- Remove the first entry of the name. -/
  | remove (name : String)

namespace ListEdit

def run : ListEdit → List (String × NodeId) → List (String × NodeId)
  | .addFirst name node, items => (name, node) :: items
  | .addLast name node, items => items ++ [(name, node)]
  | .addUnique name node, items =>
    if name ∈ items.map Prod.fst then items else items ++ [(name, node)]
  | .remove name, items => items.eraseP (·.1 = name)

/-- The edit of a composite's children that a move makes. -/
def of? (parent : NodeId) : Move V → Option ListEdit
  | .call (.attach holder place name node) =>
    if holder = parent then
      some (match place with
        | .first => .addFirst name node
        | .last => .addLast name node)
    else none
  | .call (.attachUnique holder name node) =>
    if holder = parent then some (.addUnique name node) else none
  | .call (.detach holder name) => if holder = parent then some (.remove name) else none
  | _ => none

/-- What the edits that moves make of a composite's children come to. -/
def runAll (parent : NodeId) (moves : List (Move V)) (items : List (String × NodeId)) :
    List (String × NodeId) :=
  (moves.filterMap (of? parent)).foldl (fun items edit => edit.run items) items

end ListEdit

namespace Forest

variable {forest after : Forest} {id parent node : NodeId} {name : String}

theorem layers_congr {before : Forest} (h : after.children id = before.children id) :
    after.layers id = before.layers id := by
  rw [layers, h, layers]

theorem layers_attach {place : Place} (hhas : forest.Has parent) :
    (forest.attach parent place name node).layers id =
      if parent = id then place.insert (name, node) (forest.layers id) else forest.layers id := by
  rw [layers, children_attach]
  by_cases hid : id = parent
  · subst hid
    rw [if_pos ⟨rfl, hhas⟩, if_pos rfl]
    cases place with
    | first => rfl
    | last => simp [Place.insert, layers]
  · rw [if_neg fun h => hid h.1, if_neg fun h => hid h.symm, layers]

theorem layers_detach {child : Child} (h : forest.detach parent name = some (child, after)) :
    after.layers id =
      if parent = id then (forest.layers id).eraseP (·.1 = name) else forest.layers id := by
  obtain ⟨hfind, rfl⟩ := detach_eq_some_iff.mp h
  rw [layers, children_unsubscribe, children_setChildren]
  by_cases hid : id = parent
  · subst hid
    rw [if_pos ⟨rfl, has_of_mem_children (List.mem_of_find?_eq_some hfind)⟩, if_pos rfl, layers,
      List.eraseP_map]
    rfl
  · rw [if_neg fun h => hid h.1, if_neg fun h => hid h.symm, layers]

theorem children_plant {planted : Node} (h : planted.children = []) :
    (forest.plant planted).2.children id = forest.children id := by
  by_cases hhas : forest.Has id
  · rw [children, node?_plant_of_has planted hhas, children]
  · have hnone : forest.node? id = none := by
      simpa [Has, node?] using hhas
    rw [children, node?_plant, children, hnone]
    split
    · exact h
    · rfl

theorem mem_names_layers : name ∈ (forest.layers parent).map Prod.fst ↔
    ∃ child ∈ forest.children parent, child.name = name := by
  simp [layers]

theorem detach_eq_none_iff : forest.detach parent name = none ↔
    name ∉ (forest.layers parent).map Prod.fst := by
  rw [mem_names_layers]
  cases hfind : (forest.children parent).find? (·.name = name) with
  | none =>
    have hnone : ∀ child ∈ forest.children parent, child.name ≠ name := by
      simpa using List.find?_eq_none.mp hfind
    simpa [detach, hfind] using hnone
  | some child =>
    have hname : child.name = name := by simpa using List.find?_some hfind
    simpa [detach, hfind] using ⟨child, List.mem_of_find?_eq_some hfind, hname⟩

end Forest

namespace Engine

variable {engine before after start finish : Engine V} {parent node : NodeId} {name : String}

-- ---------------------------------------------------------------------------
-- Telling
-- ---------------------------------------------------------------------------

theorem alike_tell (node : NodeId) (subscriber : Subscriber) :
    engine.forest.Alike (engine.tell node subscriber).forest := by
  have hself : engine.forest.Alike engine.forest := .of_eq rfl
  cases subscriber with
  | registry id => exact hself
  | observer id => exact hself
  | link parent link =>
    unfold tell
    dsimp only
    split
    · exact hself.prune _
    · exact (hself.prune _).bump

-- ---------------------------------------------------------------------------
-- Single edits
-- ---------------------------------------------------------------------------

theorem layers_changed (engine : Engine V) (holder id : NodeId) :
    (engine.changed holder).forest.layers id = engine.forest.layers id :=
  Forest.layers_congr Forest.children_bump

theorem layers_attach {place : Place} (hparent : engine.forest.gone parent = false)
    (id : NodeId) : (engine.attach parent place name node).forest.layers id =
      if parent = id then place.insert (name, node) (engine.forest.layers id)
      else engine.forest.layers id :=
  (layers_changed _ parent id).trans (Forest.layers_attach (Forest.has_of_gone_eq_false hparent))

/-- A name that is taken is an error, and it is the only one. -/
theorem attachUnique_eq (engine : Engine V) (parent : NodeId) (name : String) (node : NodeId) :
    engine.attachUnique parent name node =
      if name ∈ (engine.forest.layers parent).map Prod.fst then
        .error (.alreadyExists name (engine.forest.name parent))
      else .ok (engine.attach parent .last name node) := by
  have hiff : ((engine.forest.children parent).any (·.name = name)) = true ↔
      name ∈ (engine.forest.layers parent).map Prod.fst := by
    rw [Forest.mem_names_layers]
    simp
  simp only [attachUnique, hiff]

theorem detach_of_not_mem (h : name ∉ (engine.forest.layers parent).map Prod.fst) :
    engine.detach parent name = (none, engine) := by
  rw [detach, Forest.detach_eq_none_iff.mpr h]

/-- The node that is returned is that of the first entry of the name. -/
theorem detach_fst (engine : Engine V) (parent : NodeId) (name : String) :
    (engine.detach parent name).1 =
      ((engine.forest.layers parent).find? (·.1 = name)).map Prod.snd := by
  have hfind : (engine.forest.layers parent).find? (·.1 = name) =
      ((engine.forest.children parent).find? (·.name = name)).map fun child =>
        (child.name, child.node) := List.find?_map
  rw [hfind, Option.map_map]
  cases hchild : (engine.forest.children parent).find? (·.name = name) with
  | none => simp [detach, Forest.detach, hchild]
  | some child => simp [detach, Forest.detach, hchild]

theorem layers_detach (engine : Engine V) (parent : NodeId) (name : String) (id : NodeId) :
    (engine.detach parent name).2.forest.layers id =
      if parent = id then (engine.forest.layers id).eraseP (·.1 = name)
      else engine.forest.layers id := by
  cases hdetach : engine.forest.detach parent name with
  | none =>
    have hnone := Forest.detach_eq_none_iff.mp hdetach
    rw [detach_of_not_mem hnone]
    split
    · rename_i hid
      subst hid
      refine (List.eraseP_of_forall_not fun item hitem => ?_).symm
      rw [decide_eq_true_eq]
      exact fun hname => hnone (hname ▸ List.mem_map_of_mem hitem)
    · rfl
  | some found =>
    simp only [detach, hdetach]
    exact (layers_changed _ parent id).trans (Forest.layers_detach hdetach)

theorem children_edit (id : NodeId) (edit : Edit) :
    (engine.edit id edit).2.forest.children parent = engine.forest.children parent := by
  rw [edit_snd]
  split <;> exact Forest.children_edit edit

variable [BEq V] {move : Move V} {moves : List (Move V)}

theorem alike_of_move? (hspares : move.sparesNodes = true) (h : before.move? move = some after) :
    before.forest.Alike after.forest := by
  rcases forest_of_move? hspares h with hforest | ⟨stack, node, subscriber, rfl⟩
  · exact .of_eq hforest
  · have htell : ({ before with stack } : Engine V).forest.Alike _ := alike_tell node subscriber
    exact htell

theorem alike_of_play? (h : before.play? moves = some after)
    (hspares : ∀ move ∈ moves, move.sparesNodes = true) : before.forest.Alike after.forest := by
  induction moves generalizing before with
  | nil => exact .of_eq (Option.some.inj h ▸ rfl)
  | cons move rest ih =>
    obtain ⟨next, hnext, hrest⟩ := play?_cons_eq_some.mp h
    exact (alike_of_move? (hspares move List.mem_cons_self) hnext).trans
      (ih hrest fun move hmem => hspares move (List.mem_cons_of_mem _ hmem))

-- ---------------------------------------------------------------------------
-- The list model
-- ---------------------------------------------------------------------------

/-- Of all operations those that put a child in or take one out edit the list of children. -/
theorem layers_start {call : Call V} (hallows : engine.Allows call) :
    (engine.start call).forest.layers parent =
      (ListEdit.of? parent (.call call)).elim (engine.forest.layers parent)
        (·.run (engine.forest.layers parent)) := by
  have hkept {after : Engine V}
      (h : after.forest.children parent = engine.forest.children parent) :
      after.forest.layers parent = engine.forest.layers parent := Forest.layers_congr h
  cases call with
  | attach holder place name node =>
    refine (layers_attach hallows.2.1 parent).trans ?_
    simp only [ListEdit.of?]
    split
    · cases place <;> rfl
    · rfl
  | attachUnique holder name node =>
    simp only [start, attachUnique_eq, ListEdit.of?]
    by_cases hid : holder = parent
    · subst hid
      rw [if_pos rfl]
      simp only [Option.elim, ListEdit.run]
      split
      · rfl
      · exact (layers_attach hallows.2.1 holder).trans (if_pos rfl)
    · rw [if_neg hid]
      split
      · rfl
      · exact (layers_attach hallows.2.1 parent).trans (if_neg hid)
  | detach holder name =>
    refine (layers_detach engine holder name parent).trans ?_
    simp only [ListEdit.of?]
    split <;> rfl
  | fixed name entries => exact hkept (Forest.children_plant rfl)
  | settable name entries => exact hkept (Forest.children_plant rfl)
  | composite name => exact hkept (Forest.children_plant rfl)
  | edit id edit => exact hkept (children_edit id edit)
  | observe id observer => exact hkept Forest.children_subscribe
  | unobserve id observer => exact hkept Forest.children_unsubscribe
  | openRegistry root policy delimiter eager =>
    refine hkept ?_
    simp only [start, openRegistry_eq, forestWith]
    split
    · exact Forest.children_subscribe
    · rfl
  | closeRegistry id =>
    refine hkept ?_
    simp only [start, closeRegistry]
    split
    · rfl
    · exact Forest.children_unsubscribe
  | absorb id answer =>
    refine hkept ?_
    simp only [start, absorb]
    split
    · rfl
    · rfl
    · split <;> exact Forest.children_edit _
  | reload leaf source file =>
    refine hkept ?_
    simp only [start, reload]
    split
    · rfl
    · rename_i entries _
      show (engine.edit leaf (.update (.snapshot entries))).2.forest.children parent = _
      exact children_edit leaf _
  | _ => exact hkept (by rw [forest_start rfl])

theorem layers_of_move? (h : before.move? move = some after) :
    after.forest.layers parent = (ListEdit.of? parent move).elim (before.forest.layers parent)
      (·.run (before.forest.layers parent)) := by
  cases move with
  | call call =>
    obtain ⟨⟨-, hallows⟩, hstart⟩ := Option.ite_none_right_eq_some.mp h
    obtain rfl := Option.some.inj hstart
    exact layers_start hallows
  | _ => exact Forest.layers_congr ((alike_of_move? rfl h).children parent)

theorem layers_of_play? (h : start.play? moves = some finish) :
    finish.forest.layers parent = ListEdit.runAll parent moves (start.forest.layers parent) := by
  induction moves generalizing start with
  | nil => exact Option.some.inj h ▸ rfl
  | cons move rest ih =>
    obtain ⟨next, hnext, hrest⟩ := play?_cons_eq_some.mp h
    rw [ih hrest, layers_of_move? hnext]
    cases hedit : ListEdit.of? parent move with
    | none => simp [ListEdit.runAll, hedit]
    | some edit => simp [ListEdit.runAll, hedit]

-- ---------------------------------------------------------------------------
-- In and out again
-- ---------------------------------------------------------------------------

theorem alike_of_removed {first last removed : Engine V} {between : List (Move V)}
    (hlinked : start.forest.Linked) (htight : start.forest.Tight)
    (hadd : start.move? (.call (.attach parent .first name node)) = some first)
    (hbetween : first.play? between = some last)
    (hspares : ∀ move ∈ between, move.sparesNodes = true)
    (hremove : last.move? (.call (.detach parent name)) = some removed) :
    (last.detach parent name).1 = some node ∧ start.forest.Alike removed.forest := by
  obtain ⟨⟨-, hparent, -, hnode⟩, hstart⟩ := Option.ite_none_right_eq_some.mp hadd
  obtain rfl := Option.some.inj hstart
  have hadded : (start.forest.attach parent .first name node).Alike last.forest :=
    (Forest.Alike.of_eq rfl).bump.trans (alike_of_play? hbetween hspares)
  obtain ⟨after, hdetach, halike⟩ := Forest.alike_detach_attach hlinked htight hparent
    (Forest.has_of_gone_eq_false hnode) hadded
  have hengine : last.detach parent name =
      (some node, ({ last with forest := after }.push (.keep node)).changed parent) := by
    simp only [detach, hdetach]
  obtain ⟨-, hstart⟩ := Option.ite_none_right_eq_some.mp hremove
  have hremoved : (last.detach parent name).2 = removed := Option.some.inj hstart
  rw [← hremoved, hengine]
  exact ⟨rfl, halike.bump⟩

/-- From this moment on the children of the node are edited like a list. -/
structure EditsList (start : Engine V) (parent : NodeId) : Prop where
  /-- In every run the edits, and nothing else, make the list what it is. -/
  run : ∀ moves finish, start.play? moves = some finish →
    finish.forest.layers parent = ListEdit.runAll parent moves (start.forest.layers parent)
  /-- The one reason to refuse a child is that its name is taken. -/
  unique : ∀ name node, start.attachUnique parent name node =
    if name ∈ (start.forest.layers parent).map Prod.fst then
      .error (.alreadyExists name (start.forest.name parent))
    else .ok (start.attach parent .last name node)
  /-- A child that is refused leaves everything as it is, and nobody is told. -/
  refused : ∀ name node, name ∈ (start.forest.layers parent).map Prod.fst →
    start.start (.attachUnique parent name node) = start
  found : ∀ name, (start.detach parent name).1 =
    ((start.forest.layers parent).find? (·.1 = name)).map Prod.snd
  /-- A name that nobody has leaves everything as it is, and nobody is told. -/
  missed : ∀ name, name ∉ (start.forest.layers parent).map Prod.fst →
    start.start (.detach parent name) = start
  /-- What has been put in front is what is taken out, and all nodes are as before, if nothing
  but telling is done to nodes in between and afterwards. -/
  undone : ∀ name node first between last removed later finish,
    start.move? (.call (.attach parent .first name node)) = some first →
    first.play? between = some last → last.move? (.call (.detach parent name)) = some removed →
    removed.play? later = some finish →
    (∀ move ∈ between ++ later, move.sparesNodes = true) →
    (last.detach parent name).1 = some node ∧
      finish.forest.children parent = start.forest.children parent ∧
      (∀ id, finish.forest.tree id = start.forest.tree id) ∧
      ∀ id, finish.forest.subscribers id = start.forest.subscribers id

theorem editsList_of_run {earlier : List (Move V)}
    (hearlier : ({} : Engine V).play? earlier = some start) (parent : NodeId) :
    start.EditsList parent where
  run _ _ := layers_of_play?
  unique := attachUnique_eq start parent
  refused name node htaken := by
    simp only [Engine.start, attachUnique_eq, if_pos htaken]
    rfl
  found := detach_fst start parent
  missed name hmissing := by
    simp only [Engine.start, detach_of_not_mem hmissing]
  undone name node first between last removed later finish hadd hbetween hremove hlater
      hspares := by
    have hlinked := (keeps_of_play? hearlier sound_empty).sound.linked
    have htight := tight_of_play? hearlier Forest.tight_empty
    obtain ⟨hbefore, hafter⟩ := List.forall_mem_append.mp hspares
    obtain ⟨hfound, hremoved⟩ := alike_of_removed hlinked htight hadd hbetween hbefore hremove
    have halike := hremoved.trans (alike_of_play? hlater hafter)
    exact ⟨hfound, halike.children parent, halike.tree, halike.subscribers⟩

/-- A leaf is in a composite twice under one name, and the composite is observed. -/
def twins : List (Move Nat) :=
  leafInRoot (.ofPairs [("key", "value")]) ++
    [.call (.attach 1 .last "leaf" 0), .step, .call (.observe 1 7)]

/-- The observer is called. -/
def observed : List (Move Nat) := [.step, .resume, .step]

theorem editsList_twins : ∃ start first last removed finish : Engine Nat,
    ({} : Engine Nat).play? twins = some start ∧
      start.forest.layers 1 = [("leaf", 0), ("leaf", 0)] ∧
      start.start (.attachUnique 1 "leaf" 0) = start ∧
      start.move? (.call (.attach 1 .first "leaf" 0)) = some first ∧
      first.play? observed = some last ∧
      last.forest.layers 1 = [("leaf", 0), ("leaf", 0), ("leaf", 0)] ∧
      last.move? (.call (.detach 1 "leaf")) = some removed ∧
      removed.play? (observed ++ [.step]) = some finish ∧ finish.isIdle ∧
      (last.detach 1 "leaf").1 = some 0 ∧
      finish.forest.children 1 = start.forest.children 1 ∧
      (∀ id, finish.forest.tree id = start.forest.tree id) ∧
      ∀ id, finish.forest.subscribers id = start.forest.subscribers id := by
  have hrun : (({} : Engine Nat).play? twins).any (fun start =>
      start.forest.layers 1 = [("leaf", 0), ("leaf", 0)] &&
        (start.move? (.call (.attach 1 .first "leaf" 0))).any fun first =>
          (first.play? observed).any fun last =>
            (last.move? (.call (.detach 1 "leaf"))).any fun removed =>
              (removed.play? (observed ++ [.step])).any (·.isIdle)) = true := by
    cbv
  simp only [Option.any_eq_true, Bool.and_eq_true, decide_eq_true_eq] at hrun
  obtain ⟨start, hearlier, hlayers, first, hadd, last, hbetween, removed, hremove, finish, hlater,
    hidle⟩ := hrun
  have hedits := editsList_of_run hearlier 1
  have hlist := hedits.run _ last (play?_cons_eq_some.mpr ⟨first, hadd, hbetween⟩)
  rw [hlayers] at hlist
  exact ⟨start, first, last, removed, finish, hearlier, hlayers,
    hedits.refused "leaf" 0 (by simp [hlayers]), hadd, hbetween, hlist, hremove, hlater, hidle,
    hedits.undone "leaf" 0 first _ last removed _ finish hadd hbetween hremove hlater (by decide)⟩

end Engine

end Overlay

import Mathlib.Data.List.Nodup
import Overlay.Proofs.Cascade.Names
import Overlay.Proofs.Engine.Calm
import Overlay.Proofs.Engine.Sound

/-!
# Loading a cascade

A load asks the loader for one candidate after another and puts each that is found in
front of a new composite, up to the first failure. What the loader is asked and what it
finds is told by `Finds`; the composite that comes of it has the found candidates as
its children, the last one first (`Gathers`). Nothing else shows a change, so below
the composite the candidates' trees are what they were before the load.
-/

namespace Overlay

open Template (MissingPolicy TemplateError Lookup Resolves)

namespace Forest

variable {forest : Forest} {target node : NodeId} {name : String}

/-- All children are there. -/
def Closed (forest : Forest) : Prop :=
  ∀ parent, ∀ child ∈ forest.children parent, forest.Has child.node

theorem Linked.closed (h : forest.Linked) : forest.Closed :=
  fun parent child hchild => has_of_mem_subscribers (h.subscribed parent child hchild)

theorem Closed.bump (h : forest.Closed) : (forest.bump target).Closed := by
  intro parent child hchild
  rw [children_bump] at hchild
  exact has_bump.mpr (h parent child hchild)

theorem Closed.attach {place : Place} (h : forest.Closed) (hnode : forest.Has node) :
    (forest.attach target place name node).Closed := by
  intro parent child hchild
  rw [has_attach]
  rw [children_attach] at hchild
  split at hchild
  · rcases (place.mem_insert).mp hchild with rfl | hold
    · exact hnode
    · exact h _ child hold
  · exact h _ child hchild

theorem Has.plant {id : NodeId} (h : forest.Has id) (planted : Node) :
    (forest.plant planted).2.Has id := by
  have hhas : id < forest.nodes.length := h
  simp only [Has, Forest.plant, List.length_append]
  exact Nat.lt_add_right _ hhas

theorem Closed.plant {planted : Node} (h : forest.Closed) (hnone : planted.children = []) :
    (forest.plant planted).2.Closed := by
  intro parent child hchild
  simp only [Forest.children, node?_plant] at hchild
  split at hchild
  · simp [hnone] at hchild
  · exact (h parent child hchild).plant planted

/-- The name and the node of each child. -/
def layers (forest : Forest) (id : NodeId) : List (String × NodeId) :=
  (forest.children id).map fun child => (child.name, child.node)

theorem face?_attach_self {place : Place} {title : String} {content : Content}
    (h : forest.face? target = some (title, content)) :
    (forest.attach target place name node).face? target = some (title,
      .composite (place.insert ⟨name, node, forest.links⟩ (forest.children target))) := by
  obtain ⟨found, hfound, hface⟩ := Option.map_eq_some_iff.mp h
  obtain ⟨rfl, -⟩ := Prod.mk.inj hface
  simp only [attach, face?_subscribe]
  simp only [face?, setChildren, node?_modify, if_pos]
  exact congrArg (Option.map _) (congrArg (Option.map _) hfound)

/-- The tree of a composite is one level above the trees of its children, and the first of these
that has a value wins. -/
theorem get?_unfold_composite {children : List Child} (fuel : Nat) (key : String)
    (h : forest.face? target = some (name, .composite children)) :
    (forest.unfold (fuel + 1) target).get? key =
      ((forest.layers target).map fun layer => forest.unfold fuel layer.2).findSome?
        (Tree.get? key) := by
  have hchildren : forest.children target = children := by
    rw [children_eq, h]
    rfl
  rw [unfold_succ, h, layers, hchildren]
  simp only [Tree.get?]
  clear h hchildren
  induction children with
  | nil => rfl
  | cons child rest ih =>
    simp only [List.map_cons, Tree.getFirst?, List.findSome?_cons, ih]
    cases (forest.unfold fuel child.node).get? key <;> rfl

/-- The composite got these layers, one in front of the other, and counted a version for each. Of
the other nodes all shows what it showed. -/
structure Gathers (target : NodeId) (found : List (String × NodeId)) (before after : Forest) :
    Prop where
  length : after.nodes.length = before.nodes.length
  face_of_ne : ∀ other, other ≠ target → after.face? other = before.face? other
  composite : ∀ title children, before.face? target = some (title, .composite children) →
    ∃ more, after.face? target = some (title, .composite more)
  layers : before.Has target → after.layers target = found.reverse ++ before.layers target
  version : before.Has target → after.version target = before.version target + found.length

theorem gathers_nil : Gathers target [] forest forest where
  length := rfl
  face_of_ne _ _ := rfl
  composite _ children h := ⟨children, h⟩
  layers _ := rfl
  version _ := rfl

theorem gathers_attach :
    Gathers target [(name, node)] forest ((forest.attach target .first name node).bump target) where
  length := by simp [attach, subscribe, setChildren, modify, bump]
  face_of_ne other hne := by rw [face?_bump, face?_attach_of_ne hne]
  composite title children h := ⟨_, by rw [face?_bump, face?_attach_self h]⟩
  layers hhas := by
    rw [Forest.layers, children_bump, children_attach, if_pos ⟨rfl, hhas⟩]
    rfl
  version hhas := by
    rw [version_bump, version_attach, if_pos ⟨rfl, has_attach.mpr hhas⟩]
    rfl

theorem Gathers.trans {before middle after : Forest} {former latter : List (String × NodeId)}
    (h : Gathers target former before middle) (h' : Gathers target latter middle after) :
    Gathers target (former ++ latter) before after where
  length := h'.length.trans h.length
  face_of_ne other hne := (h'.face_of_ne other hne).trans (h.face_of_ne other hne)
  composite title children hface := by
    obtain ⟨more, hmore⟩ := h.composite title children hface
    exact h'.composite title more hmore
  layers hhas := by
    have hmiddle : middle.Has target := by rwa [Has, h.length]
    rw [h'.layers hmiddle, h.layers hhas, List.reverse_append, List.append_assoc]
  version hhas := by
    have hmiddle : middle.Has target := by rwa [Has, h.length]
    rw [h'.version hmiddle, h.version hhas, List.length_append, Nat.add_assoc]

theorem has_plant_self (forest : Forest) (planted : Node) :
    (forest.plant planted).2.Has forest.nodes.length := by
  simp [Has, plant]

theorem face?_plant_self (planted : Node) :
    (forest.plant planted).2.face? forest.nodes.length = some planted.face := by
  rw [face?, node?_plant, if_pos rfl]
  rfl

theorem layers_plant_composite :
    (forest.plant (.composite name)).2.layers forest.nodes.length = [] := by
  rw [layers, children_eq, face?_plant_self]
  rfl

/-- The new composite answers for its layers, as they were before there was one. -/
theorem Gathers.get?_tree {found : List (String × NodeId)} {after : Forest}
    (hclosed : forest.Closed) (h : Gathers forest.nodes.length found (forest.plant (.composite name)).2 after)
    (hfound : ∀ layer ∈ found, forest.Has layer.2) (key : String) :
    (after.tree forest.nodes.length).get? key =
      (found.reverse.map fun layer => forest.tree layer.2).findSome? (Tree.get? key) := by
  have hlength : after.nodes.length = forest.nodes.length + 1 := by
    rw [h.length, plant, List.length_append, List.length_singleton]
  obtain ⟨children, hface⟩ := h.composite name [] (face?_plant_self _)
  have hlayers : after.layers forest.nodes.length = found.reverse := by
    rw [h.layers (has_plant_self _ _), layers_plant_composite, List.append_nil]
  have hold (id : NodeId) (hid : forest.Has id) : after.face? id = forest.face? id := by
    rw [h.face_of_ne id (Nat.ne_of_lt hid), face?, node?_plant_of_has _ hid, face?]
  rw [tree, hlength, get?_unfold_composite _ key hface, hlayers]
  congr 1
  refine List.map_congr_left fun layer hlayer => ?_
  exact unfold_congr hold (fun id _ => hclosed id) _ (hfound layer (List.mem_reverse.mp hlayer))

end Forest

namespace Engine

/-- Asked for these names, one after another and after those before, the loader fails on none and
finds these candidates. -/
inductive Finds (load : List String → String → Except LoadError (Option NodeId)) :
    List String → List String → List (String × NodeId) → Prop
  | done : Finds load asked [] []
  | skip (h : load asked name = .ok none) (hrest : Finds load (asked ++ [name]) rest found) :
      Finds load asked (name :: rest) found
  | find {node : NodeId} (h : load asked name = .ok (some node))
      (hrest : Finds load (asked ++ [name]) rest found) :
      Finds load asked (name :: rest) ((name, node) :: found)

variable {V : Type} {engine after : Engine V}
  {load : List String → String → Except LoadError (Option NodeId)} {target : NodeId}
  {asked tried names rest : List String} {found : List (String × NodeId)} {name : String}

theorem closed_of_play? [BEq V] {moves : List (Move V)}
    (h : ({} : Engine V).play? moves = some engine) : engine.forest.Closed :=
  (keeps_of_play? h sound_empty).sound.linked.closed

/-- The loader finds or misses each of the names, or there is a first one that it fails on. -/
theorem finds_or_fails (load : List String → String → Except LoadError (Option NodeId))
    (asked names : List String) :
    (∃ found, Finds load asked names found) ∨
      ∃ tried name rest found error, names = tried ++ name :: rest ∧ Finds load asked tried found ∧
        load (asked ++ tried) name = .error error := by
  induction names generalizing asked with
  | nil => exact .inl ⟨[], .done⟩
  | cons name rest ih =>
    cases hload : load asked name with
    | error error => exact .inr ⟨[], name, rest, [], error, rfl, .done, by simpa using hload⟩
    | ok answer =>
      -- one candidate more, or none more
      have hstep {tried found} (hfinds : Finds load (asked ++ [name]) tried found) :
          ∃ found, Finds load asked (name :: tried) found := by
        cases answer with
        | none => exact ⟨_, .skip hload hfinds⟩
        | some node => exact ⟨_, .find hload hfinds⟩
      rcases ih (asked ++ [name]) with
        ⟨found, hfinds⟩ | ⟨tried, failing, rest, found, error, rfl, hfinds, herror⟩
      · exact .inl (hstep hfinds)
      · obtain ⟨more, hmore⟩ := hstep hfinds
        exact .inr ⟨name :: tried, failing, rest, more, error, rfl, hmore, by simpa using herror⟩

theorem Finds.sublist (h : Finds load asked names found) :
    (found.map Prod.fst).Sublist names := by
  induction h with
  | done => exact .slnil
  | skip _ _ ih => exact ih.cons _
  | find _ _ ih => exact ih.cons_cons _

theorem Finds.has (h : Finds load asked names found)
    (hhas : ∀ asked name node, load asked name = .ok (some node) → engine.forest.Has node) :
    ∀ layer ∈ found, engine.forest.Has layer.2 := by
  induction h with
  | done => exact fun _ hmem => absurd hmem List.not_mem_nil
  | skip _ _ ih => exact ih
  | find hload _ ih => exact List.forall_mem_cons.mpr ⟨hhas _ _ _ hload, ih⟩

theorem loadAll_of_finds (h : Finds load asked names found) (target : NodeId)
    (engine : Engine V) :
    ∃ after, loadAll load target asked names engine = (asked ++ names, .ok (), after) ∧
      engine.forest.Gathers target found after.forest := by
  induction h generalizing engine with
  | done => exact ⟨engine, by rw [loadAll, List.append_nil], Forest.gathers_nil⟩
  | skip hload _ ih =>
    obtain ⟨after, hrest, hgathers⟩ := ih engine
    refine ⟨after, ?_, hgathers⟩
    rw [loadAll, hload]
    simpa using hrest
  | find hload _ ih =>
    obtain ⟨after, hrest, hgathers⟩ := ih (engine.attach target .first _ _)
    refine ⟨after, ?_, Forest.gathers_attach.trans hgathers⟩
    rw [loadAll, hload]
    simpa using hrest

theorem loadAll_of_fails {error : LoadError} (h : Finds load asked tried found)
    (herror : load (asked ++ tried) name = .error error) (target : NodeId) (rest : List String)
    (engine : Engine V) :
    ∃ after, loadAll load target asked (tried ++ name :: rest) engine =
      (asked ++ tried ++ [name], .error error, after) := by
  induction h generalizing engine with
  | done =>
    rw [List.append_nil] at herror
    exact ⟨engine, by rw [List.nil_append, loadAll, herror, List.append_nil]⟩
  | skip hload _ ih =>
    obtain ⟨after, hrest⟩ := ih (by simpa using herror) engine
    refine ⟨after, ?_⟩
    rw [List.cons_append, loadAll, hload]
    simpa using hrest
  | find hload _ ih =>
    obtain ⟨after, hrest⟩ := ih (by simpa using herror) (engine.attach target .first _ _)
    refine ⟨after, ?_⟩
    rw [List.cons_append, loadAll, hload]
    simpa using hrest

theorem has_loadAll {node : NodeId} (h : engine.forest.Has node) :
    (loadAll load target asked names engine).2.2.forest.Has node := by
  induction names generalizing asked engine with
  | nil => exact h
  | cons name rest ih =>
    rw [loadAll]
    split
    · exact h
    · exact ih h
    · exact ih (Forest.has_bump.mpr (Forest.has_attach.mpr h))

theorem closed_loadAll (hclosed : engine.forest.Closed)
    (hhas : ∀ asked name node, load asked name = .ok (some node) → engine.forest.Has node) :
    (loadAll load target asked names engine).2.2.forest.Closed := by
  induction names generalizing asked engine with
  | nil => exact hclosed
  | cons name rest ih =>
    rw [loadAll]
    split
    · exact hclosed
    · exact ih hclosed hhas
    · rename_i node hload
      refine ih (hclosed.attach (hhas _ _ _ hload)).bump fun asked name node hnode => ?_
      exact Forest.has_bump.mpr (Forest.has_attach.mpr (hhas asked name node hnode))

-- ---------------------------------------------------------------------------
-- Loads of a cascade
-- ---------------------------------------------------------------------------

section
variable {cascade : Cascade} {policy : MissingPolicy} {lookup : Lookup} {base : String}
  {find : String → Option String} {texts : List String}

theorem loadCascadeWith_of_error {error : TemplateError}
    (h : cascade.names policy lookup base = .error error) :
    engine.loadCascadeWith cascade policy lookup load base =
      ([], .error (.names error), engine) := by
  rw [loadCascadeWith, h]

/-- Once there are names, a load is what comes of asking for them. -/
theorem loadCascadeWith_of_names {outcome : Except LoadError Unit}
    (h : cascade.names policy lookup base = .ok names)
    (hload : loadAll load engine.forest.nodes.length [] names (engine.plant (.composite base)).2 =
      (asked, outcome, after)) :
    engine.loadCascadeWith cascade policy lookup load base =
      (asked, (outcome.map fun _ => engine.forest.nodes.length).mapError .load, after) := by
  simp only [plant, Forest.plant] at hload
  rw [loadCascadeWith, h]
  simp only [plant, Forest.plant]
  rw [hload]

theorem loadCascadeWith_of_fails (engine : Engine V) {error : LoadError}
    (h : cascade.names policy lookup base = .ok (tried ++ name :: rest))
    (hfinds : Finds load [] tried found) (herror : load tried name = .error error) :
    ∃ after, engine.loadCascadeWith cascade policy lookup load base =
      (tried ++ [name], .error (.load error), after) := by
  obtain ⟨after, hload⟩ := loadAll_of_fails hfinds herror engine.forest.nodes.length rest
    (engine.plant (.composite base)).2
  exact ⟨after, loadCascadeWith_of_names h hload⟩

theorem loadCascadeWith_of_finds (engine : Engine V)
    (h : cascade.names policy lookup base = .ok names) (hfinds : Finds load [] names found) :
    ∃ after, engine.loadCascadeWith cascade policy lookup load base =
        (names, .ok engine.forest.nodes.length, after) ∧
      (engine.forest.plant (.composite base)).2.Gathers engine.forest.nodes.length found
        after.forest := by
  obtain ⟨after, hload, hgathers⟩ := loadAll_of_finds hfinds engine.forest.nodes.length
    (engine.plant (.composite base)).2
  exact ⟨after, loadCascadeWith_of_names h hload, hgathers⟩

/-- One load can follow another: what could be found before it can be found again. -/
theorem has_loadCascadeWith {node : NodeId} (h : engine.forest.Has node) :
    (engine.loadCascadeWith cascade policy lookup load base).2.2.forest.Has node := by
  rw [loadCascadeWith]
  split
  · exact h
  · exact has_loadAll (h.plant (.composite base))

theorem closed_loadCascadeWith (hclosed : engine.forest.Closed)
    (hhas : ∀ asked name node, load asked name = .ok (some node) → engine.forest.Has node) :
    (engine.loadCascadeWith cascade policy lookup load base).2.2.forest.Closed := by
  rw [loadCascadeWith]
  split
  · exact hclosed
  · exact closed_loadAll (hclosed.plant rfl) fun asked name node hnode =>
      (hhas asked name node hnode).plant (.composite base)

/-- A cascade merges its candidates, and the most specific one wins. A parameter that cannot be
resolved fails the load before the loader is asked for anything. Otherwise the candidates are the
base name and what comes of joining the resolved parameters to it; the loader is asked for them in
order up to the first that it fails on, and that failure is the outcome. If it fails on none, the
outcome is a new composite of the base name, with the found candidates as its children, the last
one first, and a version for each; and a key has the value of the last found candidate that
has one. -/
theorem cascade_merges (hclosed : engine.forest.Closed) (cascade : Cascade)
    (hserves : lookup.Serves policy find cascade.parameters)
    (hhas : ∀ asked name node, load asked name = .ok (some node) → engine.forest.Has node)
    (base : String) :
    (∀ before parameter rest error, cascade.parameters = before ++ parameter :: rest →
      (∀ other ∈ before, ∃ text, Resolves policy find other (.ok text)) →
      Resolves policy find parameter (.error error) →
      engine.loadCascadeWith cascade policy lookup load base =
        ([], .error (.names error), engine)) ∧
    ∀ texts, List.Forall₂ (fun parameter text => Resolves policy find parameter (.ok text))
        cascade.parameters texts →
      (∀ tried name rest found error,
        joined cascade.separator base texts = tried ++ name :: rest →
        Finds load [] tried found → load tried name = .error error →
        ∃ after, engine.loadCascadeWith cascade policy lookup load base =
          (tried ++ [name], .error (.load error), after)) ∧
      ∀ found, Finds load [] (joined cascade.separator base texts) found →
        ∃ target after, engine.loadCascadeWith cascade policy lookup load base =
            (joined cascade.separator base texts, .ok target, after) ∧
          ¬ engine.forest.Has target ∧ after.forest.name target = base ∧
          after.forest.layers target = found.reverse ∧
          after.forest.version target = found.length ∧
          ∀ key, (after.forest.tree target).get? key =
            (found.reverse.map fun layer => engine.forest.tree layer.2).findSome?
              (Tree.get? key) := by
  refine ⟨fun before parameter rest error hparameters hbefore hfirst => ?unresolved,
    fun texts htexts => ?resolved⟩
  case unresolved =>
    exact loadCascadeWith_of_error (names_of_error hserves hparameters hbefore hfirst)
  case resolved =>
    have hnames : cascade.names policy lookup base = .ok _ := names_of_texts hserves htexts
    refine ⟨fun tried name rest found error hsplit hfinds herror => ?fails,
      fun found hfinds => ?finds⟩
    case fails =>
      rw [hsplit] at hnames
      exact engine.loadCascadeWith_of_fails hnames hfinds herror
    case finds =>
      obtain ⟨after, hload, hgathers⟩ := engine.loadCascadeWith_of_finds hnames hfinds
      have hplanted := engine.forest.has_plant_self (.composite base)
      have hfound : ∀ layer ∈ found, engine.forest.Has layer.2 := fun layer hlayer =>
        hfinds.has hhas layer hlayer
      refine ⟨_, after, hload, Nat.lt_irrefl _, ?name, ?layers, ?version, ?value⟩
      case name =>
        obtain ⟨children, hface⟩ := hgathers.composite base [] (Forest.face?_plant_self _)
        rw [Forest.name_eq, hface]
        rfl
      case layers =>
        rw [hgathers.layers hplanted, Forest.layers_plant_composite, List.append_nil]
      case version =>
        rw [hgathers.version hplanted, Forest.version_plant rfl, Forest.version_of_not_has
          (Nat.lt_irrefl _), Nat.zero_add]
      case value => exact hgathers.get?_tree hclosed hfound

/-- Two leaves to be found, of which the second has a key that the first one lacks. -/
def shelf : Engine Nat :=
  let plain := Entries.empty.insert "port" "80"
  ((({} : Engine Nat).plant (.fixed "plain" plain)).2.plant
    (.fixed "prod" ((Entries.empty.insert "port" "81").insert "db" "prod"))).2

theorem play?_shelf : ({} : Engine Nat).play?
    [.call (.fixed "plain" (Entries.empty.insert "port" "80")),
      .call (.fixed "prod" ((Entries.empty.insert "port" "81").insert "db" "prod"))] = some shelf :=
  rfl

theorem closed_shelf : shelf.forest.Closed := closed_of_play? play?_shelf

/-- The loader finds the first leaf under most names. -/
def shelfLoad (_asked : List String) (name : String) : Except LoadError (Option NodeId) :=
  if name = "app-x" then .error (.parse name "bad line")
  else if name = "app-prod" then .ok (some 1)
  else .ok (some 0)

theorem has_shelfLoad (asked : List String) (name : String) (node : NodeId)
    (h : shelfLoad asked name = .ok (some node)) : shelf.forest.Has node := by
  unfold shelfLoad at h
  split at h
  · cases h
  · split at h
    · cases h
      decide
    · cases h
      decide

/-- A parameter that is missing, a candidate that is broken, and a leaf found under two names; and
then a load of the base name alone. -/
theorem cascade_merges_shelf :
    shelf.loadCascadeWith ⟨["$\x7bc:x\x7d", "$\x7bc\x7d"], "-"⟩ .fail .pair shelfLoad "app" =
        ([], .error (.names (.missing "c")), shelf) ∧
      (∃ after, shelf.loadCascadeWith ⟨["$\x7bc:x\x7d"], "-"⟩ .fail .pair shelfLoad "app" =
        (["app", "app-x"], .error (.load (.parse "app-x" "bad line")), after)) ∧
      ∃ target after,
        shelf.loadCascadeWith ⟨["$\x7bc:prod\x7d", "$\x7bc:\x7d"], "-"⟩ .fail .pair shelfLoad
            "app" = (["app", "app-prod", "app-prod-"], .ok target, after) ∧
        after.forest.layers target = [("app-prod-", 0), ("app-prod", 1), ("app", 0)] ∧
        after.forest.version target = 3 ∧
        (after.forest.tree target).get? "port" = some "80" ∧
        (after.forest.tree target).get? "db" = some "prod" ∧
        ∃ other last, after.loadCascadeWith ⟨[], "-"⟩ .fail .pair shelfLoad "app" =
            (["app"], .ok other, last) ∧
          last.forest.layers other = [("app", 0)] ∧
          (last.forest.tree other).get? "db" = (after.forest.tree 0).get? "db" := by
  have hx : Resolves .fail Lookup.pair.find "$\x7bc:x\x7d" (.ok "x") :=
    Template.resolves_iff.mpr (by cbv)
  have hmissing : Resolves .fail Lookup.pair.find "$\x7bc\x7d" (.error (.missing "c")) :=
    Template.resolves_iff.mpr (by cbv)
  have hprod : Resolves .fail Lookup.pair.find "$\x7bc:prod\x7d" (.ok "prod") :=
    Template.resolves_iff.mpr (by cbv)
  have hempty : Resolves .fail Lookup.pair.find "$\x7bc:\x7d" (.ok "") :=
    Template.resolves_iff.mpr (by cbv)
  refine ⟨?missing, ?broken, ?merged⟩
  case missing =>
    obtain ⟨hunresolved, -⟩ :=
      cascade_merges closed_shelf ⟨["$\x7bc:x\x7d", "$\x7bc\x7d"], "-"⟩
        (Template.serves_self .fail .pair _) has_shelfLoad "app"
    refine hunresolved ["$\x7bc:x\x7d"] "$\x7bc\x7d" [] _ rfl (fun other hother => ?_) hmissing
    exact ⟨"x", List.mem_singleton.mp hother ▸ hx⟩
  case broken =>
    obtain ⟨-, hresolved⟩ := cascade_merges closed_shelf ⟨["$\x7bc:x\x7d"], "-"⟩
      (Template.serves_self .fail .pair _) has_shelfLoad "app"
    obtain ⟨hfails, -⟩ := hresolved ["x"] (.cons hx .nil)
    exact hfails ["app"] "app-x" [] [("app", 0)] _ rfl (.find rfl .done) rfl
  case merged =>
    obtain ⟨-, hresolved⟩ :=
      cascade_merges closed_shelf ⟨["$\x7bc:prod\x7d", "$\x7bc:\x7d"], "-"⟩
        (Template.serves_self .fail .pair _) has_shelfLoad "app"
    obtain ⟨-, hfinds⟩ := hresolved ["prod", ""] (.cons hprod (.cons hempty .nil))
    obtain ⟨target, after, hload, -, -, hlayers, hversion, hvalue⟩ :=
      hfinds [("app", 0), ("app-prod", 1), ("app-prod-", 0)]
        (.find rfl (.find rfl (.find rfl .done)))
    have hafter : (shelf.loadCascadeWith ⟨["$\x7bc:prod\x7d", "$\x7bc:\x7d"], "-"⟩ .fail .pair
        shelfLoad "app").2.2 = after := by
      rw [hload]
    have hclosed : after.forest.Closed :=
      hafter ▸ closed_loadCascadeWith closed_shelf has_shelfLoad
    have hhas (asked name node) (h : shelfLoad asked name = .ok (some node)) :
        after.forest.Has node :=
      hafter ▸ has_loadCascadeWith (has_shelfLoad asked name node h)
    obtain ⟨-, hresolved⟩ := cascade_merges hclosed ⟨[], "-"⟩ (Template.serves_self .fail .pair _)
      hhas "app"
    obtain ⟨-, hfinds⟩ := hresolved [] .nil
    obtain ⟨other, last, hagain, -, -, hlast, -, hfound⟩ :=
      hfinds [("app", 0)] (.find rfl .done)
    exact ⟨target, after, hload, hlayers, hversion, (hvalue "port").trans (by decide),
      (hvalue "db").trans (by decide), other, last, hagain, hlast,
      (hfound "db").trans (by simp)⟩

-- ---------------------------------------------------------------------------
-- Names that grow
-- ---------------------------------------------------------------------------

section
variable {policy : MissingPolicy} {lookup : Lookup} {base : String}
  {find : String → Option String} {texts : List String}

/-- Where the names differ, no load asks for a name twice or puts a name in twice. -/
theorem nodup_of_names {cascade : Cascade} (h : cascade.names policy lookup base = .ok names)
    (hnodup : names.Nodup) (engine : Engine V) :
    (engine.loadCascadeWith cascade policy lookup load base).1.Nodup ∧
      ∀ target, (engine.loadCascadeWith cascade policy lookup load base).2.1 = .ok target →
        (((engine.loadCascadeWith cascade policy lookup load base).2.2.forest.layers target).map
          Prod.fst).Nodup := by
  rcases finds_or_fails load [] names with
    ⟨found, hfinds⟩ | ⟨tried, name, rest, found, error, rfl, hfinds, herror⟩
  · obtain ⟨after, hload, hgathers⟩ := engine.loadCascadeWith_of_finds h hfinds
    rw [hload]
    refine ⟨hnodup, ?_⟩
    rintro _ ⟨⟩
    rw [hgathers.layers (engine.forest.has_plant_self _), Forest.layers_plant_composite,
      List.append_nil, List.map_reverse]
    exact List.nodup_reverse.mpr (hfinds.sublist.nodup hnodup)
  · obtain ⟨after, hload⟩ := engine.loadCascadeWith_of_fails h hfinds herror
    rw [hload]
    refine ⟨?_, fun _ hok => nomatch hok⟩
    have hprefix : tried ++ [name] <+: tried ++ name :: rest := ⟨rest, by simp⟩
    exact hprefix.sublist.nodup hnodup

/-- Validation asks nothing of the separator. So the names that settings make grow, and differ
from one another, if and only if there is a separator or no parameter resolves to the empty text;
and then no load asks for a name twice or puts one in twice. -/
theorem names_grow_iff (settings : Settings)
    (hserves : lookup.Serves policy find settings.cascade.parameters)
    (htexts : List.Forall₂ (fun parameter text => Resolves policy find parameter (.ok text))
      settings.cascade.parameters texts) (base : String) :
    ∃ names, (Cascade.ofSettings settings.cascade).names policy lookup base = .ok names ∧
      (names.IsChain (fun shorter longer => Extends longer shorter) ↔
        settings.cascade.separator ≠ "" ∨ "" ∉ texts) ∧
      (names.Nodup ↔ settings.cascade.separator ≠ "" ∨ "" ∉ texts) ∧
      (settings.cascade.separator ≠ "" ∨ "" ∉ texts → ∀ (engine : Engine V) load,
        (engine.loadCascadeWith (.ofSettings settings.cascade) policy lookup load base).1.Nodup ∧
        ∀ target, (engine.loadCascadeWith (.ofSettings settings.cascade) policy lookup load
            base).2.1 = .ok target →
          (((engine.loadCascadeWith (.ofSettings settings.cascade) policy lookup load
            base).2.2.forest.layers target).map Prod.fst).Nodup) := by
  have hnames : (Cascade.ofSettings settings.cascade).names policy lookup base = .ok _ :=
    names_of_texts hserves htexts
  refine ⟨_, hnames, isChain_joined_iff, nodup_joined_iff, fun hgrow engine load => ?_⟩
  exact nodup_of_names hnames (nodup_joined_iff.mpr hgrow) engine

end

end

/-- A trailing separator keeps apart what an empty text does not. -/
theorem names_grow_iff_trailing :
    ∃ names, (Cascade.ofSettings ⟨"-", ["$\x7bc:prod\x7d", "$\x7bc:\x7d"]⟩).names .fail .pair "app" =
        .ok names ∧ names.IsChain (fun shorter longer => Extends longer shorter) ∧
      (shelf.loadCascadeWith (.ofSettings ⟨"-", ["$\x7bc:prod\x7d", "$\x7bc:\x7d"]⟩) .fail .pair
        shelfLoad "app").1.Nodup := by
  have hprod : Resolves .fail Lookup.pair.find "$\x7bc:prod\x7d" (.ok "prod") :=
    Template.resolves_iff.mpr (by cbv)
  have hempty : Resolves .fail Lookup.pair.find "$\x7bc:\x7d" (.ok "") :=
    Template.resolves_iff.mpr (by cbv)
  obtain ⟨names, hnames, hchain, -, hloads⟩ :=
    names_grow_iff (V := Nat) { cascade := ⟨"-", ["$\x7bc:prod\x7d", "$\x7bc:\x7d"]⟩ }
      (Template.serves_self .fail .pair _) (.cons hprod (.cons hempty .nil)) "app"
  have hgrow : "-" ≠ "" ∨ "" ∉ ["prod", ""] := .inl (by decide)
  exact ⟨names, hnames, hchain.mpr hgrow, (hloads hgrow shelf shelfLoad).1⟩

/-- Settings without a separator. -/
def unseparated : Settings := { cascade := { separator := "", parameters := ["$\x7benv\x7d"] } }

theorem validate_unseparated : unseparated.validate = .ok () := by
  have hproblems : unseparated.problems = [] := by
    simp only [Settings.problems, unseparated, isLogLevel_info]
    decide
  rw [Settings.validate, hproblems]

/-- They are accepted, and an empty value then makes the same name again, which is asked for and
put in twice. -/
theorem names_repeated_unseparated :
    unseparated.validate = .ok () ∧
      (Cascade.ofSettings unseparated.cascade).names .fail
        (.ofEntries (Entries.empty.insert "env" "")) "app" = .ok ["app", "app"] ∧
      ¬ ["app", "app"].IsChain (fun shorter longer => Extends longer shorter) ∧
      ∃ target after, shelf.loadCascade (.ofSettings unseparated.cascade) .fail
          (.ofEntries (Entries.empty.insert "env" "")) (shelfLoad []) "app" =
        (["app", "app"], .ok target, after) ∧
        after.forest.layers target = [("app", 0), ("app", 0)] := by
  have hnames : (Cascade.ofSettings unseparated.cascade).names .fail
      (.ofEntries (Entries.empty.insert "env" "")) "app" = .ok ["app", "app"] := by cbv
  refine ⟨validate_unseparated, hnames, ?stays, ?loads⟩
  case stays =>
    intro hchain
    have hextends := (List.isChain_cons_cons.mp hchain).1
    exact Nat.lt_irrefl _ hextends.length_lt
  case loads =>
    have hfinds : Finds (fun _ => shelfLoad []) [] ["app", "app"] [("app", 0), ("app", 0)] :=
      .find rfl (.find rfl .done)
    obtain ⟨after, hload, hgathers⟩ := shelf.loadCascadeWith_of_finds hnames hfinds
    refine ⟨_, after, hload, ?_⟩
    rw [hgathers.layers (shelf.forest.has_plant_self _), Forest.layers_plant_composite]
    rfl

end Engine

end Overlay

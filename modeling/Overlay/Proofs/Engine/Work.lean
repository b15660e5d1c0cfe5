import Mathlib.Logic.Relation
import Overlay.Proofs.Engine.Run

/-!
# Pieces of work

A move is made of a few pieces (`Piece`), followed by the reading of a handle at
most (`does_of_move?`). What every piece does, and what reading a handle does,
every move does, so that nothing else has to look at the operations one by one.
-/

namespace Overlay

open Template (MissingPolicy)

def Subscriber.isLink : Subscriber → Bool
  | .link _ _ => true
  | .registry _ | .observer _ => false

/-- A node as it is made: nothing below it, and nobody who knows of it. -/
structure Node.Fresh (node : Node) : Prop where
  children : node.children = []
  version : node.version = 0
  subscribers : node.subscribers = []
  gone : node.gone = false

/-- What a registry has for good. -/
def Registry.bare {V : Type} (registry : Registry V) : Registry V :=
  { registry with decoders := {}, handles := [], closed := false, queue := [] }

/-- What a handle has for good. -/
def Handle.bare {V : Type} (handle : Handle V) : Handle V :=
  { handle with cached := none, listeners := [] }

theorem Handle.bare_read {V : Type} [BEq V] (handle : Handle V) (policy : MissingPolicy)
    (version : Nat) (tree : Tree) :
    (handle.read policy version tree).handle.bare = handle.bare := by
  unfold Handle.read
  split
  · rfl
  · split <;> rfl

namespace Engine

variable {V : Type}

/-- The composite has yet to be told of a change through this link. -/
def Owes (engine : Engine V) (parent : NodeId) (link : LinkId) : Prop :=
  ∃ node subscribers, .tell node subscribers ∈ engine.stack ∧ .link parent link ∈ subscribers

inductive Piece : Engine V → Engine V → Prop
  | hold {engine : Engine V} {anchors : List Anchor} (h : engine.Allows (.hold anchors)) :
      Piece engine (engine.hold anchors)
  /-- Work is taken up or put off, but no composite is forgotten. -/
  | shift {engine : Engine V} {stack : List (Frame V)} {pollers : List Poll.Poller}
      {metrics : Metrics}
      (h : ∀ parent link, engine.Owes parent link →
        { engine with stack, pollers, metrics }.Owes parent link) :
      Piece engine { engine with stack, pollers, metrics }
  | plant {engine : Engine V} {node : Node} (h : node.Fresh) : Piece engine (engine.plant node).2
  | subscribe {engine : Engine V} {id : NodeId} {subscriber : Subscriber}
      (h : subscriber.isLink = false) :
      Piece engine { engine with forest := engine.forest.subscribe id subscriber }
  | unsubscribe {engine : Engine V} {id : NodeId} {subscriber : Subscriber}
      (h : subscriber.isLink = false) :
      Piece engine { engine with forest := engine.forest.unsubscribe id subscriber }
  | edit {engine : Engine V} {id : NodeId} {edit : Edit} : Piece engine (engine.edit id edit).2
  | attach {engine : Engine V} {parent node : NodeId} {place : Place} {name : String}
      (hparent : engine.forest.gone parent = false) (hnode : engine.forest.gone node = false) :
      Piece engine (engine.attach parent place name node)
  | detach {engine : Engine V} {parent : NodeId} {name : String} {child : Child} {forest : Forest}
      (h : engine.forest.detach parent name = some (child, forest)) :
      Piece engine ({ engine with forest }.changed parent)
  /-- A composite is told through a link. -/
  | relay {engine : Engine V} {node parent : NodeId} {link : LinkId}
      {subscribers : List Subscriber} {rest : List (Frame V)}
      (h : engine.stack = .tell node (.link parent link :: subscribers) :: rest) :
      Piece engine ({ engine with stack := .tell node subscribers :: rest }.tell node
        (.link parent link))
  | openRegistry {engine : Engine V} {registry : Registry V}
      (h : engine.forest.gone registry.root = false) :
      Piece engine { engine with registries := engine.registries ++ [registry] }
  | modifyRegistry {engine : Engine V} {id : RegistryId} {f : Registry V → Registry V}
      (hbare : ∀ registry, (f registry).bare = registry.bare)
      (hclosed : ∀ registry, registry.closed = true → (f registry).closed = true) :
      Piece engine (engine.modifyRegistry id f)
  | makeHandle {engine : Engine V} {handle : Handle V} (hcached : handle.cached = none)
      (hopen : (engine.registryAt? handle.registry).any (!·.closed) = true) :
      Piece engine { engine with handles := engine.handles ++ [handle] }
  | modifyListeners {engine : Engine V} {id : HandleId}
      {f : List ListenerId → List ListenerId} :
      Piece engine (engine.modifyHandle id fun handle =>
        { handle with listeners := f handle.listeners })

def Work : Engine V → Engine V → Prop := Relation.ReflTransGen Piece

/-- Pieces of work, and then perhaps a handle is brought up to date. -/
def Does [BEq V] (before after : Engine V) : Prop :=
  ∃ middle, before.Work middle ∧ (after = middle ∨ ∃ id, after = middle.refreshHandle id)

/-- The handle is replaced by what came of reading it. -/
def store (engine : Engine V) (id : HandleId) (reading : Reading V) : Engine V :=
  { engine with metrics := reading.record engine.metrics }.modifyHandle id fun _ => reading.handle

variable {engine before middle after : Engine V} {id : HandleId}

theorem Piece.work (h : before.Piece after) : before.Work after := .single h

theorem Work.tail (h : before.Work middle) (h' : middle.Piece after) : before.Work after :=
  Relation.ReflTransGen.tail h h'

theorem piece_enqueue (id : RegistryId) (task : Task V) : engine.Piece (engine.enqueue id task) :=
  .modifyRegistry (fun _ => rfl) fun _ h => h

theorem piece_addListener (id : HandleId) (listener : ListenerId) :
    engine.Piece (engine.modifyHandle id fun handle =>
      if listener ∈ handle.listeners then handle
      else { handle with listeners := handle.listeners ++ [listener] }) := by
  have hadd : (fun handle : Handle V =>
      if listener ∈ handle.listeners then handle
      else { handle with listeners := handle.listeners ++ [listener] }) = fun handle =>
        { handle with listeners :=
            if listener ∈ handle.listeners then handle.listeners
            else handle.listeners ++ [listener] } := by
    funext handle
    split <;> rfl
  rw [hadd]
  exact .modifyListeners (f := fun listeners =>
    if listener ∈ listeners then listeners else listeners ++ [listener])

theorem Owes.of_stack_subset (hsubset : before.stack ⊆ after.stack) {parent : NodeId}
    {link : LinkId} (h : before.Owes parent link) : after.Owes parent link := by
  obtain ⟨node, subscribers, hmem, hlink⟩ := h
  exact ⟨node, subscribers, hsubset hmem, hlink⟩

theorem Piece.push (frame : Frame V) : engine.Piece (engine.push frame) :=
  .shift fun _ _ h => h.of_stack_subset (List.subset_cons_self _ _)

theorem work_dispatch (id : RegistryId) (eager : Bool) (notice : Notice V) :
    engine.Work (engine.dispatch id eager notice) := by
  cases eager with
  | true => exact (piece_enqueue id _).work
  | false => exact (Piece.push _).work

/-- A frame that tells nobody can go. -/
theorem Piece.pop {frame : Frame V} {rest : List (Frame V)} (hstack : engine.stack = frame :: rest)
    (hframe : ∀ node subscribers, frame = .tell node subscribers → subscribers = []) :
    engine.Piece { engine with stack := rest } := by
  refine .shift fun parent link h => ?_
  obtain ⟨node, subscribers, hmem, hlink⟩ := h
  rw [hstack] at hmem
  rcases List.mem_cons.mp hmem with hhead | hrest
  · rw [hframe node subscribers hhead.symm] at hlink
    exact absurd hlink (by simp)
  · exact ⟨node, subscribers, hrest, hlink⟩

section
variable {node : NodeId} {subscriber : Subscriber} {subscribers : List Subscriber}
  {rest : List (Frame V)}

/-- Telling one subscriber leaves all other debts. -/
theorem Owes.of_told {parent : NodeId} {link : LinkId} (h : engine.Owes parent link)
    (hstack : engine.stack = .tell node (subscriber :: subscribers) :: rest) :
    .link parent link = subscriber ∨
      { engine with stack := .tell node subscribers :: rest }.Owes parent link := by
  obtain ⟨other, told, hmem, hmine⟩ := h
  rw [hstack] at hmem
  rcases List.mem_cons.mp hmem with hhead | hrest
  · rw [Frame.tell.injEq] at hhead
    obtain ⟨rfl, rfl⟩ := hhead
    rcases List.mem_cons.mp hmine with heq | hmine
    · exact .inl heq
    · exact .inr ⟨other, subscribers, List.mem_cons_self, hmine⟩
  · exact .inr ⟨other, told, List.mem_cons_of_mem _ hrest, hmine⟩

/-- One who is no link has been told. -/
theorem Piece.told (hstack : engine.stack = .tell node (subscriber :: subscribers) :: rest)
    (hlink : subscriber.isLink = false) :
    engine.Piece { engine with stack := .tell node subscribers :: rest } := by
  refine .shift fun parent link h => ?_
  rcases h.of_told hstack with rfl | howes
  · exact absurd hlink (by simp [Subscriber.isLink])
  · exact howes

end

section
variable [BEq V]

/-- What comes of reading a handle now. -/
def reading? (engine : Engine V) (id : HandleId) : Option (Reading V) :=
  (engine.handleAt? id).bind fun handle =>
    (engine.registryAt? handle.registry).map fun registry =>
      handle.read registry.policy (engine.forest.version registry.root)
        (engine.forest.tree registry.root)

theorem reading?_eq_some {reading : Reading V} : engine.reading? id = some reading ↔
    ∃ handle registry, engine.handleAt? id = some handle ∧
      engine.registryAt? handle.registry = some registry ∧
      handle.read registry.policy (engine.forest.version registry.root)
        (engine.forest.tree registry.root) = reading := by
  simp [reading?, Option.bind_eq_some_iff]

theorem refreshHandle_of_none (h : engine.reading? id = none) :
    engine.refreshHandle id = engine := by
  unfold refreshHandle
  split
  · rfl
  · rename_i handle hhandle
    split
    · rfl
    · rename_i registry hregistry
      exact absurd h (by simp [reading?, hhandle, hregistry])

/-- A handle is brought up to date by storing what came of reading it, and then
perhaps announcing it. -/
theorem refreshHandle_of_some {reading : Reading V} (h : engine.reading? id = some reading) :
    engine.refreshHandle id = engine.store id reading ∨
      ∃ registry eager notice, engine.refreshHandle id =
        (engine.store id reading).dispatch registry eager notice := by
  obtain ⟨handle, registry, hhandle, hregistry, rfl⟩ := reading?_eq_some.mp h
  simp only [refreshHandle, hhandle, hregistry]
  split
  · split
    · exact .inl rfl
    · exact .inr ⟨_, _, _, rfl⟩
  · exact .inl rfl

theorem Work.does (h : before.Work after) : before.Does after := ⟨after, h, .inl rfl⟩

theorem Work.read (h : before.Work middle) (id : HandleId) :
    before.Does (middle.refreshHandle id) :=
  ⟨middle, h, .inr ⟨id, rfl⟩⟩

theorem Does.refl (engine : Engine V) : engine.Does engine := ⟨engine, .refl, .inl rfl⟩

-- ---------------------------------------------------------------------------
-- Operations
-- ---------------------------------------------------------------------------

theorem does_edit (id : NodeId) (edit : Edit) : engine.Does (engine.edit id edit).2 :=
  Piece.edit.work.does

theorem does_attachUnique {parent node : NodeId} {name : String}
    (hparent : engine.forest.gone parent = false) (hnode : engine.forest.gone node = false) :
    engine.Does ((engine.attachUnique parent name node).toOption.getD engine) := by
  unfold attachUnique
  split
  · exact .refl _
  · exact (Piece.attach hparent hnode).work.does

theorem does_detach (parent : NodeId) (name : String) :
    engine.Does (engine.detach parent name).2 := by
  unfold detach
  split
  · exact .refl _
  · rename_i child forest h
    exact ((Piece.push (.keep child.node)).work.tail (.detach h)).does

theorem does_openRegistry {registry : Registry V} (h : engine.forest.gone registry.root = false) :
    engine.Does (engine.openRegistry registry).2 := by
  unfold openRegistry
  dsimp only
  split
  · exact ((Piece.openRegistry h).work.tail (.subscribe rfl)).does
  · exact (Piece.openRegistry h).work.does

theorem does_closeRegistry (id : RegistryId) : engine.Does (engine.closeRegistry id) := by
  unfold closeRegistry
  split
  · exact .refl _
  · have hclose : engine.Piece (engine.modifyRegistry id fun registry =>
        { registry with closed := true }) := .modifyRegistry (fun _ => rfl) fun _ _ => rfl
    exact (hclose.work.tail (.unsubscribe rfl)).does

theorem does_request {id : RegistryId} {key typeName : String} {fallback : V} {decode : Decoder V}
    (hopen : (engine.registryAt? id).any (!·.closed) = true) :
    engine.Does (engine.request id key typeName fallback decode).2 := by
  unfold request
  split
  · exact Work.read .refl _
  · have hmake : engine.Piece { engine with handles := engine.handles ++
        [{ registry := id, key, typeName, fallback, decode }] } := .makeHandle rfl hopen
    refine (hmake.work.tail ?_).read engine.handles.length
    exact .modifyRegistry (fun _ => rfl) fun _ h => h

theorem does_requestCustom {id : RegistryId} {key typeName : String} {fallback : V}
    (hopen : (engine.registryAt? id).any (!·.closed) = true) :
    engine.Does (engine.start (.requestCustom id key typeName fallback)) := by
  simp only [start, requestCustom]
  cases (engine.registryAt? id).bind fun registry => registry.decoders.find? typeName with
  | none => exact .refl _
  | some decode => exact does_request hopen

theorem does_refresh (id : RegistryId) : engine.Does (engine.refresh id) := by
  unfold refresh
  split
  · exact .refl _
  · split
    · exact (piece_enqueue id _).work.does
    · exact (Piece.push _).work.does

theorem does_absorb (id : PollerId) (answer : Poll.Answer) :
    engine.Does (engine.absorb id answer).2 := by
  unfold absorb
  split
  · exact .refl _
  · exact Work.does (.single (.shift fun _ _ h => h))
  · rename_i poller response _
    have hpush : engine.Piece (engine.push (.settle id response.checkpoint
        (engine.forest.edit poller.target (.update response.content)).1)) := .push _
    exact (hpush.work.tail .edit).does

theorem does_start {call : Call V} (h : engine.Allows call) : engine.Does (engine.start call) := by
  cases call with
  | hold anchors => exact (Piece.hold h).work.does
  | fixed name entries => exact (Piece.plant ⟨rfl, rfl, rfl, rfl⟩).work.does
  | settable name entries => exact (Piece.plant ⟨rfl, rfl, rfl, rfl⟩).work.does
  | composite name => exact (Piece.plant ⟨rfl, rfl, rfl, rfl⟩).work.does
  | edit node edit => exact does_edit node edit
  | attach parent place name node => exact (Piece.attach h.2.1 h.2.2).work.does
  | attachUnique parent name node => exact does_attachUnique h.2.1 h.2.2
  | detach parent name => exact does_detach parent name
  | observe node observer => exact (Piece.subscribe rfl).work.does
  | unobserve node observer => exact (Piece.unsubscribe rfl).work.does
  | openRegistry root policy delimiter eager => exact does_openRegistry h
  | closeRegistry registry => exact does_closeRegistry registry
  | registerDecoder registry typeName decoder =>
    exact Work.does (.single (.modifyRegistry (fun _ => rfl) fun _ h => h))
  | request registry key typeName fallback decode => exact does_request h
  | requestCustom registry key typeName fallback =>
    exact does_requestCustom h
  | read handle => exact Work.read .refl handle
  | listen handle listener => exact (Piece.push _).work.read handle
  | unlisten handle listener =>
    simp only [start, unlisten]
    split
    · exact .refl _
    · exact Piece.modifyListeners.work.does
  | refresh registry => exact does_refresh registry
  | addPoller source target => exact Work.does (.single (.shift fun _ _ h => h))
  | absorb poller answer => exact does_absorb poller answer
  | reload leaf source file =>
    simp only [start, reload]
    cases source.read file with
    | error _ => exact .refl _
    | ok entries =>
      show engine.Does (engine.edit leaf (.update (.snapshot entries))).2
      exact does_edit leaf _

-- ---------------------------------------------------------------------------
-- Moves
-- ---------------------------------------------------------------------------

theorem does_run {frame : Frame V} {rest : List (Frame V)} (hstack : engine.stack = frame :: rest)
    (h : { engine with stack := rest }.run frame = some after) : engine.Does after := by
  cases frame with
  | tell node subscribers =>
    cases subscribers with
    | nil =>
      obtain rfl := Option.some.inj h
      exact (Piece.pop hstack (by rintro _ _ ⟨⟩; rfl)).work.does
    | cons subscriber subscribers =>
      obtain rfl := Option.some.inj h
      cases subscriber with
      | link parent link => exact (Piece.relay hstack).work.does
      | registry id => exact ((Piece.told hstack rfl).work.tail (piece_enqueue id _)).does
      | observer id => exact ((Piece.told hstack rfl).work.tail (.push _)).does
  | deliver notice =>
    have hpop := Piece.pop hstack (by rintro _ _ ⟨⟩)
    obtain ⟨handle, event, listeners⟩ := notice
    cases listeners with
    | nil =>
      obtain rfl := Option.some.inj h
      exact hpop.work.does
    | cons listener listeners =>
      obtain rfl := Option.some.inj h
      have hcount : Piece ({ engine with stack := rest }.push (.deliver ⟨handle, event, listeners⟩))
          (({ engine with stack := rest }.push (.deliver ⟨handle, event, listeners⟩)).count
            .notifications) := .shift fun _ _ h => h
      exact (((hpop.work.tail (.push _)).tail hcount).tail (.push _)).does
  | callback call => exact absurd h (by simp [run])
  | listen id listener =>
    obtain rfl := Option.some.inj h
    have hpop := Piece.pop hstack (by rintro _ _ ⟨⟩)
    exact (hpop.work.tail (piece_addListener id listener)).read id
  | refresh ids =>
    have hpop := Piece.pop hstack (by rintro _ _ ⟨⟩)
    cases ids with
    | nil =>
      obtain rfl := Option.some.inj h
      exact hpop.work.does
    | cons id ids =>
      have hpush := hpop.work.tail (.push (.refresh ids))
      simp only [run] at h
      split at h
      · obtain rfl := Option.some.inj h
        split
        · exact hpush.does
        · exact hpush.read id
      · obtain rfl := Option.some.inj h
        exact hpush.does
  | pass id notices =>
    have hpop := Piece.pop hstack (by rintro _ _ ⟨⟩)
    cases notices with
    | nil =>
      simp only [run] at h
      split at h
      · obtain rfl := Option.some.inj h
        split
        · exact hpop.work.does
        · exact (hpop.work.tail (.push _)).does
      · obtain rfl := Option.some.inj h
        exact hpop.work.does
    | cons notice notices =>
      obtain rfl := Option.some.inj h
      exact ((hpop.work.tail (.push _)).tail (.push _)).does
  | settle poller checkpoint changed =>
    have hpop := Piece.pop hstack (by rintro _ _ ⟨⟩)
    obtain rfl := Option.some.inj h
    unfold settle
    split
    · exact hpop.work.does
    · refine (hpop.work.tail ?_).does
      exact .shift fun _ _ h => h
  | keep node =>
    obtain rfl := Option.some.inj h
    exact (Piece.pop hstack (by rintro _ _ ⟨⟩)).work.does

theorem does_takeTask {id : RegistryId} (h : engine.takeTask id = some after) :
    engine.Does after := by
  have hqueue (queue : List (Task V)) : engine.Piece (engine.modifyRegistry id fun registry =>
      { registry with queue }) := .modifyRegistry (fun _ => rfl) fun _ h => h
  unfold takeTask at h
  split at h
  · exact absurd h (by simp)
  · split at h
    · exact absurd h (by simp)
    · obtain rfl := Option.some.inj h
      exact ((hqueue _).work.tail (.push _)).does
    · obtain rfl := Option.some.inj h
      exact ((hqueue _).work.tail (.push _)).does

theorem does_of_move? {move : Move V} (h : engine.move? move = some after) : engine.Does after := by
  cases move with
  | call call =>
    obtain ⟨hallows, hstart⟩ := Option.ite_none_right_eq_some.mp h
    obtain rfl := Option.some.inj hstart
    exact does_start hallows.2
  | step =>
    simp only [move?, step] at h
    split at h
    · exact absurd h (by simp)
    · rename_i hstack
      exact does_run hstack h
  | resume =>
    obtain ⟨-, hresume⟩ := Option.ite_none_right_eq_some.mp h
    obtain rfl := Option.some.inj hresume
    unfold resume
    split
    · rename_i hstack
      exact (Piece.pop hstack (by rintro _ _ ⟨⟩)).work.does
    · exact .refl _
  | wake registry =>
    simp only [move?] at h
    split at h
    · exact does_takeTask h
    · exact absurd h (by simp)

end

end Engine

end Overlay

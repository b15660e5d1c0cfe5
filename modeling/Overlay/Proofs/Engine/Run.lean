import Overlay.Engine.Operation
import Overlay.Proofs.Forest.Paths

/-!
# Runs

A run is what happens to an engine, move by move: the caller starts operations,
between operations or from inside a listener, the engine does its work piece by
piece, listeners return, and notifiers take tasks while nothing else goes on.
Listeners are the caller's code, so a run says nothing about them but which
operations they start.

The caller can name only what it can still get at (`Engine.Allows`). What it holds
itself, and what open registries hold for it, is `Engine.held`; `Engine.Holds` adds
all that lies below.
-/

namespace Overlay

open Template (MissingPolicy)

/-- An operation that the caller starts. -/
inductive Call (V : Type)
  | hold (anchors : List Anchor)
  | fixed (name : String) (entries : Entries)
  | settable (name : String) (entries : Entries)
  | composite (name : String)
  | edit (node : NodeId) (edit : Edit)
  | attach (parent : NodeId) (place : Place) (name : String) (node : NodeId)
  | attachUnique (parent : NodeId) (name : String) (node : NodeId)
  | detach (parent : NodeId) (name : String)
  | observe (node : NodeId) (observer : ObserverId)
  | unobserve (node : NodeId) (observer : ObserverId)
  | openRegistry (root : NodeId) (policy : MissingPolicy) (delimiter : String) (eager : Bool)
  | closeRegistry (registry : RegistryId)
  | registerDecoder (registry : RegistryId) (typeName : String) (decoder : Decoder V)
  | request (registry : RegistryId) (key typeName : String) (fallback : V) (decode : Decoder V)
  | requestCustom (registry : RegistryId) (key typeName : String) (fallback : V)
  | read (handle : HandleId)
  | listen (handle : HandleId) (listener : ListenerId)
  | unlisten (handle : HandleId) (listener : ListenerId)
  | refresh (registry : RegistryId)
  | addPoller (source : String) (target : NodeId)
  | absorb (poller : PollerId) (answer : Poll.Answer)
  | reload (leaf : NodeId) (source : Poll.FileSource) (file : Option ByteArray)

inductive Move (V : Type)
  /-- The caller starts an operation. -/
  | call (call : Call V)
  /-- The engine does the next piece of work. -/
  | step
  /-- The listener that is being called returns. -/
  | resume
  /-- The notifier of a registry takes a task. -/
  | wake (registry : RegistryId)

namespace Engine

variable {V : Type}

/-- The nodes that the caller holds itself, or an open registry for it. -/
def held (engine : Engine V) : List NodeId :=
  engine.anchors.flatMap engine.anchorNodes ++
    (engine.registries.filter (!·.closed)).map (·.root)

/-- The caller can get at the node. -/
def Holds (engine : Engine V) (id : NodeId) : Prop :=
  ∃ root ∈ engine.held, engine.forest.Reaches root id

/-- Only composites take children, nobody gets hold of a node that is gone, and
handles come from open registries. -/
def Allows (engine : Engine V) : Call V → Prop
  | .hold anchors =>
    ∀ anchor ∈ anchors, ∀ id ∈ engine.anchorNodes anchor, engine.forest.gone id = false
  | .attach parent _ _ node | .attachUnique parent _ node =>
    (engine.forest.node? parent).any Node.isComposite = true ∧
      engine.forest.gone parent = false ∧ engine.forest.gone node = false
  | .openRegistry root _ _ _ => engine.forest.gone root = false
  | .request registry _ _ _ _ | .requestCustom registry _ _ _ =>
    (engine.registryAt? registry).any (!·.closed) = true
  | _ => True

instance (engine : Engine V) (call : Call V) : Decidable (engine.Allows call) := by
  cases call <;> unfold Allows <;> infer_instance

/-- The engine once an operation has been started. -/
def start [BEq V] (engine : Engine V) : Call V → Engine V
  | .hold anchors => engine.hold anchors
  | .fixed name entries => (engine.plant (.fixed name entries)).2
  | .settable name entries => (engine.plant (.settable name entries)).2
  | .composite name => (engine.plant (.composite name)).2
  | .edit node edit => (engine.edit node edit).2
  | .attach parent place name node => engine.attach parent place name node
  | .attachUnique parent name node => (engine.attachUnique parent name node).toOption.getD engine
  | .detach parent name => (engine.detach parent name).2
  | .observe node observer => engine.observe node observer
  | .unobserve node observer => engine.unobserve node observer
  | .openRegistry root policy delimiter eager =>
    (engine.openRegistry { root, policy, delimiter, eager }).2
  | .closeRegistry registry => engine.closeRegistry registry
  | .registerDecoder registry typeName decoder => engine.registerDecoder registry typeName decoder
  | .request registry key typeName fallback decode =>
    (engine.request registry key typeName fallback decode).2
  | .requestCustom registry key typeName fallback =>
    match engine.requestCustom registry key typeName fallback with
    | .ok (_, engine) => engine
    | .error _ => engine
  | .read handle => (engine.read handle).2
  | .listen handle listener => engine.listen handle listener
  | .unlisten handle listener => (engine.unlisten handle listener).2
  | .refresh registry => engine.refresh registry
  | .addPoller source target => (engine.addPoller { source, target }).2
  | .absorb poller answer => (engine.absorb poller answer).2
  | .reload leaf source file => (engine.reload leaf source file).2

/-- The caller's code runs: no operation is in progress, or a listener is being
called. -/
def isWaiting (engine : Engine V) : Bool := engine.isIdle || engine.callback?.isSome

def move? [BEq V] (engine : Engine V) : Move V → Option (Engine V)
  | .call call =>
    if engine.isWaiting ∧ engine.Allows call then some (engine.start call) else none
  | .step => engine.step
  | .resume => if engine.callback?.isSome then some engine.resume else none
  | .wake registry => if engine.isIdle then engine.takeTask registry else none

/-- The engine after these moves, when all of them are possible. -/
def play? [BEq V] (engine : Engine V) : List (Move V) → Option (Engine V)
  | [] => some engine
  | move :: rest => (engine.move? move).bind (·.play? rest)

/-- A leaf is put into a composite, and the caller holds both. -/
def leafInRoot (entries : Entries) : List (Move V) :=
  [.call (.settable "leaf" entries), .call (.composite "root"),
    .call (.hold [.node 0, .node 1]), .call (.attach 1 .last "leaf" 0), .step]

section
variable [BEq V]

theorem play?_cons_eq_some {engine after : Engine V} {move : Move V} {rest : List (Move V)} :
    engine.play? (move :: rest) = some after ↔
      ∃ next, engine.move? move = some next ∧ next.play? rest = some after :=
  Option.bind_eq_some_iff

theorem play?_append_eq_some {engine after : Engine V} {former latter : List (Move V)} :
    engine.play? (former ++ latter) = some after ↔
      ∃ middle, engine.play? former = some middle ∧ middle.play? latter = some after := by
  induction former generalizing engine with
  | nil => simp [play?]
  | cons move rest ih =>
    simp only [List.cons_append, play?_cons_eq_some, ih]
    constructor
    · rintro ⟨next, hnext, middle, hformer, hlatter⟩
      exact ⟨middle, ⟨next, hnext, hformer⟩, hlatter⟩
    · rintro ⟨middle, ⟨next, hnext, hformer⟩, hlatter⟩
      exact ⟨next, hnext, middle, hformer, hlatter⟩

theorem play?_concat {engine before after : Engine V} {moves : List (Move V)} {move : Move V}
    (hplay : engine.play? moves = some before) (hmove : before.move? move = some after) :
    engine.play? (moves ++ [move]) = some after :=
  play?_append_eq_some.mpr ⟨before, hplay, play?_cons_eq_some.mpr ⟨after, hmove, rfl⟩⟩

/-- What every move keeps holds after every run. -/
theorem play?_induction {motive : Engine V → Prop} {engine after : Engine V} {moves : List (Move V)}
    (hplay : engine.play? moves = some after) (hstart : motive engine)
    (hmove : ∀ {before move next}, motive before → before.move? move = some next → motive next) :
    motive after := by
  induction moves generalizing engine with
  | nil => exact Option.some.inj hplay ▸ hstart
  | cons move rest ih =>
    obtain ⟨next, hnext, hrest⟩ := play?_cons_eq_some.mp hplay
    exact ih hrest (hmove hstart hnext)

end

end Engine

end Overlay

import Overlay.Cascade
import Overlay.Engine
import Overlay.Poll.File

/-!
# Operations

What the caller can do with an engine, between operations or while one of its
listeners is being called. An operation returns what is known at once, and the
engine with the work that is left to do.
-/

namespace Overlay

open Template (MissingPolicy)

namespace Engine

variable {V : Type}

-- ---------------------------------------------------------------------------
-- Nodes
-- ---------------------------------------------------------------------------

/-- From now on the caller holds on to these things and to nothing else. -/
def hold (engine : Engine V) (anchors : List Anchor) : Engine V := { engine with anchors }

/-- A new node. Nobody holds it yet. -/
def plant (engine : Engine V) (node : Node) : NodeId × Engine V :=
  let (id, forest) := engine.forest.plant node
  (id, { engine with forest })

/-- Edit a leaf; was it changed? -/
def edit (engine : Engine V) (id : NodeId) (edit : Edit) : Bool × Engine V :=
  let (changed, forest) := engine.forest.edit id edit
  let engine := { engine with forest }
  (changed, if changed then engine.announce id else engine)

/-- Put a child into a composite. -/
def attach (engine : Engine V) (parent : NodeId) (place : Place) (name : String) (node : NodeId) :
    Engine V :=
  { engine with forest := engine.forest.attach parent place name node }.changed parent

/-- Put a child behind the others, unless one has its name. -/
def attachUnique (engine : Engine V) (parent : NodeId) (name : String) (node : NodeId) :
    Except StructureError (Engine V) :=
  if (engine.forest.children parent).any (·.name = name) then
    .error (.alreadyExists name (engine.forest.name parent))
  else .ok (engine.attach parent .last name node)

/-- Take the first child of a name out of a composite. It stays in hand until the
operation is over. -/
def detach (engine : Engine V) (parent : NodeId) (name : String) : Option NodeId × Engine V :=
  match engine.forest.detach parent name with
  | none => (none, engine)
  | some (child, forest) =>
    (some child.node, ({ engine with forest }.push (.keep child.node)).changed parent)

def observe (engine : Engine V) (node : NodeId) (observer : ObserverId) : Engine V :=
  { engine with forest := engine.forest.subscribe node (.observer observer) }

def unobserve (engine : Engine V) (node : NodeId) (observer : ObserverId) : Engine V :=
  { engine with forest := engine.forest.unsubscribe node (.observer observer) }

-- ---------------------------------------------------------------------------
-- Cascades
-- ---------------------------------------------------------------------------

/-- Load the candidates in order into a composite, the later ones in front. The loader
knows what it has been asked for before, and may answer the same name in another way
the second time. Returns all names asked for; the first failure ends the load. -/
def loadAll (load : List String → String → Except LoadError (Option NodeId)) (target : NodeId)
    (asked : List String) : List String → Engine V → List String × Except LoadError Unit × Engine V
  | [], engine => (asked, .ok (), engine)
  | name :: rest, engine =>
    match load asked name with
    | .error error => (asked ++ [name], .error error, engine)
    | .ok none => loadAll load target (asked ++ [name]) rest engine
    | .ok (some node) =>
      loadAll load target (asked ++ [name]) rest (engine.attach target .first name node)

/-- Load a cascade into a new composite of its base name. -/
def loadCascadeWith (engine : Engine V) (cascade : Cascade) (policy : MissingPolicy)
    (lookup : Template.Lookup) (load : List String → String → Except LoadError (Option NodeId))
    (base : String) : List String × Except CascadeError NodeId × Engine V :=
  match cascade.names policy lookup base with
  | .error error => ([], .error (.names error), engine)
  | .ok names =>
    let (target, engine) := engine.plant (.composite base)
    let (asked, result, engine) := loadAll load target [] names engine
    (asked, (result.map fun _ => target).mapError .load, engine)

/-- Load a cascade with a loader that always gives the same answer for a name. -/
def loadCascade (engine : Engine V) (cascade : Cascade) (policy : MissingPolicy)
    (lookup : Template.Lookup) (load : String → Except LoadError (Option NodeId))
    (base : String) : List String × Except CascadeError NodeId × Engine V :=
  engine.loadCascadeWith cascade policy lookup (fun _ => load) base

-- ---------------------------------------------------------------------------
-- Registries and handles
-- ---------------------------------------------------------------------------

/-- A registry over a node. An eager one wants to hear of the node's changes. -/
def openRegistry (engine : Engine V) (registry : Registry V) : RegistryId × Engine V :=
  let id := engine.registries.length
  let engine := { engine with registries := engine.registries ++ [registry] }
  (id, if registry.eager then
      { engine with forest := engine.forest.subscribe registry.root (.registry id) }
    else engine)

/-- Close a registry: it no longer follows its node. -/
def closeRegistry (engine : Engine V) (id : RegistryId) : Engine V :=
  match engine.registryAt? id with
  | none => engine
  | some registry =>
    let engine := engine.modifyRegistry id fun registry => { registry with closed := true }
    { engine with forest := engine.forest.unsubscribe registry.root (.registry id) }

/-- Make a type available to `requestCustom`. Handles that exist keep their decoder. -/
def registerDecoder (engine : Engine V) (id : RegistryId) (typeName : String)
    (decoder : Decoder V) : Engine V :=
  engine.modifyRegistry id fun registry =>
    { registry with decoders := registry.decoders.register typeName decoder }

/-- The handle of a registry for a key and a type. -/
def find? (engine : Engine V) (id : RegistryId) (key typeName : String) : Option HandleId :=
  ((engine.registryAt? id).map (·.handles)).bind fun handles =>
    handles.find? fun h =>
      match engine.handleAt? h with
      | some handle => handle.key = key && handle.typeName = typeName
      | none => false

/-- Read a handle: the value it then holds. -/
def read [BEq V] (engine : Engine V) (id : HandleId) : Option V × Engine V :=
  let engine := engine.refreshHandle id
  ((engine.handleAt? id).map (·.held), engine)

/-- The handle for a key and a type, made on first request with this fallback and
decoder, and read. -/
def request [BEq V] (engine : Engine V) (id : RegistryId) (key typeName : String) (fallback : V)
    (decode : Decoder V) : HandleId × Engine V :=
  match engine.find? id key typeName with
  | some handle => (handle, engine.refreshHandle handle)
  | none =>
    let handle := engine.handles.length
    let made : Handle V := { registry := id, key, typeName, fallback, decode }
    let engine := { engine with handles := engine.handles ++ [made] }
    let engine := engine.modifyRegistry id fun registry =>
      { registry with handles := registry.handles ++ [handle] }
    (handle, engine.refreshHandle handle)

/-- Request a property at a type whose decoder has been registered. -/
def requestCustom [BEq V] (engine : Engine V) (id : RegistryId) (key typeName : String)
    (fallback : V) : Except PropertyError (HandleId × Engine V) :=
  match ((engine.registryAt? id).bind fun registry => registry.decoders.find? typeName) with
  | none => .error (.noDecoder typeName)
  | some decode => .ok (engine.request id key typeName fallback decode)

/-- Add a listener. The handle is read before, so that the listener hears of later
transitions only, and once more afterwards. -/
def listen [BEq V] (engine : Engine V) (id : HandleId) (listener : ListenerId) : Engine V :=
  (engine.push (.listen id listener)).refreshHandle id

/-- Remove a listener; was it registered? -/
def unlisten (engine : Engine V) (id : HandleId) (listener : ListenerId) : Bool × Engine V :=
  match engine.handleAt? id with
  | none => (false, engine)
  | some handle =>
    (listener ∈ handle.listeners,
      engine.modifyHandle id fun handle =>
        { handle with listeners := handle.listeners.filter (· ≠ listener) })

/-- Have all handles with listeners brought up to date: by the notifier of an
eager registry, else by this operation. -/
def refresh (engine : Engine V) (id : RegistryId) : Engine V :=
  match engine.registryAt? id with
  | none => engine
  | some registry =>
    if registry.eager then engine.enqueue id .refreshAll
    else engine.push (.refresh registry.handles)

-- ---------------------------------------------------------------------------
-- Polls
-- ---------------------------------------------------------------------------

def addPoller (engine : Engine V) (poller : Poll.Poller) : PollerId × Engine V :=
  (engine.pollers.length, { engine with pollers := engine.pollers ++ [poller] })

/-- Take an answer over into a poller's leaf; was the leaf changed? -/
def absorb (engine : Engine V) (id : PollerId) (answer : Poll.Answer) :
    Except Poll.PollError Bool × Engine V :=
  match engine.pollerAt? id, answer with
  | none, _ => (.error .notRunning, engine)
  | some poller, .error error => (.error error, engine.count (.polls poller.source .error))
  | some poller, .ok response =>
    let (changed, forest) := engine.forest.edit poller.target (.update response.content)
    let engine := { engine with forest }.push (.settle id response.checkpoint changed)
    (.ok changed, if changed then engine.announce poller.target else engine)

/-- Put what a watched file holds into a leaf, at the start of the watch and after
each change of the file. A file that cannot be read leaves the leaf as it is. -/
def reload (engine : Engine V) (leaf : NodeId) (source : Poll.FileSource)
    (file : Option ByteArray) : Except Poll.PollError Unit × Engine V :=
  match source.read file with
  | .error error => (.error error, engine)
  | .ok entries => (.ok (), (engine.edit leaf (.update (.snapshot entries))).2)

end Engine

end Overlay

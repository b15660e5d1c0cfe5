import Overlay.Forest
import Overlay.Poll.Poller
import Overlay.Property
import Overlay.Value.Decoders

/-!
# The engine

An engine is a forest with the registries, property handles and pollers over it.
Its listeners are code of the caller, and may operate on the engine while they
are being called. So what an operation has yet to do is kept as data: it changes
the engine, puts the rest of its work on `stack`, and ends. `Engine.step` does
the next piece of work. When that is a call of a listener, `Engine.callback?`
shows it and the engine waits: the caller may start any operation, which does
its work above the call, and hands control back with `Engine.resume`, or with
`Engine.unwind` if the listener panics. An empty stack means that no operation is
in progress.

A registry that delivers eagerly has a notifier with a queue of tasks. The
notifier works only between operations, one task at a time (`Engine.wake`).
-/

namespace Overlay

open Template (MissingPolicy)

abbrev PollerId := Nat

/-- An event, and the listeners who have yet to be told of it. -/
structure Notice (V : Type) where
  handle : HandleId
  event : Event V
  listeners : List ListenerId

/-- What a notifier has been asked to do. -/
inductive Task (V : Type)
  /-- Bring every handle with listeners up to date. -/
  | refreshAll
  | deliver (notice : Notice V)

/-- Handles over one node, one for each key and type. -/
structure Registry (V : Type) where
  root : NodeId
  policy : MissingPolicy := .fail
  /-- What separates the items of lists and sets. -/
  delimiter : String := ","
  /-- Does a notifier announce changes, or does whoever reads next? -/
  eager : Bool := true
  /-- For types that have no decoder built in. -/
  decoders : Decoders V := {}
  handles : List HandleId := []
  /-- Closed for requests. Its handles go on. -/
  closed : Bool := false
  queue : List (Task V) := []

/-- A call of the caller's code. -/
inductive Callback (V : Type)
  | node (observer : ObserverId) (node : NodeId)
  | property (listener : ListenerId) (handle : HandleId) (event : Event V)
deriving DecidableEq

/-- Work that an operation has yet to do. -/
inductive Frame (V : Type)
  /-- Tell these subscribers that the node changed. -/
  | tell (node : NodeId) (subscribers : List Subscriber)
  /-- Call these listeners. -/
  | deliver (notice : Notice V)
  /-- A listener is being called. -/
  | callback (call : Callback V)
  /-- Add a listener to a handle that has just been read, and read it again. -/
  | listen (handle : HandleId) (listener : ListenerId)
  /-- Read those of these handles that have listeners. -/
  | refresh (handles : List HandleId)
  /-- A notifier's pass: make these deliveries, then refresh the registry's handles. -/
  | pass (registry : RegistryId) (notices : List (Notice V))
  /-- An answer has been applied; keep its checkpoint. -/
  | settle (poller : PollerId) (checkpoint : Option String) (changed : Bool)
  /-- The operation still has a node in hand. -/
  | keep (node : NodeId)

/-- Does a panic go no further than this call? That is so for listeners to properties. -/
def Frame.isContained {V : Type} : Frame V → Bool
  | .callback (.property _ _ _) => true
  | _ => false

/-- What the caller holds on to. -/
inductive Anchor
  | node (id : NodeId)
  | handle (id : HandleId)
deriving DecidableEq, Repr

structure Engine (V : Type) where
  forest : Forest := {}
  registries : List (Registry V) := []
  handles : List (Handle V) := []
  pollers : List Poll.Poller := []
  stack : List (Frame V) := []
  anchors : List Anchor := []
  metrics : Metrics := {}

namespace Engine

variable {V : Type}

def registryAt? (engine : Engine V) (id : RegistryId) : Option (Registry V) := engine.registries[id]?

def handleAt? (engine : Engine V) (id : HandleId) : Option (Handle V) := engine.handles[id]?

def pollerAt? (engine : Engine V) (id : PollerId) : Option Poll.Poller := engine.pollers[id]?

def modifyRegistry (engine : Engine V) (id : RegistryId) (f : Registry V → Registry V) :
    Engine V :=
  { engine with registries := engine.registries.modify id f }

def modifyHandle (engine : Engine V) (id : HandleId) (f : Handle V → Handle V) : Engine V :=
  { engine with handles := engine.handles.modify id f }

def modifyPoller (engine : Engine V) (id : PollerId) (f : Poll.Poller → Poll.Poller) : Engine V :=
  { engine with pollers := engine.pollers.modify id f }

def push (engine : Engine V) (frame : Frame V) : Engine V :=
  { engine with stack := frame :: engine.stack }

def count (engine : Engine V) (counter : Counter) : Engine V :=
  { engine with metrics := engine.metrics.increment counter }

/-- The tree that a handle resolves in. -/
def root (engine : Engine V) (handle : Handle V) : NodeId :=
  ((engine.registryAt? handle.registry).map (·.root)).getD 0

-- ---------------------------------------------------------------------------
-- Who can still be reached
-- ---------------------------------------------------------------------------

def handleRoot (engine : Engine V) (id : HandleId) : List NodeId :=
  ((engine.handleAt? id).map engine.root).toList

def anchorNodes (engine : Engine V) : Anchor → List NodeId
  | .node id => [id]
  | .handle id => engine.handleRoot id

def frameNodes (engine : Engine V) : Frame V → List NodeId
  | .tell node _ | .keep node => [node]
  | .callback (.node _ node) => [node]
  | .callback (.property _ handle _) => engine.handleRoot handle
  | .deliver notice => engine.handleRoot notice.handle
  | .listen handle _ => engine.handleRoot handle
  | .refresh _ | .pass _ _ | .settle _ _ _ => []

/-- The nodes that the caller, a registry or work in progress holds. -/
def roots (engine : Engine V) : List NodeId :=
  engine.anchors.flatMap engine.anchorNodes ++ engine.stack.flatMap engine.frameNodes ++
    (engine.registries.filter (!·.closed)).map (·.root)

-- ---------------------------------------------------------------------------
-- Changes and reads
-- ---------------------------------------------------------------------------

/-- Report a node's version and tell its subscribers of the change. -/
def announce (engine : Engine V) (node : NodeId) : Engine V :=
  { engine with
    metrics := engine.metrics.report (engine.forest.name node) (engine.forest.version node)
    stack := .tell node (engine.forest.subscribers node) :: engine.stack }

/-- A composite changed: count a version and announce it. -/
def changed (engine : Engine V) (node : NodeId) : Engine V :=
  { engine with forest := engine.forest.bump node }.announce node

/-- Put a task at the end of a registry's queue. -/
def enqueue (engine : Engine V) (registry : RegistryId) (task : Task V) : Engine V :=
  engine.modifyRegistry registry fun registry => { registry with queue := registry.queue ++ [task] }

/-- Have a notice delivered: by the notifier of an eager registry, else as the
next work of the operation that is in progress. -/
def dispatch (engine : Engine V) (registry : RegistryId) (eager : Bool) (notice : Notice V) :
    Engine V :=
  if eager then engine.enqueue registry (.deliver notice) else engine.push (.deliver notice)

/-- Bring a handle up to date. Its listeners are told of a transition; those who
are registered at this moment are meant. -/
def refreshHandle [BEq V] (engine : Engine V) (id : HandleId) : Engine V :=
  match engine.handleAt? id with
  | none => engine
  | some handle =>
    match engine.registryAt? handle.registry with
    | none => engine
    | some registry =>
      let reading := handle.read registry.policy (engine.forest.version registry.root)
        (engine.forest.tree registry.root)
      let engine := { engine with metrics := reading.record engine.metrics }
      let engine := engine.modifyHandle id fun _ => reading.handle
      match reading.event with
      | some event =>
        if handle.listeners.isEmpty then engine
        else engine.dispatch handle.registry registry.eager ⟨id, event, handle.listeners⟩
      | none => engine

/-- Tell one subscriber that a node changed. -/
def tell (engine : Engine V) (node : NodeId) : Subscriber → Engine V
  | .link parent _ =>
    let engine := { engine with forest := engine.forest.prune engine.roots }
    if engine.forest.gone parent then engine else engine.changed parent
  | .registry id => engine.enqueue id .refreshAll
  | .observer id => engine.push (.callback (.node id node))

/-- The answer with this checkpoint has been applied. -/
def settle (engine : Engine V) (id : PollerId) (checkpoint : Option String) (changed : Bool) :
    Engine V :=
  match engine.pollerAt? id with
  | none => engine
  | some poller =>
    (engine.modifyPoller id (·.settle checkpoint)).count
      (.polls poller.source (if changed then .changed else .unchanged))

-- ---------------------------------------------------------------------------
-- Doing the work
-- ---------------------------------------------------------------------------

/-- Do one piece of work, given the rest of the stack. -/
def run [BEq V] (engine : Engine V) : Frame V → Option (Engine V)
  | .tell _ [] => some engine
  | .tell node (subscriber :: rest) => some ((engine.push (.tell node rest)).tell node subscriber)
  | .deliver ⟨_, _, []⟩ => some engine
  | .deliver ⟨handle, event, listener :: rest⟩ =>
    some (((engine.push (.deliver ⟨handle, event, rest⟩)).count .notifications).push
      (.callback (.property listener handle event)))
  | .callback _ => none
  | .listen id listener =>
    let engine := engine.modifyHandle id fun handle =>
      if listener ∈ handle.listeners then handle
      else { handle with listeners := handle.listeners ++ [listener] }
    some (engine.refreshHandle id)
  | .refresh [] => some engine
  | .refresh (id :: rest) =>
    let engine := engine.push (.refresh rest)
    match engine.handleAt? id with
    | some handle => some (if handle.listeners.isEmpty then engine else engine.refreshHandle id)
    | none => some engine
  | .pass id (notice :: rest) => some ((engine.push (.pass id rest)).push (.deliver notice))
  | .pass id [] =>
    match engine.registryAt? id with
    | some registry =>
      some (if registry.closed then engine else engine.push (.refresh registry.handles))
    | none => some engine
  | .settle poller checkpoint changed => some (engine.settle poller checkpoint changed)
  | .keep _ => some engine

/-- The next piece of work of the operation in progress. There is none when no
operation is in progress, and while a listener is being called. -/
def step [BEq V] (engine : Engine V) : Option (Engine V) :=
  match engine.stack with
  | [] => none
  | frame :: rest => { engine with stack := rest }.run frame

/-- The listener that is being called. -/
def callback? (engine : Engine V) : Option (Callback V) :=
  match engine.stack with
  | .callback call :: _ => some call
  | _ => none

/-- The listener that was called is done. -/
def resume (engine : Engine V) : Engine V :=
  match engine.stack with
  | .callback _ :: rest => { engine with stack := rest }
  | _ => engine

/-- The listener that was called panics. What was in progress is given up, up to
the call that contains the panic, and that call is over. -/
def unwind (engine : Engine V) : Engine V :=
  { engine with stack := (engine.stack.dropWhile (!·.isContained)).tail }

def isIdle (engine : Engine V) : Bool := engine.stack.isEmpty

/-- The deliveries among some tasks, in their order. -/
def deliveries (tasks : List (Task V)) : List (Notice V) :=
  tasks.filterMap fun
    | .deliver notice => some notice
    | .refreshAll => none

/-- A notifier takes its next task. To refresh, it takes all tasks there are:
requests to refresh are one request, and the deliveries are made first. -/
def takeTask (engine : Engine V) (id : RegistryId) : Option (Engine V) :=
  match engine.registryAt? id with
  | none => none
  | some registry =>
    match registry.queue with
    | [] => none
    | .deliver notice :: rest =>
      some ((engine.modifyRegistry id fun registry => { registry with queue := rest }).push
        (.deliver notice))
    | .refreshAll :: rest =>
      some ((engine.modifyRegistry id fun registry => { registry with queue := [] }).push
        (.pass id (deliveries rest)))

/-- Between operations, a notifier that has something to do takes a task. -/
def wake (engine : Engine V) : Option (Engine V) :=
  if engine.isIdle then (List.range engine.registries.length).findSome? engine.takeTask else none

end Engine

end Overlay

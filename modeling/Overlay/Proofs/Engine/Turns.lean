import Overlay.Proofs.Engine.Calm

/-!
# Turns

A move is a turn of one of a few shapes (`turn_of_move?`), so that nothing later
looks at the operations one by one: calm work, perhaps followed by the reading of
a handle; the making of a handle, a listener or a registry; a call of a listener;
a step of a notifier.

A notice is taken up once: by the read that finds the transition, or by the
notifier that it was queued for (`job?`). From then on its calls are running, and
a move makes one of them at most (`call?`).
-/

namespace Overlay

open Template (MissingPolicy)

variable {V : Type}

def Move.isWake : Move V → Bool
  | .wake _ => true
  | _ => false

def Handle.listen (handle : Handle V) (listener : ListenerId) : Handle V :=
  if listener ∈ handle.listeners then handle
  else { handle with listeners := handle.listeners ++ [listener] }

/-- A handle as it is made: not read yet, and nobody listens. -/
structure Handle.Fresh (handle : Handle V) : Prop where
  cached : handle.cached = none
  listeners : handle.listeners = []

namespace Engine

/-- The call of a property listener that a move makes. -/
def call? (engine : Engine V) : Move V → Option (Callback V)
  | .step =>
    match engine.stack with
    | .deliver ⟨handle, event, listener :: _⟩ :: _ => some (.property listener handle event)
    | _ => none
  | _ => none

/-- The notice that a notifier takes up in a move. -/
def job? (engine : Engine V) : Move V → Option (Notice V)
  | .step =>
    match engine.stack with
    | .pass _ (notice :: _) :: _ => some notice
    | _ => none
  | .wake id =>
    match engine.queue id with
    | .deliver notice :: _ => some notice
    | _ => none
  | _ => none

/-- Add a handle to its registry. -/
def enroll (engine : Engine V) (handle : Handle V) : Engine V :=
  { engine with handles := engine.handles ++ [handle] }.modifyRegistry handle.registry
    fun registry => { registry with handles := registry.handles ++ [engine.handles.length] }

def setQueue (engine : Engine V) (id : RegistryId) (queue : List (Task V)) : Engine V :=
  engine.modifyRegistry id fun registry => { registry with queue }

/-- What a notifier does once its deliveries are made. -/
def sweep (engine : Engine V) (id : RegistryId) : List (Frame V) :=
  match engine.registryAt? id with
  | some registry => if registry.closed then [] else [.refresh registry.handles]
  | none => []

/-- A new registry that is eager follows its root. -/
def forestWith (engine : Engine V) (registry : Registry V) : Forest :=
  if registry.eager then
    engine.forest.subscribe registry.root (.registry engine.registries.length)
  else engine.forest

-- ---------------------------------------------------------------------------
-- Opening and closing a registry
-- ---------------------------------------------------------------------------

section
variable {engine : Engine V} {registry : Registry V} {id : RegistryId}

theorem openRegistry_eq : (engine.openRegistry registry).2 =
    { engine with
      registries := engine.registries ++ [registry]
      forest := engine.forestWith registry } := by
  unfold Engine.openRegistry forestWith
  dsimp only
  split <;> rfl

theorem handles_openRegistry : (engine.openRegistry registry).2.handles = engine.handles := by
  rw [openRegistry_eq]

theorem stack_openRegistry : (engine.openRegistry registry).2.stack = engine.stack := by
  rw [openRegistry_eq]

theorem registries_openRegistry :
    (engine.openRegistry registry).2.registries = engine.registries ++ [registry] := by
  rw [openRegistry_eq]

theorem handles_closeRegistry : (engine.closeRegistry id).handles = engine.handles := by
  unfold Engine.closeRegistry
  split <;> rfl

theorem stack_closeRegistry : (engine.closeRegistry id).stack = engine.stack := by
  unfold Engine.closeRegistry
  split <;> rfl

end

-- ---------------------------------------------------------------------------
-- Turns
-- ---------------------------------------------------------------------------

inductive Turn [BEq V] (before : Engine V) : Move V → Engine V → Prop
  | calm {move : Move V} {after : Engine V} (h : before.Calm after)
      (hcall : before.call? move = none) (hjob : before.job? move = none)
      (hmove : move.isWake = false) : Turn before move after
  | read {call : Call V} {middle : Engine V} {id : HandleId} (h : before.Calm middle) :
      Turn before (.call call) (middle.refreshHandle id)
  | request {call : Call V} {handle : Handle V} (hfresh : handle.Fresh)
      (hhome : (before.registryAt? handle.registry).isSome) :
      Turn before (.call call) ((before.enroll handle).refreshHandle before.handles.length)
  | openRegistry {call : Call V} {root : NodeId} {policy : MissingPolicy} {delimiter : String}
      {eager : Bool} (hlive : before.forest.gone root = false) :
      Turn before (.call call) (before.openRegistry { root, policy, delimiter, eager }).2
  | closeRegistry {call : Call V} {id : RegistryId} :
      Turn before (.call call) (before.closeRegistry id)
  | unlisten {id : HandleId} {listener : ListenerId} :
      Turn before (.call (.unlisten id listener)) (before.modifyHandle id fun handle =>
        { handle with listeners := handle.listeners.filter (· ≠ listener) })
  /-- A listener is added to a handle, which is read again. -/
  | listen {id : HandleId} {listener : ListenerId} {rest : List (Frame V)}
      (hstack : before.stack = .listen id listener :: rest) :
      Turn before .step (({ before with stack := rest }.modifyHandle id
        (·.listen listener)).refreshHandle id)
  /-- A handle with listeners is read in a pass over handles. -/
  | refresh {id : HandleId} {ids : List HandleId} {rest : List (Frame V)}
      (hstack : before.stack = .refresh (id :: ids) :: rest) :
      Turn before .step ({ before with stack := .refresh ids :: rest }.refreshHandle id)
  | skip {id : HandleId} {ids : List HandleId} {rest : List (Frame V)}
      (hstack : before.stack = .refresh (id :: ids) :: rest)
      (hlisteners : ∀ handle, before.handleAt? id = some handle → handle.listeners = []) :
      Turn before .step { before with stack := .refresh ids :: rest }
  /-- A delivery calls its next listener. -/
  | call {handle : HandleId} {event : Event V} {listener : ListenerId}
      {listeners : List ListenerId} {rest : List (Frame V)} {metrics : Metrics}
      (hstack : before.stack = .deliver ⟨handle, event, listener :: listeners⟩ :: rest) :
      Turn before .step { before with
        stack := .callback (.property listener handle event) ::
          .deliver ⟨handle, event, listeners⟩ :: rest
        metrics }
  /-- A notifier's pass begins its next delivery. -/
  | next {id : RegistryId} {notice : Notice V} {notices : List (Notice V)} {rest : List (Frame V)}
      (hstack : before.stack = .pass id (notice :: notices) :: rest) :
      Turn before .step { before with stack := .deliver notice :: .pass id notices :: rest }
  /-- A notifier's pass has made its deliveries. -/
  | sweep {id : RegistryId} {rest : List (Frame V)} (hstack : before.stack = .pass id [] :: rest) :
      Turn before .step { before with stack := before.sweep id ++ rest }
  /-- A notifier takes up a delivery. -/
  | deliver {id : RegistryId} {notice : Notice V} {tasks : List (Task V)}
      (hidle : before.stack = []) (hqueue : before.queue id = .deliver notice :: tasks) :
      Turn before (.wake id) { before.setQueue id tasks with stack := [.deliver notice] }
  /-- A notifier takes up a request to refresh, with all that is queued behind it. -/
  | pass {id : RegistryId} {tasks : List (Task V)} (hidle : before.stack = [])
      (hqueue : before.queue id = .refreshAll :: tasks) :
      Turn before (.wake id) { before.setQueue id [] with stack := [.pass id (deliveries tasks)] }

variable [BEq V] {engine after : Engine V}

theorem turn_request {call : Call V} {id : RegistryId} {key typeName : String} {fallback : V}
    {decode : Decoder V} (hhome : (engine.registryAt? id).isSome) :
    engine.Turn (.call call) (engine.request id key typeName fallback decode).2 := by
  unfold request
  split
  · exact .read (.refl engine)
  · have hfresh : Handle.Fresh ({ registry := id, key, typeName, fallback, decode } : Handle V) :=
      ⟨rfl, rfl⟩
    exact .request hfresh hhome

theorem turn_start {call : Call V} (h : engine.Allows call) :
    engine.Turn (.call call) (engine.start call) := by
  have hhome {id : RegistryId} (hopen : (engine.registryAt? id).any (!·.closed) = true) :
      (engine.registryAt? id).isSome := by
    obtain ⟨registry, hregistry, -⟩ := (Option.any_eq_true _ _).mp hopen
    simp [hregistry]
  cases call with
  | hold anchors => exact .calm calm_record rfl rfl rfl
  | fixed name entries => exact .calm (calm_plant ⟨rfl, rfl, rfl, rfl⟩) rfl rfl rfl
  | settable name entries => exact .calm (calm_plant ⟨rfl, rfl, rfl, rfl⟩) rfl rfl rfl
  | composite name => exact .calm (calm_plant ⟨rfl, rfl, rfl, rfl⟩) rfl rfl rfl
  | edit node edit => exact .calm (calm_edit node edit) rfl rfl rfl
  | attach parent place name node => exact .calm (calm_attach parent place name node) rfl rfl rfl
  | attachUnique parent name node => exact .calm (calm_attachUnique parent name node) rfl rfl rfl
  | detach parent name => exact .calm (calm_detach parent name) rfl rfl rfl
  | observe node observer => exact .calm (calm_observe node observer) rfl rfl rfl
  | unobserve node observer => exact .calm (calm_unobserve node observer) rfl rfl rfl
  | openRegistry root policy delimiter eager => exact .openRegistry h
  | closeRegistry registry => exact .closeRegistry
  | registerDecoder registry typeName decoder =>
    exact .calm (calm_registerDecoder registry typeName decoder) rfl rfl rfl
  | request registry key typeName fallback decode => exact turn_request (hhome h)
  | requestCustom registry key typeName fallback =>
    simp only [start, requestCustom]
    cases (engine.registryAt? registry).bind fun registry => registry.decoders.find? typeName with
    | none => exact .calm (.refl engine) rfl rfl rfl
    | some decode => exact turn_request (hhome h)
  | read handle => exact .read (.refl engine)
  | listen handle listener => exact .read (calm_push rfl rfl)
  | unlisten handle listener =>
    simp only [start, Engine.unlisten]
    split
    · exact .calm (.refl engine) rfl rfl rfl
    · exact .unlisten
  | refresh registry => exact .calm (calm_refresh registry) rfl rfl rfl
  | addPoller source target => exact .calm calm_record rfl rfl rfl
  | absorb poller answer => exact .calm (calm_absorb poller answer) rfl rfl rfl
  | reload leaf source file => exact .calm (calm_reload leaf source file) rfl rfl rfl

theorem turn_run {frame : Frame V} {rest : List (Frame V)} (hstack : engine.stack = frame :: rest)
    (h : { engine with stack := rest }.run frame = some after) : engine.Turn .step after := by
  -- whether a step calls a listener or takes up a notice is seen on the frame
  have hcall : engine.call? .step = { engine with stack := frame :: rest }.call? .step := by
    rw [call?, call?, hstack]
  have hjob : engine.job? .step = { engine with stack := frame :: rest }.job? .step := by
    rw [job?, job?, hstack]
  cases frame with
  | tell node subscribers =>
    cases subscribers with
    | nil =>
      obtain rfl := Option.some.inj h
      exact .calm (calm_pop hstack rfl rfl fun _ _ => List.not_mem_nil) hcall hjob rfl
    | cons subscriber subscribers =>
      obtain rfl := Option.some.inj h
      cases subscriber with
      | link parent link => exact .calm (calm_relay hstack) hcall hjob rfl
      | registry id => exact .calm (calm_alert hstack) hcall hjob rfl
      | observer id =>
        exact .calm ((calm_told hstack fun _ => by simp).trans (calm_push rfl rfl)) hcall hjob rfl
  | deliver notice =>
    obtain ⟨handle, event, listeners⟩ := notice
    cases listeners with
    | nil =>
      obtain rfl := Option.some.inj h
      exact .calm (calm_pop hstack rfl rfl fun _ _ h => h) hcall hjob rfl
    | cons listener listeners =>
      obtain rfl := Option.some.inj h
      exact .call hstack
  | callback call => exact absurd h (by simp [run])
  | listen id listener =>
    obtain rfl := Option.some.inj h
    exact .listen hstack
  | refresh ids =>
    cases ids with
    | nil =>
      obtain rfl := Option.some.inj h
      exact .calm (calm_pop hstack rfl rfl fun _ _ => List.not_mem_nil) hcall hjob rfl
    | cons id ids =>
      simp only [run] at h
      split at h
      · rename_i handle hhandle
        obtain rfl := Option.some.inj h
        split
        · rename_i hempty
          refine .skip hstack fun found hfound => ?_
          obtain rfl := Option.some.inj (hhandle.symm.trans hfound)
          exact List.isEmpty_iff.mp hempty
        · exact .refresh hstack
      · rename_i hnone
        obtain rfl := Option.some.inj h
        exact .skip hstack fun handle hhandle => absurd (hnone.symm.trans hhandle) (by simp)
  | pass id notices =>
    cases notices with
    | nil =>
      have hsweep : engine.Turn .step { engine with stack := engine.sweep id ++ rest } :=
        .sweep hstack
      simp only [run] at h
      unfold Engine.sweep at hsweep
      split at h
      · rename_i registry hregistry
        obtain rfl := Option.some.inj h
        rw [show engine.registryAt? id = some registry from hregistry] at hsweep
        split
        · rename_i hclosed
          simpa [hclosed] using hsweep
        · rename_i hopen
          simpa [hopen, push] using hsweep
      · rename_i hnone
        obtain rfl := Option.some.inj h
        rw [show engine.registryAt? id = none from hnone] at hsweep
        exact hsweep
    | cons notice notices =>
      obtain rfl := Option.some.inj h
      exact .next hstack
  | settle poller checkpoint changed =>
    obtain rfl := Option.some.inj h
    exact .calm (calm_settle hstack) hcall hjob rfl
  | keep node =>
    obtain rfl := Option.some.inj h
    exact .calm (calm_pop hstack rfl rfl fun _ _ h => h) hcall hjob rfl

theorem turn_takeTask {id : RegistryId} (hidle : engine.stack = [])
    (h : engine.takeTask id = some after) : engine.Turn (.wake id) after := by
  unfold takeTask at h
  split at h
  · exact absurd h (by simp)
  · rename_i registry hregistry
    split at h
    · exact absurd h (by simp)
    · rename_i notice tasks hqueue
      obtain rfl := Option.some.inj h
      have hturn : engine.Turn (.wake id) { engine.setQueue id tasks with
          stack := [.deliver notice] } := .deliver hidle (by simp [queue, hregistry, hqueue])
      simpa [setQueue, push, modifyRegistry, hidle] using hturn
    · rename_i tasks hqueue
      obtain rfl := Option.some.inj h
      have hturn : engine.Turn (.wake id) { engine.setQueue id [] with
          stack := [.pass id (deliveries tasks)] } := .pass hidle (by simp [queue, hregistry, hqueue])
      simpa [setQueue, push, modifyRegistry, hidle] using hturn

theorem turn_of_move? {move : Move V} (h : engine.move? move = some after) :
    engine.Turn move after := by
  cases move with
  | call call =>
    obtain ⟨hallows, hstart⟩ := Option.ite_none_right_eq_some.mp h
    obtain rfl := Option.some.inj hstart
    exact turn_start hallows.2
  | step =>
    simp only [move?, step] at h
    split at h
    · exact absurd h (by simp)
    · rename_i hstack
      exact turn_run hstack h
  | resume =>
    obtain ⟨-, hresume⟩ := Option.ite_none_right_eq_some.mp h
    obtain rfl := Option.some.inj hresume
    unfold Engine.resume
    split
    · rename_i hstack
      exact .calm (calm_pop hstack rfl rfl fun _ _ h => h) rfl rfl rfl
    · exact .calm (.refl engine) rfl rfl rfl
  | wake id =>
    simp only [move?] at h
    split at h
    · rename_i hidle
      exact turn_takeTask (List.isEmpty_iff.mp hidle) h
    · exact absurd h (by simp)

end Engine

end Overlay

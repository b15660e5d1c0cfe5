import Overlay.Proofs.Engine.Coherence
import Overlay.Proofs.Engine.Turns

/-!
# Transitions

What reading a handle gives rise to: the transition that the handle makes in a move
(`event?`), and the notice of it for those who listen at that moment (`notice?`).
A handle makes no transition in a move that does not read it, and one at most in a
move that does (`event?_refreshHandle`).
-/

namespace Overlay

theorem Handle.listeners_read {V : Type} [BEq V] (handle : Handle V)
    (policy : Template.MissingPolicy) (version : Nat) (tree : Tree) :
    (handle.read policy version tree).handle.listeners = handle.listeners := by
  unfold Handle.read
  split
  · rfl
  · split <;> rfl

namespace Engine

variable {V : Type} {engine before middle after : Engine V} {id other : HandleId}
  {handle : Handle V} {registry : Registry V}

def listeners (engine : Engine V) (id : HandleId) : List ListenerId :=
  ((engine.handleAt? id).map (·.listeners)).getD []

/-- Is the handle's registry one that announces changes itself? -/
def isEager (engine : Engine V) (id : HandleId) : Bool :=
  ((engine.handleAt? id).bind fun handle => engine.registryAt? handle.registry).any (·.eager)

/-- Does the registry's notifier announce the handle's changes? -/
def notifies (engine : Engine V) (home : RegistryId) (id : HandleId) : Bool :=
  (engine.handleAt? id).map (·.registry) = some home && engine.isEager id

theorem listeners_eq (hhandle : engine.handleAt? id = some handle) :
    engine.listeners id = handle.listeners := by
  simp [listeners, hhandle]

theorem isEager_eq (hhandle : engine.handleAt? id = some handle)
    (hregistry : engine.registryAt? handle.registry = some registry) :
    engine.isEager id = registry.eager := by
  simp [isEager, hhandle, hregistry]

theorem isEager_congr
    (hhandle : (after.handleAt? id).map (·.registry) = (before.handleAt? id).map (·.registry))
    (hterms : ∀ home, (after.registryAt? home).map Registry.terms =
      (before.registryAt? home).map Registry.terms) : after.isEager id = before.isEager id := by
  have heager (engine : Engine V) : engine.isEager id =
      (((engine.handleAt? id).map (·.registry)).bind fun home =>
        (engine.registryAt? home).map Registry.terms).any (·.eager) := by
    rw [isEager]
    cases engine.handleAt? id with
    | none => rfl
    | some handle =>
      simp only [Option.bind_some, Option.map_some]
      cases engine.registryAt? handle.registry <;> rfl
  rw [heager, heager, hhandle]
  simp only [hterms]

theorem handleAt?_modifyHandle {f : Handle V → Handle V} :
    (engine.modifyHandle id f).handleAt? other =
      (engine.handleAt? other).map fun handle => if id = other then f handle else handle := by
  rw [handleAt?, modifyHandle, List.getElem?_modify]
  rfl

-- ---------------------------------------------------------------------------
-- Notices
-- ---------------------------------------------------------------------------

variable [BEq V]

/-- The notice that reading a handle gives rise to. -/
def notice? (engine : Engine V) (id : HandleId) : Option (Notice V) :=
  (engine.reading? id).bind fun reading => reading.event.bind fun event =>
    if (engine.listeners id).isEmpty then none else some ⟨id, event, engine.listeners id⟩

/-- Reading a handle stores what came of it, and has the notice delivered. -/
theorem refreshHandle_eq (hhandle : engine.handleAt? id = some handle)
    (hregistry : engine.registryAt? handle.registry = some registry) :
    engine.refreshHandle id =
      let stored := engine.store id (handle.read registry.policy
        (engine.forest.version registry.root) (engine.forest.tree registry.root))
      match engine.notice? id with
      | some notice => stored.dispatch handle.registry registry.eager notice
      | none => stored := by
  have hreading := reading?_eq_some.mpr ⟨handle, registry, hhandle, hregistry, rfl⟩
  simp only [refreshHandle, hhandle, hregistry, notice?, hreading, listeners_eq hhandle,
    Option.bind_some]
  split
  · rename_i event hevent
    rw [hevent, Option.bind_some]
    split
    · rfl
    · rfl
  · rename_i hevent
    rw [hevent]
    rfl

theorem notice?_eq_none (h : engine.reading? id = none) : engine.notice? id = none := by
  rw [notice?, h, Option.bind_none]

theorem stack_refreshHandle (engine : Engine V) (id : HandleId) :
    (engine.refreshHandle id).stack =
      (if engine.isEager id then [] else (engine.notice? id).toList.map Frame.deliver) ++
        engine.stack := by
  cases hreading : engine.reading? id with
  | none =>
    rw [refreshHandle_of_none hreading, notice?_eq_none hreading]
    simp
  | some reading =>
    obtain ⟨handle, registry, hhandle, hregistry, -⟩ := reading?_eq_some.mp hreading
    rw [refreshHandle_eq hhandle hregistry, isEager_eq hhandle hregistry]
    cases engine.notice? id with
    | none => cases registry.eager <;> rfl
    | some notice => cases registry.eager <;> simp [dispatch] <;> rfl

theorem terms_refreshHandle (engine : Engine V) (id : HandleId) (home : RegistryId) :
    ((engine.refreshHandle id).registryAt? home).map Registry.terms =
      (engine.registryAt? home).map Registry.terms := by
  cases hreading : engine.reading? id with
  | none => rw [refreshHandle_of_none hreading]
  | some reading =>
    rcases refreshHandle_of_some hreading with heq | ⟨_, eager, _, heq⟩
    · rw [heq]
      rfl
    · rw [heq]
      cases eager with
      | false => rfl
      | true => exact terms_enqueue

omit [BEq V] in
theorem queue_dispatch {eager : Bool} {notice : Notice V} {home other : RegistryId}
    (hhome : (engine.registryAt? home).isSome) :
    (engine.dispatch home eager notice).queue other =
      engine.queue other ++ if home = other && eager then [.deliver notice] else [] := by
  cases eager with
  | false => simp [dispatch, push, queue, registryAt?]
  | true => simp [dispatch, queue_enqueue, hhome]

omit [BEq V] in
theorem queue_store {reading : Reading V} {home : RegistryId} :
    (engine.store id reading).queue home = engine.queue home := rfl

/-- What reading a handle gives rise to is left to its registry's notifier, if the
registry is eager. -/
theorem queue_refreshHandle (engine : Engine V) (id : HandleId) (home : RegistryId) :
    (engine.refreshHandle id).queue home = engine.queue home ++
      if engine.notifies home id then (engine.notice? id).toList.map .deliver else [] := by
  cases hreading : engine.reading? id with
  | none =>
    rw [refreshHandle_of_none hreading, notice?_eq_none hreading]
    simp
  | some reading =>
    obtain ⟨handle, registry, hhandle, hregistry, -⟩ := reading?_eq_some.mp hreading
    rw [refreshHandle_eq hhandle hregistry, notifies, hhandle, isEager_eq hhandle hregistry]
    cases engine.notice? id with
    | none =>
      simp [queue_store]
    | some notice =>
      have hsome (reading : Reading V) :
          ((engine.store id reading).registryAt? handle.registry).isSome :=
        Option.isSome_of_eq_some hregistry
      dsimp only
      rw [queue_dispatch (hsome _), queue_store]
      simp

/-- Reading a handle changes what it caches, and nothing else about handles. -/
theorem handleAt?_refreshHandle_of_ne (engine : Engine V) (h : other ≠ id) :
    (engine.refreshHandle id).handleAt? other = engine.handleAt? other := by
  cases hreading : engine.reading? id with
  | none => rw [refreshHandle_of_none hreading]
  | some reading =>
    have hstore : (engine.store id reading).handleAt? other = engine.handleAt? other := by
      simp [store, handleAt?, modifyHandle, Ne.symm h]
    rcases refreshHandle_of_some hreading with heq | ⟨_, eager, _, heq⟩
    · rw [heq, hstore]
    · rw [heq, ← hstore]
      cases eager <;> rfl

theorem listeners_refreshHandle (engine : Engine V) (id other : HandleId) :
    (engine.refreshHandle id).listeners other = engine.listeners other := by
  by_cases h : other = id
  · subst h
    cases hreading : engine.reading? other with
    | none => rw [refreshHandle_of_none hreading]
    | some reading =>
      obtain ⟨handle, registry, hhandle, -, rfl⟩ := reading?_eq_some.mp hreading
      rw [listeners_eq (handleAt?_refreshHandle hreading), listeners_eq hhandle]
      exact handle.listeners_read _ _ _
  · rw [listeners, handleAt?_refreshHandle_of_ne engine h, listeners]

theorem home_refreshHandle (engine : Engine V) (id other : HandleId) :
    ((engine.refreshHandle id).handleAt? other).map (·.registry) =
      (engine.handleAt? other).map (·.registry) := by
  by_cases h : other = id
  · subst h
    cases hreading : engine.reading? other with
    | none => rw [refreshHandle_of_none hreading]
    | some reading =>
      obtain ⟨handle, registry, hhandle, hregistry, rfl⟩ := reading?_eq_some.mp hreading
      rw [handleAt?_refreshHandle hreading, hhandle]
      exact congrArg (fun bare => some bare.registry) (handle.bare_read _ _ _)
  · rw [handleAt?_refreshHandle_of_ne engine h]

theorem isEager_refreshHandle (engine : Engine V) (id other : HandleId) :
    (engine.refreshHandle id).isEager other = engine.isEager other :=
  isEager_congr (home_refreshHandle engine id other) (terms_refreshHandle engine id)

theorem notifies_refreshHandle (engine : Engine V) (id other : HandleId) (home : RegistryId) :
    (engine.refreshHandle id).notifies home other = engine.notifies home other := by
  rw [notifies, notifies, home_refreshHandle, isEager_refreshHandle]

-- ---------------------------------------------------------------------------
-- Transitions
-- ---------------------------------------------------------------------------

/-- The transition that the handle makes in a move, if it makes one. -/
def event? (before after : Engine V) (id : HandleId) : Option (Event V) :=
  (before.resolution? after id).bind fun
    | .error error => some (.failed error)
    | .ok value => (before.cached? id).bind fun previous =>
      if previous.value != value then some (.changed value) else none

theorem event?_of_cached_eq (h : after.cached? id = before.cached? id) :
    before.event? after id = none := by
  rw [event?, resolution?_of_cached_eq h, Option.bind_none]

theorem event?_refreshHandle (hsame : middle.cached? id = before.cached? id) :
    before.event? (middle.refreshHandle id) id =
      (middle.reading? id).bind (·.event) := by
  cases hreading : middle.reading? id with
  | none => rw [refreshHandle_of_none hreading, event?_of_cached_eq hsame, Option.bind_none]
  | some reading =>
    obtain ⟨handle, registry, hhandle, hregistry, hread⟩ := reading?_eq_some.mp hreading
    cases hcurrent : handle.isCurrent (middle.forest.version registry.root) with
    | true =>
      have hkept : (middle.refreshHandle id).cached? id = middle.cached? id := by
        rw [cached?_refreshHandle hreading, ← hread, Handle.read_of_isCurrent hcurrent, cached?,
          hhandle]
        rfl
      rw [event?_of_cached_eq (hkept.trans hsame), ← hread, Handle.read, if_pos hcurrent]
      rfl
    | false =>
      rw [event?, resolution?_refreshHandle hsame hhandle hregistry hcurrent, ← hread, Handle.read,
        if_neg (by simp [hcurrent]), ← hsame, cached?, hhandle]
      cases handle.resolve registry.policy (middle.forest.tree registry.root) with
      | error error => rfl
      | ok value =>
        simp only [Option.bind_some, Option.map_some, Option.join_some, Handle.transition]
        cases handle.cached <;> rfl

end Engine

end Overlay

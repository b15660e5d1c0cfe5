import Overlay.Proofs.Engine.Sound

/-!
# Handles over time

A handle keeps its key, its default and its decoder, and a registry its root
(`Retains`). The cached value of a handle changes in one way only: the handle is
read at a version that it has not seen, and so resolved again. `resolution?` is
what came of that in a move, and `resolutions` what came of it in a run.
-/

namespace Overlay.Engine

variable {V : Type} {engine before middle after : Engine V} {id : HandleId}

def cached? (engine : Engine V) (id : HandleId) : Option (Cached V) :=
  ((engine.handleAt? id).map (·.cached)).join

theorem cached?_eq_some {cached : Cached V} : engine.cached? id = some cached ↔
    ∃ handle, engine.handleAt? id = some handle ∧ handle.cached = some cached := by
  simp [cached?, Option.join_eq_some_iff]

/-- Handles and registries are never lost, and keep what they have for good. -/
structure Retains (before after : Engine V) : Prop where
  handle : ∀ id handle, before.handleAt? id = some handle →
    ∃ next, after.handleAt? id = some next ∧ next.bare = handle.bare
  registry : ∀ id registry, before.registryAt? id = some registry →
    ∃ next, after.registryAt? id = some next ∧ next.bare = registry.bare

/-- No handle is read. -/
structure Spares (before after : Engine V) : Prop extends Retains before after where
  cached : ∀ id, after.cached? id = before.cached? id

theorem Retains.trans (h : before.Retains middle) (h' : middle.Retains after) :
    before.Retains after where
  handle id handle hhandle := by
    obtain ⟨next, hnext, hbare⟩ := h.handle id handle hhandle
    obtain ⟨last, hlast, hbare'⟩ := h'.handle id next hnext
    exact ⟨last, hlast, hbare'.trans hbare⟩
  registry id registry hregistry := by
    obtain ⟨next, hnext, hbare⟩ := h.registry id registry hregistry
    obtain ⟨last, hlast, hbare'⟩ := h'.registry id next hnext
    exact ⟨last, hlast, hbare'.trans hbare⟩

theorem Spares.trans (h : before.Spares middle) (h' : middle.Spares after) :
    before.Spares after :=
  ⟨h.toRetains.trans h'.toRetains, fun id => (h'.cached id).trans (h.cached id)⟩

/-- An item that a view sees is still there when the view is the same. -/
theorem exists_of_map_eq {α β : Type} {view : α → β} {old new : Option α} {a : α}
    (h : new.map view = old.map view) (hold : old = some a) :
    ∃ next, new = some next ∧ view next = view a := by
  rw [hold, Option.map_some, Option.map_eq_some_iff] at h
  exact h

theorem Retains.of_bare
    (hhandles : ∀ id, (after.handleAt? id).map Handle.bare = (before.handleAt? id).map Handle.bare)
    (hregistries : ∀ id, (after.registryAt? id).map Registry.bare =
      (before.registryAt? id).map Registry.bare) : before.Retains after :=
  ⟨fun id _ => exists_of_map_eq (hhandles id), fun id _ => exists_of_map_eq (hregistries id)⟩

theorem spares_of_eq (hhandles : after.handles = before.handles)
    (hregistries : after.registries = before.registries) : before.Spares after where
  toRetains := .of_bare (fun id => by rw [handleAt?, handleAt?, hhandles])
    fun id => by rw [registryAt?, registryAt?, hregistries]
  cached id := by rw [cached?, cached?, handleAt?, handleAt?, hhandles]

theorem spares_modifyRegistry {id : RegistryId} {f : Registry V → Registry V}
    (hbare : ∀ registry, (f registry).bare = registry.bare) :
    engine.Spares (engine.modifyRegistry id f) where
  toRetains := .of_bare (fun _ => rfl) fun _ => map_getElem?_modify fun registry _ => hbare registry
  cached _ := rfl

theorem spares_openRegistry (registry : Registry V) :
    engine.Spares { engine with registries := engine.registries ++ [registry] } where
  handle _ handle hhandle := ⟨handle, hhandle, rfl⟩
  registry id found hfound := by
    refine ⟨found, ?_, rfl⟩
    exact (List.getElem?_append_left (List.getElem?_eq_some_iff.mp hfound).1).trans hfound
  cached _ := rfl

theorem spares_makeHandle {handle : Handle V} (hcached : handle.cached = none) :
    engine.Spares { engine with handles := engine.handles ++ [handle] } where
  handle id found hfound := by
    refine ⟨found, ?_, rfl⟩
    exact (List.getElem?_append_left (List.getElem?_eq_some_iff.mp hfound).1).trans hfound
  registry _ registry hregistry := ⟨registry, hregistry, rfl⟩
  cached id := by
    simp only [cached?, handleAt?]
    rcases getElem?_concat_cases engine.handles handle id with hold | ⟨hnone, hnew⟩
    · rw [hold]
    · rw [hnone, hnew]
      exact hcached

theorem spares_modifyListeners (f : List ListenerId → List ListenerId) :
    engine.Spares (engine.modifyHandle id fun handle =>
      { handle with listeners := f handle.listeners }) where
  toRetains := .of_bare (fun _ => map_getElem?_modify fun _ _ => rfl) fun _ => rfl
  cached _ := congrArg Option.join (map_getElem?_modify fun _ _ => rfl)

theorem Piece.spares (h : before.Piece after) : before.Spares after := by
  cases h with
  | edit =>
    unfold Engine.edit
    dsimp only
    split
    · exact spares_of_eq rfl rfl
    · exact spares_of_eq rfl rfl
  | relay =>
    unfold Engine.tell
    dsimp only
    split
    · exact spares_of_eq rfl rfl
    · exact spares_of_eq rfl rfl
  | openRegistry _ => exact spares_openRegistry _
  | modifyRegistry hbare _ => exact spares_modifyRegistry hbare
  | makeHandle hcached _ => exact spares_makeHandle hcached
  | modifyListeners => exact spares_modifyListeners _
  | _ => exact spares_of_eq rfl rfl

theorem Work.spares (h : before.Work after) : before.Spares after := by
  induction h with
  | refl => exact spares_of_eq rfl rfl
  | tail _ hpiece ih => exact ih.trans hpiece.spares

-- ---------------------------------------------------------------------------
-- Reading a handle
-- ---------------------------------------------------------------------------

theorem handleAt?_store {reading : Reading V} {handle : Handle V}
    (h : engine.handleAt? id = some handle) :
    (engine.store id reading).handleAt? id = some reading.handle := by
  simp only [handleAt?, store, modifyHandle] at h ⊢
  simp [h]

section
variable [BEq V] {reading : Reading V}

theorem forest_refreshHandle (engine : Engine V) (id : HandleId) :
    (engine.refreshHandle id).forest = engine.forest := by
  cases hreading : engine.reading? id with
  | none => rw [refreshHandle_of_none hreading]
  | some reading =>
    rcases refreshHandle_of_some hreading with heq | ⟨_, eager, _, heq⟩
    · rw [heq]
      rfl
    · rw [heq]
      cases eager <;> rfl

theorem retains_store (h : engine.reading? id = some reading) :
    engine.Retains (engine.store id reading) ∧
      ∀ other, other ≠ id → (engine.store id reading).cached? other = engine.cached? other := by
  obtain ⟨handle, registry, hhandle, -, rfl⟩ := reading?_eq_some.mp h
  refine ⟨.of_bare (fun _ => map_getElem?_modify fun found hfound => ?_) fun _ => rfl,
    fun other hne => ?_⟩
  · obtain rfl := Option.some.inj (hhandle.symm.trans hfound)
    exact handle.bare_read _ _ _
  · refine congrArg Option.join ?_
    simp only [handleAt?, store, modifyHandle]
    simp [Ne.symm hne]

theorem retains_refreshHandle (engine : Engine V) (id : HandleId) :
    engine.Retains (engine.refreshHandle id) ∧
      ∀ other, other ≠ id → (engine.refreshHandle id).cached? other = engine.cached? other := by
  cases hreading : engine.reading? id with
  | none =>
    rw [refreshHandle_of_none hreading]
    exact ⟨(spares_of_eq rfl rfl).toRetains, fun _ _ => rfl⟩
  | some reading =>
    have hstore := retains_store hreading
    rcases refreshHandle_of_some hreading with heq | ⟨registry, eager, notice, heq⟩
    · rw [heq]
      exact hstore
    · rw [heq]
      have hdispatch : (engine.store id reading).Spares
          ((engine.store id reading).dispatch registry eager notice) :=
        (work_dispatch registry eager notice).spares
      exact ⟨hstore.1.trans hdispatch.toRetains,
        fun other hne => (hdispatch.cached other).trans (hstore.2 other hne)⟩

theorem handleAt?_refreshHandle (h : engine.reading? id = some reading) :
    (engine.refreshHandle id).handleAt? id = some reading.handle := by
  obtain ⟨handle, registry, hhandle, -, -⟩ := reading?_eq_some.mp h
  rcases refreshHandle_of_some h with heq | ⟨_, eager, _, heq⟩
  · rw [heq]
    exact handleAt?_store hhandle
  · rw [heq]
    cases eager with
    | true => exact handleAt?_store hhandle
    | false => exact handleAt?_store hhandle

theorem cached?_refreshHandle (h : engine.reading? id = some reading) :
    (engine.refreshHandle id).cached? id = reading.handle.cached :=
  congrArg (fun found => (found.map Handle.cached).join) (handleAt?_refreshHandle h)

end

-- ---------------------------------------------------------------------------
-- Resolutions
-- ---------------------------------------------------------------------------

/-- What resolving a handle anew gives. -/
def fresh? (engine : Engine V) (id : HandleId) : Option (Except PropertyError V) :=
  (engine.handleAt? id).bind fun handle =>
    (engine.registryAt? handle.registry).map fun registry =>
      handle.resolve registry.policy (engine.forest.tree registry.root)

/-- What came of resolving the handle in a move, if it was: a resolution, also one
that fails, leaves the handle with the version that it was made at. -/
def resolution? (before after : Engine V) (id : HandleId) : Option (Except PropertyError V) :=
  if (after.cached? id).map (·.version) = (before.cached? id).map (·.version) then none
  else after.fresh? id

/-- What came of resolving the handle in the moves of a run, in their order. -/
def resolutions [BEq V] (engine : Engine V) (id : HandleId) :
    List (Move V) → List (Except PropertyError V)
  | [] => []
  | move :: rest =>
    match engine.move? move with
    | none => []
    | some next => (engine.resolution? next id).toList ++ next.resolutions id rest

theorem resolution?_of_cached_eq (h : after.cached? id = before.cached? id) :
    before.resolution? after id = none := by
  rw [resolution?, h, if_pos rfl]

theorem fresh?_of_handle {handle : Handle V} {registry : Registry V}
    (hhandle : engine.handleAt? id = some handle)
    (hregistry : engine.registryAt? handle.registry = some registry) :
    engine.fresh? id =
      some (handle.resolve registry.policy (engine.forest.tree registry.root)) := by
  simp [fresh?, hhandle, hregistry]

/-- A handle resolves as it did, but for the tree. -/
theorem Retains.resolves (h : before.Retains after) {handle : Handle V} {registry : Registry V}
    (hhandle : before.handleAt? id = some handle)
    (hregistry : before.registryAt? handle.registry = some registry) :
    ∃ next home, after.handleAt? id = some next ∧ after.registryAt? next.registry = some home ∧
      next.fallback = handle.fallback ∧ home.root = registry.root ∧
      ∀ tree, next.resolve home.policy tree = handle.resolve registry.policy tree := by
  obtain ⟨next, hnext, hbare⟩ := h.handle id handle hhandle
  obtain ⟨home, hhome, hterms⟩ := h.registry _ registry hregistry
  have hsame : next.registry = handle.registry := congrArg (·.registry) hbare
  refine ⟨next, home, hnext, hsame ▸ hhome, congrArg (·.fallback) hbare, congrArg (·.root) hterms,
    fun tree => ?_⟩
  show next.bare.resolve home.bare.policy tree = handle.bare.resolve registry.bare.policy tree
  rw [hbare, hterms]

end Overlay.Engine

import Overlay.Proofs.Engine.Listeners

/-!
# What the caller holds

What the caller holds on to changes by its word only (`anchors_of_move?`). A handle that it holds
holds the root of its registry, and the same one for good (`held_of_move?`).
-/

namespace Overlay.Engine

variable {V : Type} {engine before after : Engine V} {move : Move V}

/-- The nodes that the caller holds, itself or through handles. -/
def heldNodes (engine : Engine V) : List NodeId := engine.anchors.flatMap engine.anchorNodes

/-- What the caller holds are handles that there are. -/
def Anchored (engine : Engine V) : Prop :=
  ∀ id, .handle id ∈ engine.anchors → (engine.handleAt? id).isSome

theorem Retains.handleRoot_eq (h : before.Retains after) {id : HandleId} {handle : Handle V}
    {registry : Registry V} (hhandle : before.handleAt? id = some handle)
    (hregistry : before.registryAt? handle.registry = some registry) :
    after.handleRoot id = before.handleRoot id := by
  obtain ⟨next, home, hnext, hhome, -, hroot, -⟩ := h.resolves hhandle hregistry
  simp [handleRoot, root, hhandle, hregistry, hnext, hhome, hroot]

variable [BEq V]

theorem anchors_refreshHandle (engine : Engine V) (id : HandleId) :
    (engine.refreshHandle id).anchors = engine.anchors := by
  cases hreading : engine.reading? id with
  | none => rw [refreshHandle_of_none hreading]
  | some reading =>
    rcases refreshHandle_of_some hreading with heq | ⟨_, eager, _, heq⟩
    · rw [heq]
      rfl
    · rw [heq]
      cases eager <;> rfl

omit [BEq V] in
theorem anchors_edit (engine : Engine V) (id : NodeId) (edit : Edit) :
    (engine.edit id edit).2.anchors = engine.anchors := by
  unfold Engine.edit
  dsimp only
  split <;> rfl

theorem anchors_request (engine : Engine V) (id : RegistryId) (key typeName : String)
    (fallback : V) (decode : Decoder V) :
    (engine.request id key typeName fallback decode).2.anchors = engine.anchors := by
  unfold request
  split
  · exact anchors_refreshHandle _ _
  · exact anchors_refreshHandle _ _

theorem anchors_start {call : Call V} (h : ∀ anchors, call ≠ .hold anchors) :
    (engine.start call).anchors = engine.anchors := by
  cases call with
  | hold anchors => exact absurd rfl (h anchors)
  | edit node edit => exact anchors_edit engine node edit
  | attachUnique parent name node =>
    simp only [start, attachUnique]
    split <;> rfl
  | detach parent name =>
    simp only [start, Engine.detach]
    split <;> rfl
  | openRegistry root policy delimiter eager => simp only [start, openRegistry_eq]
  | closeRegistry registry =>
    simp only [start, Engine.closeRegistry]
    split <;> rfl
  | request registry key typeName fallback decode => exact anchors_request _ _ _ _ _ _
  | requestCustom registry key typeName fallback =>
    simp only [start, requestCustom]
    cases (engine.registryAt? registry).bind fun registry => registry.decoders.find? typeName with
    | none => rfl
    | some decode => exact anchors_request _ _ _ _ _ _
  | read handle => exact anchors_refreshHandle _ _
  | listen handle listener => exact anchors_refreshHandle _ _
  | unlisten handle listener =>
    simp only [start, Engine.unlisten]
    split <;> rfl
  | refresh registry =>
    simp only [start, Engine.refresh]
    split
    · rfl
    · split <;> rfl
  | absorb poller answer =>
    simp only [start, absorb]
    split
    · rfl
    · rfl
    · split <;> rfl
  | reload leaf source file =>
    simp only [start, reload]
    split
    · rfl
    · rename_i entries _
      exact anchors_edit engine leaf (.update (.snapshot entries))
  | _ => rfl

theorem anchors_run {frame : Frame V} (h : engine.run frame = some after) :
    after.anchors = engine.anchors := by
  cases frame with
  | tell node subscribers =>
    cases subscribers with
    | nil => exact Option.some.inj h ▸ rfl
    | cons subscriber rest =>
      obtain rfl := Option.some.inj h
      cases subscriber with
      | link parent link =>
        unfold Engine.tell
        dsimp only
        split <;> rfl
      | registry id => rfl
      | observer id => rfl
  | deliver notice =>
    obtain ⟨handle, event, listeners⟩ := notice
    cases listeners with
    | nil => exact Option.some.inj h ▸ rfl
    | cons listener rest => exact Option.some.inj h ▸ rfl
  | callback call => exact absurd h (by simp [run])
  | listen id listener => exact Option.some.inj h ▸ anchors_refreshHandle _ _
  | refresh ids =>
    cases ids with
    | nil => exact Option.some.inj h ▸ rfl
    | cons id ids =>
      simp only [run] at h
      split at h
      · obtain rfl := Option.some.inj h
        split
        · rfl
        · exact anchors_refreshHandle _ _
      · exact Option.some.inj h ▸ rfl
  | pass id notices =>
    cases notices with
    | nil =>
      simp only [run] at h
      split at h
      · obtain rfl := Option.some.inj h
        split <;> rfl
      · exact Option.some.inj h ▸ rfl
    | cons notice rest => exact Option.some.inj h ▸ rfl
  | settle poller checkpoint changed =>
    obtain rfl := Option.some.inj h
    unfold Engine.settle
    split <;> rfl
  | keep node => exact Option.some.inj h ▸ rfl

/-- Only the caller's word changes what it holds. -/
theorem anchors_of_move? (h : engine.move? move = some after)
    (hhold : ∀ anchors, move ≠ .call (.hold anchors)) : after.anchors = engine.anchors := by
  cases move with
  | call call =>
    obtain ⟨-, hstart⟩ := Option.ite_none_right_eq_some.mp h
    obtain rfl := Option.some.inj hstart
    exact anchors_start fun anchors heq => hhold anchors (heq ▸ rfl)
  | step =>
    simp only [move?, step] at h
    split at h
    · exact absurd h (by simp)
    · exact (anchors_run h).trans rfl
  | resume =>
    obtain ⟨-, hresume⟩ := Option.ite_none_right_eq_some.mp h
    obtain rfl := Option.some.inj hresume
    unfold Engine.resume
    split <;> rfl
  | wake id =>
    obtain ⟨-, htake⟩ := Option.ite_none_right_eq_some.mp h
    unfold takeTask at htake
    split at htake
    · exact absurd htake (by simp)
    · split at htake
      · exact absurd htake (by simp)
      · exact Option.some.inj htake ▸ rfl
      · exact Option.some.inj htake ▸ rfl

/-- A handle belongs to a registry that there is. -/
theorem exists_home {moves : List (Move V)} (hplay : ({} : Engine V).play? moves = some engine)
    {id : HandleId} {handle : Handle V} (hhandle : engine.handleAt? id = some handle) :
    ∃ registry, engine.registryAt? handle.registry = some registry := by
  obtain ⟨cached, hcached⟩ := Option.isSome_iff_exists.mp
    ((tidy_of_play? hplay).read id (Option.isSome_of_eq_some hhandle))
  obtain ⟨found, registry, hfound, hregistry, -⟩ :=
    ((coherent_empty id).play sound_empty hplay).read cached hcached
  obtain rfl := Option.some.inj (hhandle.symm.trans hfound)
  exact ⟨registry, hregistry⟩

theorem held_of_move? {moves : List (Move V)} (hplay : ({} : Engine V).play? moves = some engine)
    (hanchored : engine.Anchored) (hmove : engine.move? move = some after)
    (hhold : ∀ anchors, move ≠ .call (.hold anchors)) :
    after.heldNodes = engine.heldNodes ∧ after.Anchored := by
  have hanchors := anchors_of_move? hmove hhold
  have hretains := (does_of_move? hmove).retains
  constructor
  · rw [heldNodes, heldNodes, hanchors]
    refine List.flatMap_congr fun anchor hmem => ?_
    cases anchor with
    | node id => rfl
    | handle id =>
      obtain ⟨handle, hhandle⟩ := Option.isSome_iff_exists.mp (hanchored id hmem)
      obtain ⟨registry, hregistry⟩ := exists_home hplay hhandle
      exact hretains.handleRoot_eq hhandle hregistry
  · intro id hmem
    rw [hanchors] at hmem
    obtain ⟨handle, hhandle⟩ := Option.isSome_iff_exists.mp (hanchored id hmem)
    obtain ⟨next, hnext, -⟩ := hretains.handle id handle hhandle
    exact Option.isSome_of_eq_some hnext

end Overlay.Engine

import Overlay.Proofs.Engine.Anchors
import Overlay.Proofs.Engine.Effects
import Overlay.Proofs.Engine.Selection

/-!
# Mirrors

One engine mirrors another when it is what is left of that engine without some of the handles
(`Mirrors`), whatever the two have counted. What one of them does to nodes, registries and kept
handles, the other does as well, and what is done to a handle that is not kept leaves no trace
in the mirror.
-/

namespace Overlay.Engine

variable {V : Type} {keep : HandleId → Bool} {whole part : Engine V} {id : HandleId}

/-- No work about a handle that is not kept is in progress, and all else is the same but for the
numbers of handles. -/
structure Mirrors (keep : HandleId → Bool) (whole part : Engine V) : Prop where
  forest : part.forest = whole.forest
  registries : part.registries = whole.registries.map (·.only keep)
  handles : part.handles = pick keep whole.handles
  pollers : part.pollers = whole.pollers
  stack : whole.stack.map (·.only? keep) = part.stack.map some

-- ---------------------------------------------------------------------------
-- Views
-- ---------------------------------------------------------------------------

theorem mirrors_empty : ({} : Engine V).Mirrors keep {} := ⟨rfl, rfl, rfl, rfl, rfl⟩

theorem Mirrors.handleAt?_place (h : whole.Mirrors keep part) (hkeep : keep id = true) :
    part.handleAt? (place keep id) = whole.handleAt? id := by
  rw [handleAt?, h.handles]
  exact getElem?_pick hkeep

theorem Mirrors.registryAt?_eq (h : whole.Mirrors keep part) (home : RegistryId) :
    part.registryAt? home = (whole.registryAt? home).map (·.only keep) := by
  rw [registryAt?, h.registries, List.getElem?_map]
  rfl

theorem Mirrors.length_handles (h : whole.Mirrors keep part) :
    part.handles.length = place keep whole.handles.length := by
  rw [h.handles, length_pick]

theorem Mirrors.length_registries (h : whole.Mirrors keep part) :
    part.registries.length = whole.registries.length := by
  rw [h.registries, List.length_map]

theorem Mirrors.root_eq (h : whole.Mirrors keep part) (handle : Handle V) :
    part.root handle = whole.root handle := by
  rw [root, h.registryAt?_eq, Option.map_map]
  rfl

theorem Mirrors.handleRoot_place (h : whole.Mirrors keep part) (hkeep : keep id = true) :
    part.handleRoot (place keep id) = whole.handleRoot id := by
  rw [handleRoot, handleRoot, h.handleAt?_place hkeep]
  cases whole.handleAt? id with
  | none => rfl
  | some handle => simp [h.root_eq]

theorem Mirrors.frameNodes_eq (h : whole.Mirrors keep part) {frame frame' : Frame V}
    (hframe : frame.only? keep = some frame') :
    part.frameNodes frame' = whole.frameNodes frame := by
  cases frame with
  | deliver notice =>
    simp only [Frame.only?, Notice.only?, Option.map_eq_some_iff,
      Option.ite_none_right_eq_some] at hframe
    obtain ⟨_, ⟨hkeep, hnotice⟩, rfl⟩ := hframe
    obtain rfl := Option.some.inj hnotice
    exact h.handleRoot_place hkeep
  | callback call =>
    cases call with
    | node observer node =>
      obtain rfl := Option.some.inj hframe
      rfl
    | property listener handle event =>
      simp only [Frame.only?, Callback.only?, Option.map_eq_some_iff,
        Option.ite_none_right_eq_some] at hframe
      obtain ⟨_, ⟨hkeep, hcall⟩, rfl⟩ := hframe
      obtain rfl := Option.some.inj hcall
      exact h.handleRoot_place hkeep
  | listen handle listener =>
    obtain ⟨hkeep, hsome⟩ := Option.ite_none_right_eq_some.mp hframe
    obtain rfl := Option.some.inj hsome
    exact h.handleRoot_place hkeep
  | _ =>
    obtain rfl := Option.some.inj hframe
    rfl

theorem Mirrors.roots_eq (h : whole.Mirrors keep part) (hheld : part.heldNodes = whole.heldNodes) :
    part.roots = whole.roots := by
  have hframes {frames frames' : List (Frame V)}
      (hstack : frames.map (·.only? keep) = frames'.map some) :
      frames'.flatMap part.frameNodes = frames.flatMap whole.frameNodes := by
    induction frames generalizing frames' with
    | nil =>
      obtain rfl : frames' = [] := by simpa using hstack.symm
      rfl
    | cons frame frames ih =>
      cases frames' with
      | nil => simp at hstack
      | cons frame' frames' =>
        rw [List.map_cons, List.map_cons, List.cons.injEq] at hstack
        rw [List.flatMap_cons, List.flatMap_cons, h.frameNodes_eq hstack.1, ih hstack.2]
  have hopen : (part.registries.filter (!·.closed)).map (·.root) =
      (whole.registries.filter (!·.closed)).map (·.root) := by
    simp [h.registries, List.filter_map, List.map_map, Function.comp_def, Registry.only]
  rw [roots, roots, hopen, hframes h.stack]
  exact congrArg (· ++ _ ++ _) hheld

-- ---------------------------------------------------------------------------
-- What is done to both
-- ---------------------------------------------------------------------------

theorem Mirrors.setForest (h : whole.Mirrors keep part) (forest : Forest) :
    { whole with forest }.Mirrors keep { part with forest } :=
  ⟨rfl, h.registries, h.handles, h.pollers, h.stack⟩

theorem Mirrors.setMetrics (h : whole.Mirrors keep part) (metrics metrics' : Metrics) :
    { whole with metrics }.Mirrors keep { part with metrics := metrics' } :=
  ⟨h.forest, h.registries, h.handles, h.pollers, h.stack⟩

theorem Mirrors.setAnchors (h : whole.Mirrors keep part) (anchors anchors' : List Anchor) :
    { whole with anchors }.Mirrors keep { part with anchors := anchors' } :=
  ⟨h.forest, h.registries, h.handles, h.pollers, h.stack⟩

theorem Mirrors.setPollers (h : whole.Mirrors keep part) (pollers : List Poll.Poller) :
    { whole with pollers }.Mirrors keep { part with pollers } :=
  ⟨h.forest, h.registries, h.handles, rfl, h.stack⟩

theorem Mirrors.push (h : whole.Mirrors keep part) {frame frame' : Frame V}
    (hframe : frame.only? keep = some frame') :
    (whole.push frame).Mirrors keep (part.push frame') := by
  refine ⟨h.forest, h.registries, h.handles, h.pollers, ?_⟩
  simp [Engine.push, hframe, h.stack]

theorem Mirrors.announce (h : whole.Mirrors keep part) (node : NodeId) :
    (whole.announce node).Mirrors keep (part.announce node) := by
  refine ⟨h.forest, h.registries, h.handles, h.pollers, ?_⟩
  simp only [Engine.announce, List.map_cons, h.stack, h.forest]
  rfl

theorem Mirrors.changed (h : whole.Mirrors keep part) (node : NodeId) :
    (whole.changed node).Mirrors keep (part.changed node) := by
  unfold Engine.changed
  rw [h.forest]
  exact (h.setForest _).announce node

theorem map_modify {α β : Type} {items : List α} {view : α → β} {f : α → α} {f' : β → β} {i : Nat}
    (hf : ∀ a, items[i]? = some a → view (f a) = f' (view a)) :
    (items.modify i f).map view = (items.map view).modify i f' := by
  refine List.ext_getElem? fun j => ?_
  rw [List.getElem?_map, List.getElem?_modify, List.getElem?_modify, List.getElem?_map]
  cases ha : items[j]? with
  | none => rfl
  | some a =>
    by_cases hij : i = j
    · subst hij
      simp [hf a ha]
    · simp [hij]

theorem Mirrors.modifyRegistry (h : whole.Mirrors keep part) {home : RegistryId}
    {f f' : Registry V → Registry V} (hf : ∀ registry, whole.registryAt? home = some registry →
      (f registry).only keep = f' (registry.only keep)) :
    (whole.modifyRegistry home f).Mirrors keep (part.modifyRegistry home f') := by
  refine ⟨h.forest, ?_, h.handles, h.pollers, h.stack⟩
  simp only [Engine.modifyRegistry, h.registries]
  exact (map_modify hf).symm

theorem Mirrors.modifyHandle (h : whole.Mirrors keep part) (hkeep : keep id = true)
    (f : Handle V → Handle V) :
    (whole.modifyHandle id f).Mirrors keep (part.modifyHandle (place keep id) f) := by
  refine ⟨h.forest, h.registries, ?_, h.pollers, h.stack⟩
  simp only [Engine.modifyHandle, h.handles, pick_modify hkeep]

/-- A task for a registry's notifier, if it is about a kept handle or about none. -/
theorem Mirrors.enqueue (h : whole.Mirrors keep part) {task task' : Task V}
    (htask : task.only? keep = some task') (home : RegistryId) :
    (whole.enqueue home task).Mirrors keep (part.enqueue home task') := by
  refine h.modifyRegistry fun registry _ => ?_
  simp [Registry.only, List.filterMap_append, htask]

theorem Mirrors.enroll (h : whole.Mirrors keep part) (hkeep : keep whole.handles.length = true)
    (handle : Handle V) : (whole.enroll handle).Mirrors keep (part.enroll handle) := by
  have hmade : { whole with handles := whole.handles ++ [handle] }.Mirrors keep
      { part with handles := part.handles ++ [handle] } := by
    refine ⟨h.forest, h.registries, ?_, h.pollers, h.stack⟩
    simp [h.handles, pick_concat, hkeep]
  refine hmade.modifyRegistry fun registry _ => ?_
  simp [Registry.only, placed, hkeep, h.length_handles]

-- ---------------------------------------------------------------------------
-- What is done to a handle that is not kept
-- ---------------------------------------------------------------------------

theorem Mirrors.modifyOther (h : whole.Mirrors keep part) (hkeep : keep id = false)
    (f : Handle V → Handle V) : (whole.modifyHandle id f).Mirrors keep part := by
  refine ⟨h.forest, h.registries, ?_, h.pollers, h.stack⟩
  simp only [Engine.modifyHandle, h.handles, pick_modify_of_not hkeep]

theorem Mirrors.modifyAlone (h : whole.Mirrors keep part) {home : RegistryId}
    {f : Registry V → Registry V} (hf : ∀ registry, whole.registryAt? home = some registry →
      (f registry).only keep = registry.only keep) :
    (whole.modifyRegistry home f).Mirrors keep part := by
  have hsame : (whole.modifyRegistry home f).Mirrors keep
      (part.modifyRegistry home fun registry => registry) := h.modifyRegistry hf
  refine ⟨h.forest, ?_, h.handles, h.pollers, h.stack⟩
  rw [← hsame.registries]
  exact (List.modify_id home part.registries).symm

theorem Mirrors.enqueueOther (h : whole.Mirrors keep part) {task : Task V}
    (htask : task.only? keep = none) (home : RegistryId) :
    (whole.enqueue home task).Mirrors keep part := by
  refine h.modifyAlone fun registry _ => ?_
  simp [Registry.only, List.filterMap_append, htask]

theorem Mirrors.enrollOther (h : whole.Mirrors keep part)
    (hkeep : keep whole.handles.length = false) (handle : Handle V) :
    (whole.enroll handle).Mirrors keep part := by
  have hmade : { whole with handles := whole.handles ++ [handle] }.Mirrors keep part := by
    refine ⟨h.forest, h.registries, ?_, h.pollers, h.stack⟩
    simp [h.handles, pick_concat, hkeep]
  refine hmade.modifyAlone fun registry _ => ?_
  simp [Registry.only, placed, hkeep]

/-- Work about handles that are not kept is in progress, and below it all is mirrored. -/
def Trails (keep : HandleId → Bool) (whole part : Engine V) : Prop :=
  ∃ above below, whole.stack = above ++ below ∧ (∀ frame ∈ above, frame.only? keep = none) ∧
    { whole with stack := below }.Mirrors keep part

theorem Mirrors.trails (h : whole.Mirrors keep part) : whole.Trails keep part :=
  ⟨[], whole.stack, rfl, fun _ hmem => absurd hmem List.not_mem_nil, h⟩

theorem Trails.handles (h : whole.Trails keep part) : part.handles = pick keep whole.handles := by
  obtain ⟨_, _, -, -, hbelow⟩ := h
  exact hbelow.handles

theorem Trails.pushOther (h : whole.Trails keep part) {frame : Frame V}
    (hframe : frame.only? keep = none) : (whole.push frame).Trails keep part := by
  obtain ⟨above, below, hstack, habove, hbelow⟩ := h
  refine ⟨frame :: above, below, congrArg (frame :: ·) hstack, fun other hmem => ?_, hbelow⟩
  rcases List.mem_cons.mp hmem with rfl | hmem
  · exact hframe
  · exact habove other hmem

theorem Trails.modifyOther (h : whole.Trails keep part) (hkeep : keep id = false)
    (f : Handle V → Handle V) : (whole.modifyHandle id f).Trails keep part := by
  obtain ⟨above, below, hstack, habove, hbelow⟩ := h
  exact ⟨above, below, hstack, habove, hbelow.modifyOther hkeep f⟩

theorem Trails.enqueueOther (h : whole.Trails keep part) {task : Task V}
    (htask : task.only? keep = none) (home : RegistryId) :
    (whole.enqueue home task).Trails keep part := by
  obtain ⟨above, below, hstack, habove, hbelow⟩ := h
  exact ⟨above, below, hstack, habove, hbelow.enqueueOther htask home⟩

theorem Trails.setMetrics (h : whole.Trails keep part) (metrics : Metrics) :
    { whole with metrics }.Trails keep part := by
  obtain ⟨above, below, hstack, habove, hbelow⟩ := h
  exact ⟨above, below, hstack, habove, hbelow.setMetrics metrics part.metrics⟩

-- ---------------------------------------------------------------------------
-- Reading a handle
-- ---------------------------------------------------------------------------

theorem Mirrors.store (h : whole.Mirrors keep part) (hkeep : keep id = true)
    (reading : Reading V) :
    (whole.store id reading).Mirrors keep (part.store (place keep id) reading) :=
  (h.setMetrics _ _).modifyHandle hkeep _

theorem Trails.storeOther (h : whole.Trails keep part) (hkeep : keep id = false)
    (reading : Reading V) : (whole.store id reading).Trails keep part :=
  (h.setMetrics _).modifyOther hkeep _

theorem Mirrors.dispatch (h : whole.Mirrors keep part) (hkeep : keep id = true)
    (home : RegistryId) (eager : Bool) (event : Event V) (listeners : List ListenerId) :
    (whole.dispatch home eager ⟨id, event, listeners⟩).Mirrors keep
      (part.dispatch home eager ⟨place keep id, event, listeners⟩) := by
  cases eager with
  | true => exact h.enqueue (by simp [Task.only?, Notice.only?, hkeep]) home
  | false => exact h.push (by simp [Frame.only?, Notice.only?, hkeep])

theorem Trails.dispatchOther (h : whole.Trails keep part) (hkeep : keep id = false)
    (home : RegistryId) (eager : Bool) (event : Event V) (listeners : List ListenerId) :
    (whole.dispatch home eager ⟨id, event, listeners⟩).Trails keep part := by
  cases eager with
  | true => exact h.enqueueOther (by simp [Task.only?, Notice.only?, hkeep]) home
  | false => exact h.pushOther (by simp [Frame.only?, Notice.only?, hkeep])

variable [BEq V]

theorem Mirrors.refreshHandle (h : whole.Mirrors keep part) (hkeep : keep id = true) :
    (whole.refreshHandle id).Mirrors keep (part.refreshHandle (place keep id)) := by
  unfold Engine.refreshHandle
  rw [h.handleAt?_place hkeep]
  cases whole.handleAt? id with
  | none => exact h
  | some handle =>
    dsimp only
    rw [h.registryAt?_eq]
    cases whole.registryAt? handle.registry with
    | none => exact h
    | some registry =>
      dsimp only [Option.map_some, Registry.only]
      have hversion : part.forest.version registry.root = whole.forest.version registry.root := by
        rw [h.forest]
      have htree : part.forest.tree registry.root = whole.forest.tree registry.root := by
        rw [h.forest]
      rw [hversion, htree]
      have hstored := h.store hkeep (handle.read registry.policy
        (whole.forest.version registry.root) (whole.forest.tree registry.root))
      split
      · split
        · exact hstored
        · exact hstored.dispatch hkeep _ _ _ _
      · exact hstored

/-- Whoever reads a handle that is not kept is the only one to notice. -/
theorem Trails.refreshOther (h : whole.Trails keep part) (hkeep : keep id = false) :
    (whole.refreshHandle id).Trails keep part := by
  unfold Engine.refreshHandle
  split
  · exact h
  · split
    · exact h
    · rename_i handle _ _ registry _
      have hstored := h.storeOther hkeep (handle.read registry.policy
        (whole.forest.version registry.root) (whole.forest.tree registry.root))
      dsimp only
      split
      · split
        · exact hstored
        · exact hstored.dispatchOther hkeep _ _ _ _
      · exact hstored

end Overlay.Engine

import Overlay.Proofs.Engine.Mirrors
import Overlay.Proofs.Engine.Turns

/-!
# Operations and work of a mirror

A move is about one handle at most (`subject?`). An operation on a kept handle, or on none, is one
that the mirror can start as well, under the numbers that handles have there (`Mirrors.start`), and
so is a piece of work (`Mirrors.run`). What is done with another handle shows in no kept one
(`Mirrors.startOther`, `Mirrors.runOther`).
-/

namespace Overlay

variable {V : Type}

/-- The handle that the next piece of this work is about. -/
def Frame.subject? : Frame V → Option HandleId
  | .deliver notice => some notice.handle
  | .callback (.property _ handle _) => some handle
  | .listen handle _ => some handle
  | .refresh (handle :: _) => some handle
  | .pass _ (notice :: _) => some notice.handle
  | _ => none

def Task.subject? : Task V → Option HandleId
  | .refreshAll => none
  | .deliver notice => some notice.handle

namespace Engine

/-- What the caller holds through a handle that is not kept, it holds itself. -/
def holdOnly (keep : HandleId → Bool) (engine : Engine V) : Anchor → List Anchor
  | .node id => [.node id]
  | .handle id => if keep id then [.handle (place keep id)] else (engine.handleRoot id).map .node

def callOnly (keep : HandleId → Bool) (engine : Engine V) : Call V → Call V
  | .hold anchors => .hold (anchors.flatMap (engine.holdOnly keep))
  | .read handle => .read (place keep handle)
  | .listen handle listener => .listen (place keep handle) listener
  | .unlisten handle listener => .unlisten (place keep handle) listener
  | call => call

/-- The move under the numbers that handles have when only some are kept. -/
def moveOnly (keep : HandleId → Bool) (engine : Engine V) : Move V → Move V
  | .call call => .call (engine.callOnly keep call)
  | move => move

section
variable [BEq V]

/-- The handle that a request gives, or that another operation on handles names. -/
def called? (engine : Engine V) : Call V → Option HandleId
  | .request registry key typeName fallback decode =>
    some (engine.request registry key typeName fallback decode).1
  | .requestCustom registry key typeName fallback =>
    (engine.requestCustom registry key typeName fallback).toOption.map (·.1)
  | .read handle | .listen handle _ | .unlisten handle _ => some handle
  | _ => none

/-- The handle that a move is about. -/
def subject? (engine : Engine V) : Move V → Option HandleId
  | .call call => engine.called? call
  | .step | .resume => engine.stack.head?.bind Frame.subject?
  | .wake registry => (engine.queue registry).head?.bind Task.subject?

end

variable {keep : HandleId → Bool} {whole part after : Engine V} {id : HandleId}

-- ---------------------------------------------------------------------------
-- Looking up a handle
-- ---------------------------------------------------------------------------

theorem find?_and {α : Type} {items : List α} {p q : α → Bool} {a : α}
    (hfind : items.find? p = some a) (hq : q a = true) :
    items.find? (fun a => q a && p a) = some a := by
  induction items with
  | nil => simp at hfind
  | cons b rest ih =>
    rw [List.find?_cons] at hfind ⊢
    split at hfind
    · obtain rfl := Option.some.inj hfind
      simp [*]
    · rename_i hp
      simpa [hp] using ih hfind

/-- Is this the handle for the key and the type? -/
def suits (engine : Engine V) (key typeName : String) (id : HandleId) : Bool :=
  (engine.handleAt? id).any fun handle => handle.key = key && handle.typeName = typeName

theorem find?_eq (engine : Engine V) (home : RegistryId) (key typeName : String) :
    engine.find? home key typeName = ((engine.registryAt? home).map (·.handles)).bind
      (·.find? (engine.suits key typeName)) := by
  unfold Engine.find?
  congr 1
  funext handles
  congr 1
  funext id
  rw [suits]
  cases engine.handleAt? id <;> rfl

theorem Mirrors.find?_eq (h : whole.Mirrors keep part) (home : RegistryId) (key typeName : String) :
    part.find? home key typeName = (((whole.registryAt? home).map (·.handles)).bind
      (·.find? fun id => keep id && whole.suits key typeName id)).map (place keep) := by
  rw [Engine.find?_eq, h.registryAt?_eq]
  cases whole.registryAt? home with
  | none => rfl
  | some registry =>
    simp only [Option.map_some, Option.bind_some, Registry.only, placed, List.find?_map,
      List.find?_filter, Function.comp_def]
    congr 2
    funext id
    cases hkeep : keep id with
    | false => rfl
    | true => simp [suits, h.handleAt?_place hkeep]

theorem Mirrors.find?_of_some (h : whole.Mirrors keep part) {home : RegistryId}
    {key typeName : String} (hfind : whole.find? home key typeName = some id)
    (hkeep : keep id = true) : part.find? home key typeName = some (place keep id) := by
  rw [Engine.find?_eq] at hfind
  obtain ⟨handles, hhandles, hmatch⟩ := Option.bind_eq_some_iff.mp hfind
  rw [h.find?_eq, hhandles, Option.bind_some, find?_and hmatch hkeep, Option.map_some]

theorem Mirrors.find?_of_none (h : whole.Mirrors keep part) {home : RegistryId}
    {key typeName : String} (hfind : whole.find? home key typeName = none) :
    part.find? home key typeName = none := by
  rw [Engine.find?_eq, Option.bind_eq_none_iff] at hfind
  rw [h.find?_eq, Option.map_eq_none_iff, Option.bind_eq_none_iff]
  intro handles hhandles
  refine List.find?_eq_none.mpr fun id hmem hmatch => ?_
  simp only [Bool.and_eq_true] at hmatch
  exact List.find?_eq_none.mp (hfind handles hhandles) id hmem hmatch.2

-- ---------------------------------------------------------------------------
-- Operations on nodes and registries
-- ---------------------------------------------------------------------------

theorem Mirrors.plant (h : whole.Mirrors keep part) (node : Node) :
    (whole.plant node).2.Mirrors keep (part.plant node).2 := by
  simp only [Engine.plant]
  rw [h.forest]
  exact h.setForest _

theorem Mirrors.edit (h : whole.Mirrors keep part) (leaf : NodeId) (edit : Edit) :
    (whole.edit leaf edit).2.Mirrors keep (part.edit leaf edit).2 := by
  rw [edit_snd, edit_snd, h.forest]
  split
  · exact (h.setForest _).announce leaf
  · exact h.setForest _

theorem Mirrors.attach (h : whole.Mirrors keep part) (parent : NodeId) (at' : Place)
    (name : String) (node : NodeId) :
    (whole.attach parent at' name node).Mirrors keep (part.attach parent at' name node) := by
  unfold Engine.attach
  rw [h.forest]
  exact (h.setForest _).changed parent

theorem Mirrors.attachUnique (h : whole.Mirrors keep part) (parent : NodeId) (name : String)
    (node : NodeId) : ((whole.attachUnique parent name node).toOption.getD whole).Mirrors keep
      ((part.attachUnique parent name node).toOption.getD part) := by
  unfold Engine.attachUnique
  rw [h.forest]
  split
  · exact h
  · exact h.attach parent .last name node

theorem Mirrors.detach (h : whole.Mirrors keep part) (parent : NodeId) (name : String) :
    (whole.detach parent name).2.Mirrors keep (part.detach parent name).2 := by
  unfold Engine.detach
  rw [h.forest]
  split
  · exact h
  · exact ((h.setForest _).push rfl).changed parent

theorem Mirrors.openRegistry (h : whole.Mirrors keep part) {registry : Registry V}
    (hnew : registry.only keep = registry) :
    (whole.openRegistry registry).2.Mirrors keep (part.openRegistry registry).2 := by
  rw [openRegistry_eq, openRegistry_eq, forestWith, forestWith, h.forest, h.length_registries]
  refine ⟨rfl, ?_, h.handles, h.pollers, h.stack⟩
  simp [h.registries, hnew]

theorem Mirrors.closeRegistry (h : whole.Mirrors keep part) (home : RegistryId) :
    (whole.closeRegistry home).Mirrors keep (part.closeRegistry home) := by
  unfold Engine.closeRegistry
  rw [h.registryAt?_eq]
  cases whole.registryAt? home with
  | none => exact h
  | some registry =>
    have hclosed :
        (whole.modifyRegistry home fun registry => { registry with closed := true }).Mirrors keep
          (part.modifyRegistry home fun registry => { registry with closed := true }) :=
      h.modifyRegistry fun _ _ => rfl
    dsimp only [Option.map_some, Registry.only]
    rw [hclosed.forest]
    exact hclosed.setForest _

theorem Mirrors.refresh (h : whole.Mirrors keep part) (home : RegistryId) :
    (whole.refresh home).Mirrors keep (part.refresh home) := by
  unfold Engine.refresh
  rw [h.registryAt?_eq]
  cases whole.registryAt? home with
  | none => exact h
  | some registry =>
    dsimp only [Option.map_some, Registry.only]
    split
    · exact h.enqueue rfl home
    · exact h.push rfl

theorem Mirrors.addPoller (h : whole.Mirrors keep part) (poller : Poll.Poller) :
    (whole.addPoller poller).2.Mirrors keep (part.addPoller poller).2 := by
  simp only [Engine.addPoller]
  rw [h.pollers]
  exact h.setPollers _

theorem Mirrors.absorb (h : whole.Mirrors keep part) (poller : PollerId) (answer : Poll.Answer) :
    (whole.absorb poller answer).2.Mirrors keep (part.absorb poller answer).2 := by
  have hpoller : part.pollerAt? poller = whole.pollerAt? poller := by
    rw [pollerAt?, pollerAt?, h.pollers]
  unfold Engine.absorb
  rw [hpoller]
  cases whole.pollerAt? poller with
  | none => exact h
  | some found =>
    cases answer with
    | error error => exact h.setMetrics _ _
    | ok response =>
      dsimp only
      rw [h.forest]
      have hsettle : (Frame.settle poller response.checkpoint
          (whole.forest.edit found.target (.update response.content)).1 : Frame V).only? keep =
        some (.settle poller response.checkpoint
          (whole.forest.edit found.target (.update response.content)).1) := rfl
      have hedited := h.setForest (whole.forest.edit found.target (.update response.content)).2
      have hpushed := hedited.push hsettle
      split
      · exact hpushed.announce found.target
      · exact hpushed

theorem Mirrors.reload (h : whole.Mirrors keep part) (leaf : NodeId) (source : Poll.FileSource)
    (file : Option ByteArray) :
    (whole.reload leaf source file).2.Mirrors keep (part.reload leaf source file).2 := by
  unfold Engine.reload
  split
  · exact h
  · rename_i entries _
    exact h.edit leaf (.update (.snapshot entries))

theorem Mirrors.unlisten (h : whole.Mirrors keep part) (hkeep : keep id = true)
    (listener : ListenerId) :
    (whole.unlisten id listener).2.Mirrors keep (part.unlisten (place keep id) listener).2 := by
  unfold Engine.unlisten
  rw [h.handleAt?_place hkeep]
  split
  · exact h
  · exact h.modifyHandle hkeep _

-- ---------------------------------------------------------------------------
-- Operations on handles
-- ---------------------------------------------------------------------------

section
variable [BEq V]

theorem Mirrors.request (h : whole.Mirrors keep part) {home : RegistryId} {key typeName : String}
    {fallback : V} {decode : Decoder V}
    (hkeep : keep (whole.request home key typeName fallback decode).1 = true) :
    (part.request home key typeName fallback decode).1 =
        place keep (whole.request home key typeName fallback decode).1 ∧
      (whole.request home key typeName fallback decode).2.Mirrors keep
        (part.request home key typeName fallback decode).2 := by
  unfold Engine.request at hkeep ⊢
  cases hfind : whole.find? home key typeName with
  | some id =>
    simp only [hfind] at hkeep
    rw [h.find?_of_some hfind hkeep]
    exact ⟨rfl, h.refreshHandle hkeep⟩
  | none =>
    simp only [hfind] at hkeep
    rw [h.find?_of_none hfind]
    refine ⟨h.length_handles, ?_⟩
    have hmade := (h.enroll hkeep
      { registry := home, key, typeName, fallback, decode }).refreshHandle hkeep
    rw [← h.length_handles] at hmade
    exact hmade

theorem Mirrors.requestOther (h : whole.Mirrors keep part) {home : RegistryId}
    {key typeName : String} {fallback : V} {decode : Decoder V}
    (hkeep : keep (whole.request home key typeName fallback decode).1 = false) :
    (whole.request home key typeName fallback decode).2.Trails keep part := by
  unfold Engine.request at hkeep ⊢
  cases hfind : whole.find? home key typeName with
  | some id =>
    simp only [hfind] at hkeep
    exact h.trails.refreshOther hkeep
  | none =>
    simp only [hfind] at hkeep
    exact (h.enrollOther hkeep _).trails.refreshOther hkeep

omit [BEq V] in
theorem Mirrors.decoder_eq (h : whole.Mirrors keep part) (home : RegistryId) (typeName : String) :
    ((part.registryAt? home).bind fun registry => registry.decoders.find? typeName) =
      (whole.registryAt? home).bind fun registry => registry.decoders.find? typeName := by
  rw [h.registryAt?_eq]
  cases whole.registryAt? home <;> rfl

theorem Mirrors.listen (h : whole.Mirrors keep part) (hkeep : keep id = true)
    (listener : ListenerId) :
    (whole.listen id listener).Mirrors keep (part.listen (place keep id) listener) := by
  have hframe : (Frame.listen id listener : Frame V).only? keep =
      some (.listen (place keep id) listener) := by simp [Frame.only?, hkeep]
  exact (h.push hframe).refreshHandle hkeep

theorem Mirrors.listenOther (h : whole.Mirrors keep part) (hkeep : keep id = false)
    (listener : ListenerId) : (whole.listen id listener).Trails keep part := by
  have hframe : (Frame.listen id listener : Frame V).only? keep = none := by
    simp [Frame.only?, hkeep]
  exact (h.trails.pushOther hframe).refreshOther hkeep

omit [BEq V] in
theorem Mirrors.unlistenOther (h : whole.Mirrors keep part) (hkeep : keep id = false)
    (listener : ListenerId) : (whole.unlisten id listener).2.Trails keep part := by
  unfold Engine.unlisten
  split
  · exact h.trails
  · exact h.trails.modifyOther hkeep _

-- ---------------------------------------------------------------------------
-- Operations
-- ---------------------------------------------------------------------------

theorem Mirrors.start (h : whole.Mirrors keep part) {call : Call V}
    (hkeep : (whole.called? call).all keep = true) :
    (whole.start call).Mirrors keep (part.start (whole.callOnly keep call)) := by
  cases call with
  | hold anchors => exact h.setAnchors _ _
  | fixed name entries => exact h.plant _
  | settable name entries => exact h.plant _
  | composite name => exact h.plant _
  | edit node edit => exact h.edit node edit
  | attach parent place name node => exact h.attach parent place name node
  | attachUnique parent name node => exact h.attachUnique parent name node
  | detach parent name => exact h.detach parent name
  | observe node observer =>
    simp only [Engine.start, observe, callOnly]
    rw [h.forest]
    exact h.setForest _
  | unobserve node observer =>
    simp only [Engine.start, unobserve, callOnly]
    rw [h.forest]
    exact h.setForest _
  | openRegistry root policy delimiter eager => exact h.openRegistry rfl
  | closeRegistry registry => exact h.closeRegistry registry
  | registerDecoder registry typeName decoder => exact h.modifyRegistry fun _ _ => rfl
  | request registry key typeName fallback decode => exact (h.request hkeep).2
  | requestCustom registry key typeName fallback =>
    simp only [called?, requestCustom] at hkeep
    simp only [Engine.start, callOnly, requestCustom, h.decoder_eq]
    cases hdecoder : (whole.registryAt? registry).bind fun registry =>
        registry.decoders.find? typeName with
    | none => exact h
    | some decode =>
      simp only [hdecoder] at hkeep
      exact (h.request hkeep).2
  | read handle => exact h.refreshHandle hkeep
  | listen handle listener => exact h.listen hkeep listener
  | unlisten handle listener => exact h.unlisten hkeep listener
  | refresh registry => exact h.refresh registry
  | addPoller source target => exact h.addPoller _
  | absorb poller answer => exact h.absorb poller answer
  | reload leaf source file => exact h.reload leaf source file

/-- An operation on a handle that is not kept leaves work about that handle behind. -/
theorem Mirrors.startOther (h : whole.Mirrors keep part) {call : Call V}
    (hcalled : whole.called? call = some id) (hkeep : keep id = false) :
    (whole.start call).Trails keep part := by
  cases call with
  | request registry key typeName fallback decode =>
    obtain rfl := Option.some.inj hcalled
    exact h.requestOther hkeep
  | requestCustom registry key typeName fallback =>
    simp only [called?, requestCustom] at hcalled
    simp only [Engine.start, requestCustom]
    cases hdecoder : (whole.registryAt? registry).bind fun registry =>
        registry.decoders.find? typeName with
    | none => exact h.trails
    | some decode =>
      simp only [hdecoder] at hcalled
      obtain rfl := Option.some.inj hcalled
      exact h.requestOther hkeep
  | read handle =>
    obtain rfl := Option.some.inj hcalled
    exact h.trails.refreshOther hkeep
  | listen handle listener =>
    obtain rfl := Option.some.inj hcalled
    exact h.listenOther hkeep listener
  | unlisten handle listener =>
    obtain rfl := Option.some.inj hcalled
    exact h.unlistenOther hkeep listener
  | _ => simp [called?] at hcalled

omit [BEq V] in
theorem Mirrors.anchorNodes_holdOnly (h : whole.Mirrors keep part) (anchor : Anchor) :
    (whole.holdOnly keep anchor).flatMap part.anchorNodes = whole.anchorNodes anchor := by
  cases anchor with
  | node id => rfl
  | handle id =>
    simp only [holdOnly, anchorNodes]
    split
    · rename_i hkeep
      simp [anchorNodes, h.handleRoot_place hkeep]
    · simp [List.flatMap_map, anchorNodes]

omit [BEq V] in
theorem Mirrors.heldNodes_hold (h : whole.Mirrors keep part) (anchors : List Anchor) :
    (part.hold (anchors.flatMap (whole.holdOnly keep))).heldNodes =
      (whole.hold anchors).heldNodes := by
  show (anchors.flatMap (whole.holdOnly keep)).flatMap part.anchorNodes =
    anchors.flatMap whole.anchorNodes
  simp only [List.flatMap_assoc, h.anchorNodes_holdOnly]

omit [BEq V] in
theorem Mirrors.allows (h : whole.Mirrors keep part) {call : Call V} (hallows : whole.Allows call) :
    part.Allows (whole.callOnly keep call) := by
  have hopen {home : RegistryId} (hwhole : (whole.registryAt? home).any (!·.closed) = true) :
      (part.registryAt? home).any (!·.closed) = true := by
    rw [h.registryAt?_eq]
    cases hregistry : whole.registryAt? home with
    | none => simp [hregistry] at hwhole
    | some registry => simpa [hregistry, Registry.only] using hwhole
  cases call with
  | hold anchors =>
    intro anchor hanchor node hnode
    obtain ⟨whose, hwhose, honly⟩ := List.mem_flatMap.mp hanchor
    rw [h.forest]
    refine hallows whose hwhose node ?_
    rw [← h.anchorNodes_holdOnly]
    exact List.mem_flatMap.mpr ⟨anchor, honly, hnode⟩
  | attach parent place name node =>
    simp only [callOnly, Allows, h.forest]
    exact hallows
  | attachUnique parent name node =>
    simp only [callOnly, Allows, h.forest]
    exact hallows
  | openRegistry root policy delimiter eager =>
    simp only [callOnly, Allows, h.forest]
    exact hallows
  | request registry key typeName fallback decode => exact hopen hallows
  | requestCustom registry key typeName fallback => exact hopen hallows
  | _ => trivial

-- ---------------------------------------------------------------------------
-- Pieces of work
-- ---------------------------------------------------------------------------

omit [BEq V] in
theorem Mirrors.tell (h : whole.Mirrors keep part) (hheld : part.heldNodes = whole.heldNodes)
    (node : NodeId) (subscriber : Subscriber) :
    (whole.tell node subscriber).Mirrors keep (part.tell node subscriber) := by
  cases subscriber with
  | registry home => exact h.enqueue rfl home
  | observer observer => exact h.push rfl
  | link parent link =>
    simp only [Engine.tell]
    rw [h.forest, h.roots_eq hheld]
    split
    · exact h.setForest _
    · exact (h.setForest _).changed parent

/-- A piece of work about a kept handle, or about none. -/
theorem Mirrors.run (h : whole.Mirrors keep part) (hheld : part.heldNodes = whole.heldNodes)
    {frame frame' : Frame V} (hframe : frame.only? keep = some frame')
    (hkeep : frame.subject?.all keep = true) (hrun : whole.run frame = some after) :
    ∃ next, part.run frame' = some next ∧ after.Mirrors keep next := by
  cases frame with
  | tell node subscribers =>
    obtain rfl := Option.some.inj hframe
    cases subscribers with
    | nil =>
      obtain rfl := Option.some.inj hrun
      exact ⟨part, rfl, h⟩
    | cons subscriber subscribers =>
      obtain rfl := Option.some.inj hrun
      refine ⟨_, rfl, (h.push rfl).tell ?_ node subscriber⟩
      exact hheld
  | deliver notice =>
    obtain ⟨handle, event, listeners⟩ := notice
    have hhandle : keep handle = true := hkeep
    simp only [Frame.only?, Notice.only?, hhandle, if_true, Option.map_some] at hframe
    obtain rfl := Option.some.inj hframe
    cases listeners with
    | nil =>
      obtain rfl := Option.some.inj hrun
      exact ⟨part, rfl, h⟩
    | cons listener listeners =>
      obtain rfl := Option.some.inj hrun
      refine ⟨_, rfl, ((h.push ?_).setMetrics _ _).push ?_⟩
      · simp [Frame.only?, Notice.only?, hhandle]
      · simp [Frame.only?, Callback.only?, hhandle]
  | callback call => simp [Engine.run] at hrun
  | listen id listener =>
    have hhandle : keep id = true := hkeep
    simp only [Frame.only?, hhandle, if_true] at hframe
    obtain rfl := Option.some.inj hframe
    obtain rfl := Option.some.inj hrun
    exact ⟨_, rfl, (h.modifyHandle hhandle _).refreshHandle hhandle⟩
  | refresh ids =>
    obtain rfl := Option.some.inj hframe
    cases ids with
    | nil =>
      obtain rfl := Option.some.inj hrun
      exact ⟨part, rfl, h⟩
    | cons id ids =>
      have hhandle : keep id = true := hkeep
      have hrefresh : (Frame.refresh ids : Frame V).only? keep =
          some (.refresh (placed keep ids)) := rfl
      have hpushed := h.push hrefresh
      rw [placed_cons, if_pos hhandle]
      simp only [Engine.run] at hrun ⊢
      rw [hpushed.handleAt?_place hhandle]
      split at hrun
      · obtain rfl := Option.some.inj hrun
        refine ⟨_, rfl, ?_⟩
        split
        · exact hpushed
        · exact hpushed.refreshHandle hhandle
      · obtain rfl := Option.some.inj hrun
        exact ⟨_, rfl, hpushed⟩
  | pass home notices =>
    obtain rfl := Option.some.inj hframe
    cases notices with
    | nil =>
      simp only [Engine.run, List.filterMap_nil] at hrun ⊢
      rw [h.registryAt?_eq]
      cases hregistry : whole.registryAt? home with
      | none =>
        simp only [hregistry] at hrun
        obtain rfl := Option.some.inj hrun
        exact ⟨part, rfl, h⟩
      | some registry =>
        simp only [hregistry] at hrun
        obtain rfl := Option.some.inj hrun
        refine ⟨_, rfl, ?_⟩
        have hrefresh : (Frame.refresh registry.handles : Frame V).only? keep =
            some (.refresh (registry.only keep).handles) := rfl
        cases hclosed : registry.closed with
        | true => simpa [Registry.only, hclosed] using h
        | false => simpa [Registry.only, hclosed] using h.push hrefresh
    | cons notice notices =>
      have hhandle : keep notice.handle = true := hkeep
      obtain rfl := Option.some.inj hrun
      have hnotice : notice.only? keep =
          some { notice with handle := place keep notice.handle } := by
        simp [Notice.only?, hhandle]
      rw [List.filterMap_cons_some hnotice]
      exact ⟨_, rfl, (h.push rfl).push (by simp [Frame.only?, hnotice])⟩
  | settle poller checkpoint changed =>
    obtain rfl := Option.some.inj hframe
    obtain rfl := Option.some.inj hrun
    refine ⟨_, rfl, ?_⟩
    have hpoller : part.pollerAt? poller = whole.pollerAt? poller := by
      rw [pollerAt?, pollerAt?, h.pollers]
    unfold settle
    rw [hpoller]
    split
    · exact h
    · refine Mirrors.setMetrics ?_ _ _
      simp only [modifyPoller]
      rw [h.pollers]
      exact h.setPollers _
  | keep node =>
    obtain rfl := Option.some.inj hframe
    obtain rfl := Option.some.inj hrun
    exact ⟨part, rfl, h⟩

/-- A piece of work about a handle that is not kept, with the rest of the stack below it. -/
theorem Trails.runOther (h : whole.Trails keep part) {frame : Frame V}
    (hframe : frame.only? keep = none) (hrun : whole.run frame = some after) :
    after.Trails keep part := by
  cases frame with
  | deliver notice =>
    obtain ⟨handle, event, listeners⟩ := notice
    have hother (listeners : List ListenerId) :
        (Frame.deliver ⟨handle, event, listeners⟩ : Frame V).only? keep = none := by
      simpa [Frame.only?, Notice.only?] using hframe
    cases listeners with
    | nil =>
      obtain rfl := Option.some.inj hrun
      exact h
    | cons listener listeners =>
      obtain rfl := Option.some.inj hrun
      refine ((h.pushOther (hother listeners)).setMetrics _).pushOther ?_
      simpa [Frame.only?, Notice.only?, Callback.only?] using hframe
  | callback call => simp [Engine.run] at hrun
  | listen id listener =>
    obtain rfl := Option.some.inj hrun
    have hhandle : keep id = false := by simpa [Frame.only?] using hframe
    exact (h.modifyOther hhandle _).refreshOther hhandle
  | _ => simp [Frame.only?] at hframe

/-- A list of handles or of notices goes on behind one that is not kept. -/
theorem Mirrors.runOther (h : whole.Mirrors keep part) {frame frame' : Frame V}
    (hframe : frame.only? keep = some frame') (hsubject : frame.subject? = some id)
    (hkeep : keep id = false) (hrun : whole.run frame = some after) :
    after.Trails keep (part.push frame') := by
  cases frame with
  | refresh ids =>
    cases ids with
    | nil => simp [Frame.subject?] at hsubject
    | cons other ids =>
      obtain rfl := Option.some.inj hsubject
      obtain rfl := Option.some.inj hframe
      have hpushed : (whole.push (.refresh ids)).Mirrors keep
          (part.push (.refresh (placed keep (other :: ids)))) := by
        rw [placed_cons, if_neg (by simp [hkeep])]
        exact h.push rfl
      simp only [Engine.run] at hrun
      split at hrun
      · obtain rfl := Option.some.inj hrun
        split
        · exact hpushed.trails
        · exact hpushed.trails.refreshOther hkeep
      · obtain rfl := Option.some.inj hrun
        exact hpushed.trails
  | pass home notices =>
    cases notices with
    | nil => simp [Frame.subject?] at hsubject
    | cons notice notices =>
      obtain rfl := Option.some.inj hsubject
      obtain rfl := Option.some.inj hframe
      obtain rfl := Option.some.inj hrun
      have hnotice : notice.only? keep = none := by simp [Notice.only?, hkeep]
      rw [List.filterMap_cons_none hnotice]
      exact (h.push rfl).trails.pushOther (by simp [Frame.only?, hnotice])
  | deliver notice =>
    obtain rfl := Option.some.inj hsubject
    simp [Frame.only?, Notice.only?, hkeep] at hframe
  | callback call => simp [Engine.run] at hrun
  | listen handle listener =>
    obtain rfl := Option.some.inj hsubject
    simp [Frame.only?, hkeep] at hframe
  | _ => simp [Frame.subject?] at hsubject

end

end Engine

end Overlay

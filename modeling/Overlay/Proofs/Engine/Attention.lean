import Overlay.Proofs.Engine.Listeners

/-!
# Attention

An open eager registry follows its root. So a handle of it that somebody listens to is
up to date, or something is still to be done that will have it read (`Attentive`): the
registry is yet to be told, its queue holds a request, a pass is under way, or the handle
is on the list of those to be refreshed. Every turn keeps it so (`Attentive.turn`).
Somebody else may see to a handle; and it need not be seen to just before it is read,
which is how the steps that read one are taken apart (`Attentive.refreshHandle`).
-/

namespace Overlay

namespace Engine

variable {V : Type} {engine before middle after : Engine V} {id : HandleId} {handle : Handle V}
  {registry : Registry V} {home : RegistryId} {elsewhere elsewhere' : RegistryId → HandleId → Prop}

/-- Somebody listens to the handle, and its registry is there to announce changes. -/
structure Watches (engine : Engine V) (id : HandleId) (handle : Handle V)
    (registry : Registry V) : Prop where
  handleAt : engine.handleAt? id = some handle
  registryAt : engine.registryAt? handle.registry = some registry
  eager : registry.eager = true
  live : registry.closed = false
  listeners : handle.listeners ≠ []

/-- The handle has seen its root's version, or will be read: by what is to be done here,
or elsewhere. -/
def Heeds (engine : Engine V) (elsewhere : RegistryId → HandleId → Prop) (id : HandleId)
    (handle : Handle V) (root : NodeId) : Prop :=
  handle.isCurrent (engine.forest.version root) = true ∨ engine.Recalls handle.registry id ∨
    elsewhere handle.registry id

structure Attentive (engine : Engine V) (elsewhere : RegistryId → HandleId → Prop) : Prop where
  follows : ∀ home registry, engine.registryAt? home = some registry → registry.eager = true →
    registry.closed = false → .registry home ∈ engine.forest.subscribers registry.root
  listed : ∀ id handle, engine.handleAt? id = some handle →
    ∃ registry, engine.registryAt? handle.registry = some registry ∧ id ∈ registry.handles
  bounded : ∀ id handle registry cached, engine.handleAt? id = some handle →
    engine.registryAt? handle.registry = some registry → handle.cached = some cached →
      cached.version ≤ engine.forest.version registry.root
  heeded : ∀ id handle registry, engine.Watches id handle registry →
    engine.Heeds elsewhere id handle registry.root

theorem attentive_empty : ({} : Engine V).Attentive elsewhere where
  follows _ _ h := absurd h (by simp [registryAt?])
  listed _ _ h := absurd h (by simp [handleAt?])
  bounded _ _ _ _ h := absurd h (by simp [handleAt?])
  heeded _ _ _ h := absurd h.handleAt (by simp [handleAt?])

theorem recalls_iff (hregistry : engine.registryAt? home = some registry) :
    engine.Recalls home id ↔
      .refreshAll ∈ engine.queue home ∨ ∃ frame ∈ engine.stack, frame.Recalls home id := by
  rw [queue, hregistry]
  constructor
  · exact fun h => h registry hregistry
  · intro h found hfound
    obtain rfl := Option.some.inj (hregistry.symm.trans hfound)
    exact h

/-- A registry but for its queue and its decoders is there when its like was. -/
theorem exists_of_terms (hterms : (after.registryAt? home).map Registry.terms =
      (before.registryAt? home).map Registry.terms)
    (hregistry : before.registryAt? home = some registry) :
    ∃ next, after.registryAt? home = some next ∧ next.root = registry.root ∧
      next.eager = registry.eager ∧ next.closed = registry.closed ∧
      next.handles = registry.handles := by
  obtain ⟨next, hnext, heq⟩ := exists_of_map_eq hterms hregistry
  exact ⟨next, hnext, congrArg (·.root) heq, congrArg (·.eager) heq, congrArg (·.closed) heq,
    congrArg (·.handles) heq⟩

-- ---------------------------------------------------------------------------
-- What reads no handle
-- ---------------------------------------------------------------------------

theorem Attentive.still (h : before.Attentive elsewhere) (hhandles : after.handles = before.handles)
    (hterms : ∀ home, (after.registryAt? home).map Registry.terms =
      (before.registryAt? home).map Registry.terms)
    (hfollows : before.forest.Follows after.forest)
    (hrises : ∀ node, before.forest.version node ≤ after.forest.version node)
    (hheeds : ∀ id handle registry, before.Watches id handle registry →
      before.Heeds elsewhere id handle registry.root →
        after.Heeds elsewhere' id handle registry.root) : after.Attentive elsewhere' := by
  have hhandle (id : HandleId) : after.handleAt? id = before.handleAt? id := by
    rw [handleAt?, handleAt?, hhandles]
  refine ⟨?_, ?_, ?_, ?_⟩
  · intro home registry hregistry heager hlive
    obtain ⟨old, hold, hroot, hsame, hclosed, -⟩ := exists_of_terms (hterms home).symm hregistry
    rw [← hroot]
    exact hfollows _ _ (h.follows home old hold (hsame.trans heager) (hclosed.trans hlive))
  · intro id handle hfound
    obtain ⟨old, hold, hmem⟩ := h.listed id handle (hhandle id ▸ hfound)
    obtain ⟨next, hnext, -, -, -, hsame⟩ := exists_of_terms (hterms handle.registry) hold
    exact ⟨next, hnext, hsame ▸ hmem⟩
  · intro id handle registry cached hfound hregistry hcached
    obtain ⟨old, hold, hroot, -⟩ := exists_of_terms (hterms handle.registry).symm hregistry
    have hbound := h.bounded id handle old cached (hhandle id ▸ hfound) hold hcached
    rw [← hroot]
    exact Nat.le_trans hbound (hrises old.root)
  · intro id handle registry hwatches
    obtain ⟨old, hold, hroot, heager, hclosed, -⟩ :=
      exists_of_terms (hterms handle.registry).symm hwatches.registryAt
    have hwatched : before.Watches id handle old :=
      ⟨hhandle id ▸ hwatches.handleAt, hold, heager.trans hwatches.eager,
        hclosed.trans hwatches.live, hwatches.listeners⟩
    rw [← hroot]
    exact hheeds id handle old hwatched (h.heeded id handle old hwatched)

theorem Attentive.calm (h : before.Attentive elsewhere) (hcalm : before.Calm after) :
    after.Attentive elsewhere := by
  refine h.still hcalm.handles hcalm.terms hcalm.follows hcalm.rises ?_
  rintro id handle registry hwatches (hcurrent | hrecalls | helsewhere)
  · rcases hcalm.version registry.root with hsame | htold
    · exact .inl (hsame ▸ hcurrent)
    · have hfollows := h.follows _ registry hwatches.registryAt hwatches.eager hwatches.live
      exact .inr (.inl (htold _ hfollows id))
  · exact .inr (.inl (hcalm.recalls _ _ hrecalls))
  · exact .inr (.inr helsewhere)

/-- The work to be done may change, as long as somebody sees to the handles. -/
theorem Attentive.restack (h : engine.Attentive elsewhere) {stack : List (Frame V)}
    {anchors : List Anchor} {metrics : Metrics}
    (hrecalls : ∀ id handle registry, engine.Watches id handle registry →
      (∃ frame ∈ engine.stack, frame.Recalls handle.registry id) ∨ elsewhere handle.registry id →
        (∃ frame ∈ stack, frame.Recalls handle.registry id) ∨ elsewhere' handle.registry id) :
    { engine with stack, anchors, metrics }.Attentive elsewhere' := by
  refine h.still rfl (fun _ => rfl) (fun _ _ hmem => hmem) (fun _ => Nat.le_refl _) ?_
  intro id handle registry hwatches hheeds
  have hregistry := hwatches.registryAt
  have hafter : Engine.registryAt? { engine with stack, anchors, metrics } handle.registry =
    some registry := hregistry
  have hkept := hrecalls id handle registry hwatches
  rw [Heeds, recalls_iff hregistry] at hheeds
  rw [Heeds, recalls_iff hafter]
  rcases hheeds with hcurrent | (hqueue | hframe) | helsewhere
  · exact .inl hcurrent
  · exact .inr (.inl (.inl hqueue))
  · exact .inr ((hkept (.inl hframe)).imp_left .inr)
  · exact .inr ((hkept (.inr helsewhere)).imp_left .inr)

/-- The work on top gives way to other work. -/
theorem Attentive.replace (h : engine.Attentive elsewhere) {frame : Frame V}
    {rest stack : List (Frame V)} {metrics : Metrics} (hstack : engine.stack = frame :: rest)
    (hrest : rest ⊆ stack)
    (helsewhere : ∀ home other, elsewhere home other → elsewhere' home other)
    (hframe : ∀ id handle registry, engine.Watches id handle registry →
      frame.Recalls handle.registry id →
        (∃ frame ∈ stack, frame.Recalls handle.registry id) ∨ elsewhere' handle.registry id) :
    { engine with stack, metrics }.Attentive elsewhere' := by
  show { engine with stack, anchors := engine.anchors, metrics }.Attentive elsewhere'
  refine h.restack ?_
  rintro id handle registry hwatches (⟨other, hmem, hrecalls⟩ | hother)
  · rw [hstack] at hmem
    rcases List.mem_cons.mp hmem with rfl | hbelow
    · exact hframe id handle registry hwatches hrecalls
    · exact .inl ⟨other, hrest hbelow, hrecalls⟩
  · exact .inr (helsewhere _ _ hother)

/-- Work that has no handle read gives way. -/
theorem Attentive.pop (h : engine.Attentive elsewhere) {frame : Frame V}
    {rest stack : List (Frame V)} {metrics : Metrics} (hstack : engine.stack = frame :: rest)
    (hrest : rest ⊆ stack) (hframe : ∀ home id, ¬ frame.Recalls home id) :
    { engine with stack, metrics }.Attentive elsewhere :=
  h.replace hstack hrest (fun _ _ hother => hother)
    fun _ _ _ _ hrecalls => absurd hrecalls (hframe _ _)

theorem Attentive.modifyHandle (h : engine.Attentive elsewhere) {f : Handle V → Handle V}
    (hhome : ∀ handle, engine.handleAt? id = some handle → (f handle).registry = handle.registry)
    (hbounded : ∀ handle registry cached, engine.handleAt? id = some handle →
      engine.registryAt? handle.registry = some registry → (f handle).cached = some cached →
        cached.version ≤ engine.forest.version registry.root)
    (hheeded : ∀ handle registry, engine.handleAt? id = some handle →
      engine.registryAt? handle.registry = some registry → (f handle).listeners ≠ [] →
      (handle.listeners ≠ [] → engine.Heeds elsewhere id handle registry.root) →
        engine.Heeds elsewhere' id (f handle) registry.root)
    (helsewhere : ∀ home other, other ≠ id → elsewhere home other → elsewhere' home other) :
    (engine.modifyHandle id f).Attentive elsewhere' := by
  have hback {other : HandleId} {handle : Handle V}
      (hfound : (engine.modifyHandle id f).handleAt? other = some handle) :
      ∃ old, engine.handleAt? other = some old ∧
        (other = id ∧ handle = f old ∨ other ≠ id ∧ handle = old) := by
    rw [handleAt?_modifyHandle] at hfound
    obtain ⟨old, hold, rfl⟩ := Option.map_eq_some_iff.mp hfound
    refine ⟨old, hold, ?_⟩
    split
    · rename_i hsame
      exact .inl ⟨hsame.symm, rfl⟩
    · rename_i hother
      exact .inr ⟨Ne.symm hother, rfl⟩
  refine ⟨h.follows, ?_, ?_, ?_⟩
  · intro other handle hfound
    obtain ⟨old, hold, ⟨rfl, rfl⟩ | ⟨-, rfl⟩⟩ := hback hfound
    · rw [hhome old hold]
      exact h.listed other old hold
    · exact h.listed other handle hold
  · intro other handle registry cached hfound hregistry hcached
    obtain ⟨old, hold, ⟨rfl, rfl⟩ | ⟨-, rfl⟩⟩ := hback hfound
    · rw [hhome old hold] at hregistry
      exact hbounded old registry cached hold hregistry hcached
    · exact h.bounded other handle registry cached hold hregistry hcached
  · intro other handle registry hwatches
    have hregistry := hwatches.registryAt
    obtain ⟨old, hold, ⟨rfl, rfl⟩ | ⟨hother, rfl⟩⟩ := hback hwatches.handleAt
    · rw [hhome old hold] at hregistry
      refine hheeded old registry hold hregistry hwatches.listeners fun hlisteners => ?_
      exact h.heeded other old registry
        ⟨hold, hregistry, hwatches.eager, hwatches.live, hlisteners⟩
    · have hheeds := h.heeded other handle registry
        ⟨hold, hregistry, hwatches.eager, hwatches.live, hwatches.listeners⟩
      exact hheeds.imp_right (·.imp_right (helsewhere _ _ hother))

/-- Who listens to a handle may change if it is then read. -/
theorem Attentive.relisten (h : engine.Attentive elsewhere) {f : Handle V → Handle V}
    (hf : ∀ handle, (f handle).registry = handle.registry ∧ (f handle).cached = handle.cached)
    (hnew : ∀ handle, handle.listeners = [] → (f handle).listeners ≠ [] →
      ∀ home, elsewhere' home id)
    (helsewhere : ∀ home other, elsewhere home other → elsewhere' home other) :
    (engine.modifyHandle id f).Attentive elsewhere' := by
  refine h.modifyHandle ?_ ?_ ?_ fun home other _ => helsewhere home other
  · exact fun handle _ => (hf handle).1
  · intro handle registry cached hhandle hregistry hcached
    exact h.bounded id handle registry cached hhandle hregistry ((hf handle).2 ▸ hcached)
  · intro handle registry hhandle hregistry hlisteners hheeds
    obtain ⟨hhome, hcached⟩ := hf handle
    rw [Heeds, hhome, Handle.isCurrent, hcached]
    by_cases hnone : handle.listeners = []
    · exact .inr (.inr (hnew handle hnone hlisteners _))
    · exact (hheeds hnone).imp_right (·.imp_right (helsewhere _ _))

theorem Recalls.enqueue (h : engine.Recalls home id) (other : RegistryId) (task : Task V) :
    (engine.enqueue other task).Recalls home id := by
  intro registry hregistry
  obtain ⟨old, hold, -⟩ := exists_of_terms terms_enqueue.symm hregistry
  refine (recalls_iff hregistry).mpr ?_ registry hregistry
  rw [queue_enqueue]
  exact ((recalls_iff hold).mp h).imp_left (List.mem_append_left _)

/-- A delivery keeps nobody from reading a handle. -/
theorem Attentive.dispatch (h : engine.Attentive elsewhere) (home : RegistryId) (eager : Bool)
    (notice : Notice V) : (engine.dispatch home eager notice).Attentive elsewhere := by
  cases eager with
  | true =>
    refine h.still rfl (fun _ => terms_enqueue) (fun _ _ hmem => hmem) (fun _ => Nat.le_refl _) ?_
    exact fun _ _ _ _ hheeds => hheeds.imp_right (·.imp_left (·.enqueue home _))
  | false =>
    refine h.restack fun id handle registry _ hrecalls => hrecalls.imp_left ?_
    exact fun ⟨frame, hmem, hframe⟩ => ⟨frame, List.mem_cons_of_mem _ hmem, hframe⟩

theorem Attentive.modifyRegistry (h : engine.Attentive elsewhere) {f : Registry V → Registry V}
    (hroot : ∀ registry, (f registry).root = registry.root)
    (heager : ∀ registry, (f registry).eager = registry.eager)
    (hqueue : ∀ registry, (f registry).queue = registry.queue)
    (hclosed : ∀ registry, (f registry).closed = false → registry.closed = false)
    (hhandles : ∀ registry, registry.handles ⊆ (f registry).handles) :
    (engine.modifyRegistry home f).Attentive elsewhere := by
  have hback {other : RegistryId} {registry : Registry V}
      (hfound : (engine.modifyRegistry home f).registryAt? other = some registry) :
      ∃ old, engine.registryAt? other = some old ∧ registry.root = old.root ∧
        registry.eager = old.eager ∧ registry.queue = old.queue ∧
        (registry.closed = false → old.closed = false) := by
    rw [registryAt?_modifyRegistry] at hfound
    obtain ⟨old, hold, rfl⟩ := Option.map_eq_some_iff.mp hfound
    refine ⟨old, hold, ?_⟩
    split
    · exact ⟨hroot old, heager old, hqueue old, hclosed old⟩
    · exact ⟨rfl, rfl, rfl, id⟩
  refine ⟨?_, ?_, ?_, ?_⟩
  · intro other registry hfound hsome hlive
    obtain ⟨old, hold, hsame, hkind, -, hopen⟩ := hback hfound
    rw [hsame]
    exact h.follows other old hold (hkind ▸ hsome) (hopen hlive)
  · intro id handle hhandle
    obtain ⟨old, hold, hmem⟩ := h.listed id handle hhandle
    rw [registryAt?_modifyRegistry, hold]
    refine ⟨_, rfl, ?_⟩
    split
    · exact hhandles old hmem
    · exact hmem
  · intro id handle registry cached hhandle hfound hcached
    obtain ⟨old, hold, hsame, -⟩ := hback hfound
    rw [hsame]
    exact h.bounded id handle old cached hhandle hold hcached
  · intro id handle registry hwatches
    obtain ⟨old, hold, hsame, hkind, htasks, hopen⟩ := hback hwatches.registryAt
    have hheeds := h.heeded id handle old
      ⟨hwatches.handleAt, hold, hkind ▸ hwatches.eager, hopen hwatches.live, hwatches.listeners⟩
    rw [Heeds, recalls_iff hold, queue, hold] at hheeds
    rw [Heeds, recalls_iff hwatches.registryAt, queue, hwatches.registryAt, hsame, Option.map_some,
      htasks]
    exact hheeds

/-- A handle that nobody listens to yet needs no attention. -/
theorem Attentive.makeHandle (h : engine.Attentive elsewhere) (hfresh : handle.Fresh)
    (hlisted : ∃ registry, engine.registryAt? handle.registry = some registry ∧
      engine.handles.length ∈ registry.handles) :
    { engine with handles := engine.handles ++ [handle] }.Attentive elsewhere := by
  have hfound {id : HandleId} {found : Handle V} (hhandle :
      Engine.handleAt? { engine with handles := engine.handles ++ [handle] } id = some found) :
      engine.handleAt? id = some found ∨ id = engine.handles.length ∧ found = handle := by
    rcases getElem?_concat_cases engine.handles handle id with hold | ⟨hnone, -⟩
    · exact .inl (hold.symm.trans hhandle)
    · exact .inr (eq_length_of_concat hnone hhandle)
  refine ⟨h.follows, ?_, ?_, ?_⟩
  · intro id found hhandle
    rcases hfound hhandle with hold | ⟨rfl, rfl⟩
    · exact h.listed id found hold
    · exact hlisted
  · intro id found registry cached hhandle hregistry hcached
    rcases hfound hhandle with hold | ⟨-, rfl⟩
    · exact h.bounded id found registry cached hold hregistry hcached
    · exact absurd (hfresh.cached.symm.trans hcached) (by simp)
  · intro id found registry hwatches
    rcases hfound hwatches.handleAt with hold | ⟨-, rfl⟩
    · exact h.heeded id found registry
        ⟨hold, hwatches.registryAt, hwatches.eager, hwatches.live, hwatches.listeners⟩
    · exact absurd hfresh.listeners hwatches.listeners

theorem Attentive.enroll (h : engine.Attentive elsewhere) (hfresh : handle.Fresh)
    (hhome : (engine.registryAt? handle.registry).isSome) :
    (engine.enroll handle).Attentive elsewhere := by
  obtain ⟨registry, hregistry⟩ := Option.isSome_iff_exists.mp hhome
  -- the registry may list the handle before it is made
  have hlist : (engine.modifyRegistry handle.registry fun registry =>
      { registry with handles := registry.handles ++ [engine.handles.length] }).Attentive
        elsewhere :=
    h.modifyRegistry (fun _ => rfl) (fun _ => rfl) (fun _ => rfl) (fun _ hlive => hlive)
      fun _ => List.subset_append_left _ _
  refine hlist.makeHandle hfresh ?_
  rw [registryAt?_modifyRegistry, hregistry]
  refine ⟨_, rfl, ?_⟩
  simp [Engine.modifyRegistry]

theorem Attentive.addRegistry (h : engine.Attentive elsewhere)
    (hfollows : registry.eager = true →
      .registry engine.registries.length ∈ engine.forest.subscribers registry.root) :
    { engine with registries := engine.registries ++ [registry] }.Attentive elsewhere := by
  -- the registry of a handle that exists is not the new one
  have hhome {id : HandleId} {handle : Handle V} (hhandle : engine.handleAt? id = some handle) :
      (engine.registries ++ [registry])[handle.registry]? = engine.registryAt? handle.registry := by
    obtain ⟨old, hold, -⟩ := h.listed id handle hhandle
    exact List.getElem?_append_left (List.getElem?_eq_some_iff.mp hold).1
  refine ⟨?_, ?_, ?_, ?_⟩
  · intro home found hfound heager hlive
    rcases getElem?_concat_cases engine.registries registry home with hold | ⟨hnone, -⟩
    · exact h.follows home found (hold.symm.trans hfound) heager hlive
    · obtain ⟨rfl, rfl⟩ := eq_length_of_concat hnone hfound
      exact hfollows heager
  · intro id handle hhandle
    obtain ⟨old, hold, hmem⟩ := h.listed id handle hhandle
    exact ⟨old, (hhome hhandle).trans hold, hmem⟩
  · intro id handle found cached hhandle hfound hcached
    exact h.bounded id handle found cached hhandle ((hhome hhandle).symm.trans hfound) hcached
  · intro id handle found hwatches
    have hold : engine.registryAt? handle.registry = some found :=
      (hhome hwatches.handleAt).symm.trans hwatches.registryAt
    have hheeds := h.heeded id handle found
      ⟨hwatches.handleAt, hold, hwatches.eager, hwatches.live, hwatches.listeners⟩
    rw [Heeds, recalls_iff hold, queue, hold] at hheeds
    rw [Heeds, recalls_iff hwatches.registryAt, queue, hwatches.registryAt]
    exact hheeds

theorem Attentive.openRegistry (h : engine.Attentive elsewhere)
    (hlive : engine.forest.gone registry.root = false) :
    (engine.openRegistry registry).2.Attentive elsewhere := by
  have hfollows : engine.forest.Follows (engine.forestWith registry) := by
    intro node home hmem
    unfold forestWith
    split
    · exact Forest.mem_subscribers_subscribe.mpr (.inl hmem)
    · exact hmem
  have hversion (node : NodeId) :
      (engine.forestWith registry).version node = engine.forest.version node := by
    unfold forestWith
    split
    · exact Forest.version_subscribe
    · rfl
  have hfollowed : Attentive { engine with forest := engine.forestWith registry } elsewhere := by
    refine h.still rfl (fun _ => rfl) hfollows (fun node => Nat.le_of_eq (hversion node).symm) ?_
    intro id handle registry _ hheeds
    rw [Heeds, hversion]
    exact hheeds
  rw [openRegistry_eq]
  refine hfollowed.addRegistry fun heager => ?_
  show _ ∈ (engine.forestWith registry).subscribers registry.root
  rw [forestWith, if_pos heager]
  exact Forest.mem_subscribers_subscribe.mpr (.inr ⟨rfl, Forest.has_of_gone_eq_false hlive, rfl⟩)

/-- A closed registry need not follow its root. -/
theorem Attentive.unfollow (h : engine.Attentive elsewhere) {node : NodeId}
    (hclosed : ∀ registry, engine.registryAt? home = some registry → registry.closed = true) :
    { engine with forest := engine.forest.unsubscribe node (.registry home) }.Attentive
      elsewhere := by
  refine ⟨?_, h.listed, ?_, ?_⟩
  · intro other registry hregistry heager hlive
    refine Forest.mem_subscribers_unsubscribe.mpr
      ⟨h.follows other registry hregistry heager hlive, ?_⟩
    rintro ⟨-, heq⟩
    obtain rfl := Subscriber.registry.inj heq
    exact absurd (hclosed registry hregistry) (by simp [hlive])
  · intro id handle registry cached hhandle hregistry hcached
    show cached.version ≤ (engine.forest.unsubscribe _ _).version registry.root
    rw [Forest.version_unsubscribe]
    exact h.bounded id handle registry cached hhandle hregistry hcached
  · intro id handle registry hwatches
    show handle.isCurrent ((engine.forest.unsubscribe _ _).version registry.root) = true ∨ _
    rw [Forest.version_unsubscribe]
    exact h.heeded id handle registry
      ⟨hwatches.handleAt, hwatches.registryAt, hwatches.eager, hwatches.live, hwatches.listeners⟩

theorem Attentive.closeRegistry (h : engine.Attentive elsewhere) (home : RegistryId) :
    (engine.closeRegistry home).Attentive elsewhere := by
  unfold Engine.closeRegistry
  split
  · exact h
  · have hclose : (engine.modifyRegistry home fun registry =>
        { registry with closed := true }).Attentive elsewhere :=
      h.modifyRegistry (fun _ => rfl) (fun _ => rfl) (fun _ => rfl)
        (fun _ hlive => absurd hlive (by simp)) fun _ => List.Subset.refl _
    refine hclose.unfollow fun registry hregistry => ?_
    rw [registryAt?_modifyRegistry] at hregistry
    obtain ⟨old, -, rfl⟩ := Option.map_eq_some_iff.mp hregistry
    rw [if_pos rfl]

theorem Attentive.setQueue (h : engine.Attentive elsewhere) (hidle : engine.stack = [])
    {tasks : List (Task V)} {stack : List (Frame V)} (hhome : (engine.registryAt? home).isSome)
    (hkept : .refreshAll ∈ engine.queue home → .refreshAll ∈ tasks ∨
      ∃ frame ∈ stack, ∀ id, frame.Recalls home id) :
    { engine.setQueue home tasks with stack }.Attentive elsewhere := by
  have hterms (other : RegistryId) :
      ((engine.setQueue home tasks).registryAt? other).map Registry.terms =
        (engine.registryAt? other).map Registry.terms :=
    map_getElem?_modify fun _ _ => rfl
  refine h.still rfl hterms (fun _ _ hmem => hmem) (fun _ => Nat.le_refl _) ?_
  intro id handle registry hwatches hheeds
  obtain ⟨next, hnext, -⟩ := exists_of_terms (hterms handle.registry) hwatches.registryAt
  have hqueue : Engine.queue { engine.setQueue home tasks with stack } handle.registry =
      if home = handle.registry then tasks else engine.queue handle.registry :=
    queue_setQueue hhome
  have hafter : Engine.registryAt? { engine.setQueue home tasks with stack } handle.registry =
    some next := hnext
  rw [Heeds, recalls_iff hwatches.registryAt, hidle] at hheeds
  rw [Heeds, recalls_iff hafter, hqueue]
  rcases hheeds with hcurrent | (hmem | ⟨frame, hmem, -⟩) | hother
  · exact .inl hcurrent
  · refine .inr (.inl ?_)
    by_cases hsame : home = handle.registry
    · subst hsame
      rw [if_pos rfl]
      exact (hkept hmem).imp_right fun ⟨frame, hframe, hrecalls⟩ => ⟨frame, hframe, hrecalls id⟩
    · rw [if_neg hsame]
      exact .inl hmem
  · exact absurd hmem (by simp)
  · exact .inr (.inr hother)

variable [BEq V]

/-- What came of reading a handle is that it has seen its root's version. -/
theorem Attentive.store {reading : Reading V}
    (h : engine.Attentive fun home other => other = id ∨ elsewhere home other)
    (hreading : engine.reading? id = some reading) :
    (engine.store id reading).Attentive elsewhere := by
  obtain ⟨handle, registry, hhandle, hregistry, rfl⟩ := reading?_eq_some.mp hreading
  have hcounted (metrics : Metrics) : Attentive { engine with metrics } fun home other =>
      other = id ∨ elsewhere home other :=
    h.restack fun _ _ _ _ hrecalls => hrecalls
  refine (hcounted _).modifyHandle ?_ ?_ ?_ fun home other hother hexcused =>
    hexcused.resolve_left hother
  · intro found hfound
    obtain rfl := Option.some.inj (hhandle.symm.trans hfound)
    exact congrArg (·.registry) (handle.bare_read _ _ _)
  · intro found home cached hfound hhome hcached
    obtain rfl := Option.some.inj (hhandle.symm.trans hfound)
    obtain rfl := Option.some.inj (hregistry.symm.trans hhome)
    cases hcurrent : handle.isCurrent (engine.forest.version registry.root) with
    | true =>
      rw [Handle.read_of_isCurrent hcurrent] at hcached
      exact h.bounded id handle registry cached hhandle hregistry hcached
    | false =>
      rw [Handle.cached_read hcurrent] at hcached
      obtain rfl := Option.some.inj hcached
      exact Nat.le_refl _
  · intro found home hfound hhome _ _
    obtain rfl := Option.some.inj (hhandle.symm.trans hfound)
    obtain rfl := Option.some.inj (hregistry.symm.trans hhome)
    exact .inl (handle.isCurrent_read _ _ _)

/-- A handle need not be seen to if it is read next. -/
theorem Attentive.refreshHandle
    (h : engine.Attentive fun home other => other = id ∨ elsewhere home other) :
    (engine.refreshHandle id).Attentive elsewhere := by
  cases hreading : engine.reading? id with
  | none =>
    rw [refreshHandle_of_none hreading]
    refine ⟨h.follows, h.listed, h.bounded, fun other handle registry hwatches => ?_⟩
    have hother : other ≠ id := by
      rintro rfl
      have hsome := reading?_eq_some.mpr
        ⟨handle, registry, hwatches.handleAt, hwatches.registryAt, rfl⟩
      exact absurd (hreading.symm.trans hsome) (by simp)
    exact (h.heeded other handle registry hwatches).imp_right (·.imp_right (·.resolve_left hother))
  | some reading =>
    have hstore := h.store hreading
    rcases refreshHandle_of_some hreading with heq | ⟨home, eager, notice, heq⟩
    · rw [heq]
      exact hstore
    · rw [heq]
      exact hstore.dispatch home eager notice

theorem Attentive.turn {move : Move V} (h : before.Attentive elsewhere)
    (hturn : before.Turn move after) : after.Attentive elsewhere := by
  have hread {engine : Engine V} (h : engine.Attentive elsewhere) (id : HandleId) :
      (engine.refreshHandle id).Attentive elsewhere := by
    refine Attentive.refreshHandle ⟨h.follows, h.listed, h.bounded, ?_⟩
    exact fun id handle registry hwatches =>
      (h.heeded id handle registry hwatches).imp_right (·.imp_right .inr)
  cases hturn with
  | calm hcalm _ _ _ => exact h.calm hcalm
  | read hcalm => exact hread (h.calm hcalm) _
  | request hfresh hhome => exact hread (h.enroll hfresh hhome) _
  | openRegistry hlive => exact h.openRegistry hlive
  | closeRegistry => exact h.closeRegistry _
  | unlisten =>
    refine h.relisten (fun _ => ⟨rfl, rfl⟩) (fun handle hnone hsome => ?_) fun _ _ h => h
    simp [hnone] at hsome
  | @listen _ _ rest hstack =>
    have hpopped : Attentive { before with stack := rest } elsewhere :=
      h.pop hstack (List.Subset.refl _) fun _ _ hrecalls => hrecalls
    refine Attentive.refreshHandle (hpopped.relisten ?_ ?_ ?_)
    · intro handle
      unfold Handle.listen
      split <;> exact ⟨rfl, rfl⟩
    · exact fun _ _ _ _ => .inl rfl
    · exact fun _ _ => .inr
  | refresh hstack =>
    refine Attentive.refreshHandle (h.replace hstack (List.subset_cons_self _ _) ?_ ?_)
    · exact fun _ _ => .inr
    · intro id handle registry _ hrecalls
      rcases List.mem_cons.mp hrecalls with rfl | hids
      · exact .inr (.inl rfl)
      · exact .inl ⟨_, List.mem_cons_self, hids⟩
  | skip hstack hnone =>
    refine h.replace hstack (List.subset_cons_self _ _) (fun _ _ hother => hother) ?_
    intro id handle registry hwatches hrecalls
    rcases List.mem_cons.mp hrecalls with rfl | hids
    · exact absurd (hnone handle hwatches.handleAt) hwatches.listeners
    · exact .inl ⟨_, List.mem_cons_self, hids⟩
  | call hstack =>
    refine h.pop hstack ?_ fun _ _ hrecalls => hrecalls
    exact List.subset_cons_of_subset _ (List.subset_cons_self _ _)
  | next hstack =>
    refine h.replace hstack ?_ (fun _ _ hother => hother) ?_
    · exact List.subset_cons_of_subset _ (List.subset_cons_self _ _)
    · exact fun _ _ _ _ hrecalls => .inl ⟨_, List.mem_cons_of_mem _ List.mem_cons_self, hrecalls⟩
  | sweep hstack =>
    refine h.replace hstack (List.subset_append_right _ _) (fun _ _ hother => hother) ?_
    intro id handle registry hwatches hrecalls
    -- the handle is on the list that the sweep begins with
    obtain ⟨found, hfound, hlisted⟩ := h.listed id handle hwatches.handleAt
    obtain rfl := Option.some.inj (hwatches.registryAt.symm.trans hfound)
    have hswept : before.sweep handle.registry = [.refresh registry.handles] := by
      rw [Engine.sweep, hfound]
      simp [hwatches.live]
    obtain rfl := hrecalls
    rw [hswept]
    exact .inl ⟨_, List.mem_cons_self, hlisted⟩
  | deliver hidle hqueue =>
    refine h.setQueue hidle (isSome_of_queue hqueue) fun hmem => .inl ?_
    rw [hqueue] at hmem
    exact (List.mem_cons.mp hmem).resolve_left (by simp)
  | pass hidle hqueue =>
    refine h.setQueue hidle (isSome_of_queue hqueue) fun _ => .inr ?_
    exact ⟨_, List.mem_cons_self, fun _ => rfl⟩

end Engine

end Overlay

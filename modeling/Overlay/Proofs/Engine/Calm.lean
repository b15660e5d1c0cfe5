import Overlay.Proofs.Engine.Work
import Overlay.Proofs.Forest.Links

/-!
# Calm work

Most of what an engine does makes no delivery and reads no handle (`Calm`). Such
work touches no call that is `running`, leaves a notifier's pass and all that lies
below it where they are (`base`), and forgets no request to read a handle
(`Recalls`): when a node changes, every registry that follows it is told.
-/

namespace Overlay

open Template (MissingPolicy)

variable {V : Type}

/-- The calls that a delivery consists of. -/
def Notice.callbacks (notice : Notice V) : List (Callback V) :=
  notice.listeners.map fun listener => .property listener notice.handle notice.event

namespace Frame

/-- The calls of a delivery that has been begun. -/
def callbacks : Frame V → List (Callback V)
  | .deliver notice => notice.callbacks
  | _ => []

def isPass : Frame V → Bool
  | .pass _ _ => true
  | _ => false

/-- The notices that a notifier's pass has yet to begin. -/
def waiting : Frame V → List (Notice V)
  | .pass _ notices => notices
  | _ => []

/-- This work will have the registry's handle read, if it has listeners. -/
def Recalls (registry : RegistryId) (handle : HandleId) : Frame V → Prop
  | .tell _ subscribers => .registry registry ∈ subscribers
  | .pass id _ => id = registry
  | .refresh handles => handle ∈ handles
  | _ => False

end Frame

/-- Whichever registry follows a node follows it still. -/
def Forest.Follows (before after : Forest) : Prop :=
  ∀ node id, .registry id ∈ before.subscribers node → .registry id ∈ after.subscribers node

namespace Forest

variable {forest after : Forest} {id parent node : NodeId}

theorem Follows.bump (h : forest.Follows after) (id : NodeId) : forest.Follows (after.bump id) := by
  intro node registry hmem
  rw [subscribers_bump]
  exact h node registry hmem

theorem follows_attach {place : Place} {name : String} :
    forest.Follows (forest.attach parent place name node) :=
  fun _ _ hmem => mem_subscribers_attach.mpr (.inl hmem)

theorem follows_detach {name : String} {child : Child}
    (h : forest.detach parent name = some (child, after)) : forest.Follows after := by
  intro node registry hmem
  obtain ⟨-, rfl⟩ := detach_eq_some_iff.mp h
  rw [mem_subscribers_unsubscribe, subscribers_setChildren]
  exact ⟨hmem, fun h => absurd h.2 (by simp)⟩

theorem follows_edit (edit : Edit) : forest.Follows (forest.edit id edit).2 := by
  intro node registry hmem
  rcases edit_eq forest id edit with heq | ⟨_, _, _, -, -, -, heq⟩
  · rwa [heq]
  · rw [heq, subscribers_modify]
    · exact hmem
    · exact fun _ => rfl

theorem follows_plant (planted : Node) : forest.Follows (forest.plant planted).2 := by
  intro node registry hmem
  rw [subscribers, node?_plant_of_has planted (has_of_mem_subscribers hmem)]
  exact hmem

theorem version_plant {planted : Node} (h : planted.version = 0) :
    (forest.plant planted).2.version id = forest.version id := by
  by_cases hhas : forest.Has id
  · rw [version, node?_plant_of_has planted hhas, version]
  · rw [version_of_not_has hhas, version, node?_plant]
    split
    · exact h
    · exact version_of_not_has hhas

theorem follows_unsubscribe {subscriber : Subscriber}
    (h : ∀ registry, .registry registry ≠ subscriber) :
    forest.Follows (forest.unsubscribe id subscriber) :=
  fun _ registry hmem =>
    mem_subscribers_unsubscribe.mpr ⟨hmem, fun heq => h registry heq.2⟩

theorem Revises.version_of_ne (h : forest.Revises after id) {other : NodeId} (hother : other ≠ id) :
    after.version other = forest.version other := by
  rw [h.version, if_neg fun h => hother h.1, Nat.add_zero]

theorem Revises.version_le (h : forest.Revises after id) (other : NodeId) :
    forest.version other ≤ after.version other := by
  rw [h.version]
  exact Nat.le_add_right _ _

end Forest

/-- A registry but for its decoders and its queue. -/
def Registry.terms (registry : Registry V) : Registry V :=
  { registry with decoders := {}, queue := [] }

namespace Engine

def queue (engine : Engine V) (id : RegistryId) : List (Task V) :=
  ((engine.registryAt? id).map (·.queue)).getD []

/-- The calls of the deliveries that have been begun, the next one first. -/
def running (engine : Engine V) : List (Callback V) := engine.stack.flatMap Frame.callbacks

/-- The stack from the topmost pass on. -/
def base (engine : Engine V) : List (Frame V) := engine.stack.dropWhile (!·.isPass)

/-- What is to be done already will have the registry's handle read. -/
def Recalls (engine : Engine V) (id : RegistryId) (handle : HandleId) : Prop :=
  ∀ registry, engine.registryAt? id = some registry →
    .refreshAll ∈ registry.queue ∨ ∃ frame ∈ engine.stack, frame.Recalls id handle

/-- No handle is touched and no delivery, and what is to be read stays to be read. -/
structure Calm (before after : Engine V) : Prop where
  handles : after.handles = before.handles
  terms : ∀ id, (after.registryAt? id).map Registry.terms =
    (before.registryAt? id).map Registry.terms
  queue : ∀ id, ∃ n, after.queue id = before.queue id ++ List.replicate n .refreshAll
  running : after.running = before.running
  base : after.base = before.base
  recalls : ∀ id handle, before.Recalls id handle → after.Recalls id handle
  follows : before.forest.Follows after.forest
  rises : ∀ node, before.forest.version node ≤ after.forest.version node
  /-- A node with another version has told whoever follows it. -/
  version : ∀ node, after.forest.version node = before.forest.version node ∨
    ∀ id, .registry id ∈ before.forest.subscribers node → ∀ handle, after.Recalls id handle

variable {engine before middle after : Engine V} {node : NodeId} {frame : Frame V}
  {rest : List (Frame V)} {forest : Forest}

theorem Calm.trans (h : before.Calm middle) (h' : middle.Calm after) : before.Calm after where
  handles := h'.handles.trans h.handles
  terms id := (h'.terms id).trans (h.terms id)
  queue id := by
    obtain ⟨n, hn⟩ := h.queue id
    obtain ⟨m, hm⟩ := h'.queue id
    refine ⟨n + m, ?_⟩
    rw [hm, hn, List.append_assoc, List.replicate_append_replicate]
  running := h'.running.trans h.running
  base := h'.base.trans h.base
  recalls id handle hrecalls := h'.recalls id handle (h.recalls id handle hrecalls)
  follows node id hmem := h'.follows node id (h.follows node id hmem)
  rises node := Nat.le_trans (h.rises node) (h'.rises node)
  version node := by
    rcases h.version node with hsame | htold
    · rcases h'.version node with hsame' | htold'
      · exact .inl (hsame'.trans hsame)
      · exact .inr fun id hmem => htold' id (h.follows node id hmem)
    · exact .inr fun id hmem handle => h'.recalls id handle (htold id hmem handle)

-- ---------------------------------------------------------------------------
-- Calm pieces
-- ---------------------------------------------------------------------------

/-- The stack may change in what is no delivery and no pass, as long as nothing is
forgotten. -/
theorem calm_stack {stack : List (Frame V)} {metrics : Metrics} {pollers : List Poll.Poller}
    (hrunning : stack.flatMap Frame.callbacks = engine.running)
    (hbase : stack.dropWhile (!·.isPass) = engine.base)
    (hrecalls : ∀ id handle, (∃ frame ∈ engine.stack, frame.Recalls id handle) →
      ∃ frame ∈ stack, frame.Recalls id handle) :
    engine.Calm { engine with stack, metrics, pollers } where
  handles := rfl
  terms _ := rfl
  queue _ := ⟨0, (List.append_nil _).symm⟩
  running := hrunning
  base := hbase
  recalls id handle h registry hregistry := (h registry hregistry).imp_right (hrecalls id handle)
  follows _ _ hmem := hmem
  rises _ := Nat.le_refl _
  version _ := .inl rfl

theorem Calm.refl (engine : Engine V) : engine.Calm engine :=
  calm_stack rfl rfl fun _ _ h => h

/-- What is counted, what the caller holds, and what no version speaks for. -/
theorem calm_aside {anchors : List Anchor} {pollers : List Poll.Poller} {metrics : Metrics}
    (hfollows : engine.forest.Follows forest)
    (hversion : ∀ node, forest.version node = engine.forest.version node) :
    engine.Calm { engine with forest, anchors, pollers, metrics } where
  handles := rfl
  terms _ := rfl
  queue _ := ⟨0, (List.append_nil _).symm⟩
  running := rfl
  base := rfl
  recalls _ _ hrecalls := hrecalls
  follows := hfollows
  rises node := Nat.le_of_eq (hversion node).symm
  version node := .inl (hversion node)

theorem calm_push (hcallbacks : frame.callbacks = []) (hpass : frame.isPass = false) :
    engine.Calm (engine.push frame) := by
  refine calm_stack ?_ ?_ fun id handle ⟨other, hmem, hrecalls⟩ =>
    ⟨other, List.mem_cons_of_mem _ hmem, hrecalls⟩
  · rw [List.flatMap_cons, hcallbacks, List.nil_append, running]
  · rw [List.dropWhile_cons_of_pos (by simp [hpass]), base]

/-- A node that changed its version tells those who follow it. -/
theorem calm_announce (hfollows : engine.forest.Follows forest)
    (hrevises : engine.forest.Revises forest node) :
    engine.Calm ({ engine with forest }.announce node) where
  handles := rfl
  terms _ := rfl
  queue _ := ⟨0, (List.append_nil _).symm⟩
  running := rfl
  base := rfl
  recalls id handle h registry hregistry := (h registry hregistry).imp_right
    fun ⟨frame, hmem, hrecalls⟩ => ⟨frame, List.mem_cons_of_mem _ hmem, hrecalls⟩
  follows := hfollows
  rises := hrevises.version_le
  version other := by
    by_cases hother : other = node
    · subst hother
      exact .inr fun id hmem _ _ _ => .inr ⟨_, List.mem_cons_self, hfollows other id hmem⟩
    · exact .inl (hrevises.version_of_ne hother)

theorem calm_pop (hstack : engine.stack = frame :: rest) (hcallbacks : frame.callbacks = [])
    (hpass : frame.isPass = false) (hrecalls : ∀ id handle, ¬ frame.Recalls id handle)
    {metrics : Metrics} {pollers : List Poll.Poller} :
    engine.Calm { engine with stack := rest, metrics, pollers } := by
  refine calm_stack ?_ ?_ fun id handle ⟨other, hmem, h⟩ => ?_
  · rw [running, hstack, List.flatMap_cons, hcallbacks, List.nil_append]
  · rw [base, hstack, List.dropWhile_cons_of_pos (by simp [hpass])]
  · rw [hstack] at hmem
    rcases List.mem_cons.mp hmem with rfl | hrest
    · exact absurd h (hrecalls id handle)
    · exact ⟨other, hrest, h⟩

theorem calm_told {subscriber : Subscriber} {subscribers : List Subscriber}
    (hstack : engine.stack = .tell node (subscriber :: subscribers) :: rest)
    (hother : ∀ id, .registry id ≠ subscriber) :
    engine.Calm { engine with stack := .tell node subscribers :: rest } := by
  refine calm_stack ?_ ?_ fun id handle ⟨frame, hmem, hrecalls⟩ => ?_
  · rw [running, hstack]
    rfl
  · rw [base, hstack]
    rfl
  · rw [hstack] at hmem
    rcases List.mem_cons.mp hmem with rfl | hrest
    · rcases List.mem_cons.mp hrecalls with heq | hmem
      · exact absurd heq (hother id)
      · exact ⟨_, List.mem_cons_self, hmem⟩
    · exact ⟨frame, List.mem_cons_of_mem _ hrest, hrecalls⟩

theorem registryAt?_modifyRegistry {id other : RegistryId} {f : Registry V → Registry V} :
    (engine.modifyRegistry id f).registryAt? other =
      (engine.registryAt? other).map fun registry => if id = other then f registry else registry := by
  rw [registryAt?, modifyRegistry, List.getElem?_modify]
  rfl

theorem registryAt?_enqueue {id other : RegistryId} {task : Task V} :
    (engine.enqueue id task).registryAt? other = (engine.registryAt? other).map fun registry =>
      if id = other then { registry with queue := registry.queue ++ [task] } else registry :=
  registryAt?_modifyRegistry

theorem queue_enqueue {id other : RegistryId} {task : Task V} :
    (engine.enqueue id task).queue other =
      engine.queue other ++ if id = other ∧ (engine.registryAt? id).isSome then [task] else [] := by
  simp only [queue, registryAt?_enqueue]
  cases hregistry : engine.registryAt? other with
  | none =>
    have hnot : ¬ (id = other ∧ (engine.registryAt? id).isSome) := by
      rintro ⟨rfl, hsome⟩
      simp [hregistry] at hsome
    simp [hnot]
  | some registry =>
    by_cases hid : id = other
    · subst hid
      simp [hregistry]
    · simp [hid]

theorem terms_enqueue {id other : RegistryId} {task : Task V} :
    ((engine.enqueue id task).registryAt? other).map Registry.terms =
      (engine.registryAt? other).map Registry.terms := by
  rw [registryAt?_enqueue, Option.map_map]
  refine Option.map_congr fun registry _ => ?_
  simp only [Function.comp_apply]
  split <;> rfl

/-- A registry is asked to refresh its handles, perhaps in place of work that would
have had this done. -/
theorem calm_request {id : RegistryId} {stack : List (Frame V)}
    (hrunning : stack.flatMap Frame.callbacks = engine.running)
    (hbase : stack.dropWhile (!·.isPass) = engine.base)
    (hrecalls : ∀ other handle, (∃ frame ∈ engine.stack, frame.Recalls other handle) →
      other = id ∨ ∃ frame ∈ stack, frame.Recalls other handle) :
    engine.Calm ({ engine with stack }.enqueue id .refreshAll) where
  handles := rfl
  terms _ := terms_enqueue
  queue other := by
    have hqueue : Engine.queue ({ engine with stack }.enqueue id .refreshAll) other = _ :=
      queue_enqueue
    split at hqueue
    · exact ⟨1, hqueue⟩
    · exact ⟨0, hqueue⟩
  running := hrunning
  base := hbase
  recalls other handle h registry hregistry := by
    rw [registryAt?_enqueue] at hregistry
    obtain ⟨old, hold, rfl⟩ := Option.map_eq_some_iff.mp hregistry
    split
    · exact .inl (List.mem_append_right _ List.mem_cons_self)
    · rename_i hid
      refine (h old hold).imp_right fun hframe => ?_
      exact (hrecalls other handle hframe).resolve_left (Ne.symm hid)
  follows _ _ hmem := hmem
  rises _ := Nat.le_refl _
  version _ := .inl rfl

theorem calm_enqueue (id : RegistryId) : engine.Calm (engine.enqueue id .refreshAll) := by
  show engine.Calm ({ engine with stack := engine.stack }.enqueue id .refreshAll)
  exact calm_request rfl rfl fun _ _ hframe => .inr hframe

theorem calm_alert {id : RegistryId} {subscribers : List Subscriber}
    (hstack : engine.stack = .tell node (.registry id :: subscribers) :: rest) :
    engine.Calm ({ engine with stack := .tell node subscribers :: rest }.enqueue id
      .refreshAll) := by
  refine calm_request ?_ ?_ fun other handle ⟨frame, hmem, hrecalls⟩ => ?_
  · rw [running, hstack]
    rfl
  · rw [base, hstack]
    rfl
  · rw [hstack] at hmem
    rcases List.mem_cons.mp hmem with rfl | hrest
    · rcases List.mem_cons.mp hrecalls with heq | hmem
      · exact .inl (Subscriber.registry.inj heq)
      · exact .inr ⟨_, List.mem_cons_self, hmem⟩
    · exact .inr ⟨frame, List.mem_cons_of_mem _ hrest, hrecalls⟩

theorem calm_registerDecoder (id : RegistryId) (typeName : String) (decoder : Decoder V) :
    engine.Calm (engine.registerDecoder id typeName decoder) where
  handles := rfl
  terms other := by
    rw [registerDecoder, registryAt?_modifyRegistry, Option.map_map]
    refine Option.map_congr fun registry _ => ?_
    simp only [Function.comp_apply]
    split <;> rfl
  queue other := by
    refine ⟨0, ?_⟩
    rw [registerDecoder, queue, registryAt?_modifyRegistry, Option.map_map, List.replicate_zero,
      List.append_nil]
    refine congrArg (Option.getD · []) (Option.map_congr fun registry _ => ?_)
    simp only [Function.comp_apply]
    split <;> rfl
  running := rfl
  base := rfl
  recalls other handle h registry hregistry := by
    rw [registerDecoder, registryAt?_modifyRegistry] at hregistry
    obtain ⟨old, hold, rfl⟩ := Option.map_eq_some_iff.mp hregistry
    split
    · exact h old hold
    · exact h old hold
  follows _ _ hmem := hmem
  rises _ := Nat.le_refl _
  version _ := .inl rfl

theorem calm_edit (id : NodeId) (edit : Edit) : engine.Calm (engine.edit id edit).2 := by
  unfold Engine.edit
  cases hchanged : (engine.forest.edit id edit).1 with
  | false =>
    simp only [hchanged, Forest.edit_unchanged hchanged]
    exact .refl engine
  | true =>
    simp only [hchanged]
    exact calm_announce (Forest.follows_edit edit) (Forest.revises_edit hchanged)

theorem calm_attach (parent : NodeId) (place : Place) (name : String) (node : NodeId) :
    engine.Calm (engine.attach parent place name node) :=
  calm_announce (Forest.follows_attach.bump parent) Forest.revises_attach

theorem calm_detach (parent : NodeId) (name : String) :
    engine.Calm (engine.detach parent name).2 := by
  unfold Engine.detach
  split
  · exact .refl engine
  · rename_i child forest hdetach
    have hpush : engine.Calm (engine.push (.keep child.node)) := calm_push rfl rfl
    have hannounce : Calm (engine.push (.keep child.node))
        ({ engine.push (.keep child.node) with forest := forest.bump parent }.announce parent) :=
      calm_announce ((Forest.follows_detach hdetach).bump parent) (Forest.revises_detach hdetach)
    exact hpush.trans hannounce

theorem calm_attachUnique (parent : NodeId) (name : String) (node : NodeId) :
    engine.Calm ((engine.attachUnique parent name node).toOption.getD engine) := by
  unfold attachUnique
  split
  · exact .refl engine
  · exact calm_attach parent .last name node

theorem calm_plant {planted : Node} (h : planted.Fresh) : engine.Calm (engine.plant planted).2 :=
  calm_aside (Forest.follows_plant planted) fun _ => Forest.version_plant h.version

theorem calm_observe (id : NodeId) (observer : ObserverId) :
    engine.Calm (engine.observe id observer) :=
  calm_aside (fun _ _ hmem => Forest.mem_subscribers_subscribe.mpr (.inl hmem))
    fun _ => Forest.version_subscribe

theorem calm_unobserve (id : NodeId) (observer : ObserverId) :
    engine.Calm (engine.unobserve id observer) :=
  calm_aside (Forest.follows_unsubscribe fun _ => by simp) fun _ => Forest.version_unsubscribe

theorem calm_record {anchors : List Anchor} {pollers : List Poll.Poller} {metrics : Metrics} :
    engine.Calm { engine with anchors, pollers, metrics } := by
  show engine.Calm { engine with forest := engine.forest, anchors, pollers, metrics }
  exact calm_aside (fun _ _ hmem => hmem) fun _ => rfl

theorem calm_refresh (id : RegistryId) : engine.Calm (engine.refresh id) := by
  unfold Engine.refresh
  split
  · exact .refl engine
  · split
    · exact calm_enqueue id
    · exact calm_push rfl rfl

theorem calm_absorb (id : PollerId) (answer : Poll.Answer) :
    engine.Calm (engine.absorb id answer).2 := by
  unfold absorb
  split
  · exact .refl engine
  · exact calm_record
  · rename_i poller response _
    have hpush : engine.Calm (engine.push (.settle id response.checkpoint
        (engine.forest.edit poller.target (.update response.content)).1)) := calm_push rfl rfl
    exact hpush.trans (calm_edit poller.target (.update response.content))

theorem calm_reload (leaf : NodeId) (source : Poll.FileSource) (file : Option ByteArray) :
    engine.Calm (engine.reload leaf source file).2 := by
  unfold reload
  split
  · exact .refl engine
  · rename_i entries _
    show engine.Calm (engine.edit leaf (.update (.snapshot entries))).2
    exact calm_edit leaf _

/-- A composite is told: it follows with a version of its own, unless it is gone. -/
theorem calm_relay {parent : NodeId} {link : LinkId} {subscribers : List Subscriber}
    (hstack : engine.stack = .tell node (.link parent link :: subscribers) :: rest) :
    engine.Calm ({ engine with stack := .tell node subscribers :: rest }.tell node
      (.link parent link)) := by
  let told : Engine V := { engine with stack := .tell node subscribers :: rest }
  have htold : engine.Calm told := calm_told hstack fun _ => by simp
  have hfollows : told.forest.Follows (told.forest.prune told.roots) := by
    intro other id hmem
    rw [Forest.subscribers_prune]
    exact hmem
  have hprune : told.Calm { told with forest := told.forest.prune told.roots } :=
    calm_aside hfollows fun _ => Forest.version_prune _
  unfold Engine.tell
  dsimp only
  split
  · exact htold.trans hprune
  · refine (htold.trans hprune).trans (calm_announce (Forest.Follows.bump ?_ parent)
      (Forest.revises_bump parent))
    exact fun _ _ hmem => hmem

theorem calm_settle {id : PollerId} {checkpoint : Option String} {changed : Bool}
    (hstack : engine.stack = .settle id checkpoint changed :: rest) :
    engine.Calm ({ engine with stack := rest }.settle id checkpoint changed) := by
  have hpop : engine.Calm { engine with stack := rest } :=
    calm_pop hstack rfl rfl fun _ _ h => h
  unfold Engine.settle
  split
  · exact hpop
  · exact hpop.trans calm_record

end Engine

end Overlay

import Mathlib.Data.List.Chain
import Overlay.Proofs.Engine.Deliveries

/-!
# Deeds

What a move does to the stack and to the counters of properties. Most of what an engine does is
`Silent`: it begins no delivery, reads no handle and counts nothing but polls. A move is silent
work and then one thing at most that is not (`Deed`): a handle is read, a notice is taken up, or
a listener is called. So a delivery that is not the next work to be done has the call that it has
made directly above it (`Covered`).
-/

namespace Overlay

open Template (MissingPolicy)

variable {V : Type}

def Counter.isPolls : Counter → Bool
  | .polls _ _ => true
  | _ => false

namespace Engine

variable {engine before middle after : Engine V} {base rest : List (Frame V)} {frame : Frame V}

/-- Work above this stack that begins no delivery and reads no handle. -/
structure Silent (before : Engine V) (base : List (Frame V)) (after : Engine V) : Prop where
  stack : ∃ above, after.stack = above ++ base ∧ ∀ frame ∈ above, frame.callbacks = []
  cached : ∀ id, after.cached? id = before.cached? id
  counts : ∀ counter, counter.isPolls = false →
    after.metrics.count counter = before.metrics.count counter

theorem Silent.trans (h : before.Silent base middle) (h' : middle.Silent middle.stack after) :
    before.Silent base after where
  stack := by
    obtain ⟨above, hstack, hcallbacks⟩ := h.stack
    obtain ⟨more, hmore, hcallbacks'⟩ := h'.stack
    refine ⟨more ++ above, by rw [hmore, hstack, List.append_assoc], fun frame hmem => ?_⟩
    exact (List.mem_append.mp hmem).elim (hcallbacks' frame) (hcallbacks frame)
  cached id := (h'.cached id).trans (h.cached id)
  counts counter hcounter := (h'.counts counter hcounter).trans (h.counts counter hcounter)

theorem silent_of (hstack : after.stack = base) (hcached : ∀ id, after.cached? id = before.cached? id)
    (hmetrics : after.metrics = before.metrics) : before.Silent base after where
  stack := ⟨[], hstack, fun _ hmem => absurd hmem List.not_mem_nil⟩
  cached := hcached
  counts counter _ := congrArg (Metrics.count · counter) hmetrics

theorem Silent.refl (engine : Engine V) : engine.Silent engine.stack engine :=
  silent_of rfl (fun _ => rfl) rfl

theorem silent_push (hcallbacks : frame.callbacks = []) :
    engine.Silent engine.stack (engine.push frame) where
  stack := ⟨[frame], rfl, fun _ hmem => List.mem_singleton.mp hmem ▸ hcallbacks⟩
  cached _ := rfl
  counts _ _ := rfl

theorem silent_pop : engine.Silent rest { engine with stack := rest } :=
  silent_of rfl (fun _ => rfl) rfl

theorem silent_announce (engine : Engine V) (node : NodeId) :
    engine.Silent engine.stack (engine.announce node) where
  stack := ⟨[_], rfl, fun _ hmem => List.mem_singleton.mp hmem ▸ rfl⟩
  cached _ := rfl
  counts _ _ := Metrics.count_report _ _ _ _

theorem silent_changed (engine : Engine V) (forest : Forest) (node : NodeId) :
    engine.Silent engine.stack ({ engine with forest }.changed node) := by
  have hforest : engine.Silent engine.stack { engine with forest := forest.bump node } :=
    silent_of rfl (fun _ => rfl) rfl
  exact hforest.trans (silent_announce _ node)

theorem silent_edit (engine : Engine V) (node : NodeId) (edit : Edit) :
    engine.Silent engine.stack (engine.edit node edit).2 := by
  have hforest : engine.Silent engine.stack
      { engine with forest := (engine.forest.edit node edit).2 } := silent_of rfl (fun _ => rfl) rfl
  unfold Engine.edit
  dsimp only
  split
  · exact hforest.trans (silent_announce _ node)
  · exact hforest

theorem silent_attachUnique (engine : Engine V) (parent : NodeId) (name : String) (node : NodeId) :
    engine.Silent engine.stack ((engine.attachUnique parent name node).toOption.getD engine) := by
  unfold attachUnique
  split
  · exact .refl engine
  · exact silent_changed engine _ parent

theorem silent_detach (engine : Engine V) (parent : NodeId) (name : String) :
    engine.Silent engine.stack (engine.detach parent name).2 := by
  unfold detach
  split
  · exact .refl engine
  · rename_i child forest _
    have hpush : engine.Silent engine.stack (engine.push (.keep child.node)) := silent_push rfl
    exact hpush.trans (silent_changed _ forest parent)

theorem silent_openRegistry (registry : Registry V) :
    engine.Silent engine.stack (engine.openRegistry registry).2 := by
  unfold openRegistry
  dsimp only
  split <;> exact silent_of rfl (fun _ => rfl) rfl

theorem silent_closeRegistry (id : RegistryId) :
    engine.Silent engine.stack (engine.closeRegistry id) := by
  unfold closeRegistry
  split
  · exact .refl engine
  · exact silent_of rfl (fun _ => rfl) rfl

theorem silent_unlisten (id : HandleId) (listener : ListenerId) :
    engine.Silent engine.stack (engine.unlisten id listener).2 := by
  unfold unlisten
  split
  · exact .refl engine
  · exact silent_of rfl (spares_modifyListeners _).cached rfl

theorem silent_refresh (id : RegistryId) : engine.Silent engine.stack (engine.refresh id) := by
  unfold refresh
  split
  · exact .refl engine
  · split
    · exact silent_of rfl (fun _ => rfl) rfl
    · exact silent_push rfl

theorem silent_count (engine : Engine V) {counter : Counter} (hcounter : counter.isPolls = true) :
    engine.Silent engine.stack (engine.count counter) where
  stack := ⟨[], rfl, fun _ hmem => absurd hmem List.not_mem_nil⟩
  cached _ := rfl
  counts other hother := by
    have hne : other ≠ counter := by
      rintro rfl
      exact absurd hcounter (by simp [hother])
    exact (Metrics.count_increment _ _ _).trans (by rw [if_neg hne, Nat.add_zero])

theorem silent_absorb (id : PollerId) (answer : Poll.Answer) :
    engine.Silent engine.stack (engine.absorb id answer).2 := by
  unfold absorb
  split
  · exact .refl engine
  · exact silent_count engine rfl
  · rename_i poller response _
    have hpush : engine.Silent engine.stack (engine.push (.settle id response.checkpoint
        (engine.forest.edit poller.target (.update response.content)).1)) := silent_push rfl
    exact hpush.trans (silent_edit _ poller.target (.update response.content))

theorem silent_reload (leaf : NodeId) (source : Poll.FileSource) (file : Option ByteArray) :
    engine.Silent engine.stack (engine.reload leaf source file).2 := by
  unfold reload
  split
  · exact .refl engine
  · rename_i entries _
    exact silent_edit engine leaf (.update (.snapshot entries))

theorem silent_settle (id : PollerId) (checkpoint : Option String) (changed : Bool) :
    engine.Silent engine.stack (engine.settle id checkpoint changed) := by
  unfold settle
  split
  · exact .refl engine
  · have hmodify : engine.Silent engine.stack (engine.modifyPoller id (·.settle checkpoint)) :=
      silent_of rfl (fun _ => rfl) rfl
    exact hmodify.trans (silent_count _ rfl)

theorem silent_tell (engine : Engine V) (node : NodeId) (subscriber : Subscriber) :
    engine.Silent engine.stack (engine.tell node subscriber) := by
  cases subscriber with
  | registry id => exact silent_of rfl (fun _ => rfl) rfl
  | observer id => exact silent_push rfl
  | link parent link =>
    unfold Engine.tell
    dsimp only
    split
    · exact silent_of rfl (fun _ => rfl) rfl
    · exact silent_changed engine _ parent

-- ---------------------------------------------------------------------------
-- Deeds
-- ---------------------------------------------------------------------------

variable [BEq V]

/-- What a move does above this stack. -/
inductive Deed (before : Engine V) (base : List (Frame V)) : Move V → Engine V → Prop
  | silent {move : Move V} {after : Engine V} (h : before.Silent base after)
      (hcall : before.call? move = none) : Deed before base move after
  | read {move : Move V} {middle : Engine V} {id : HandleId} (h : before.Silent base middle)
      (hcall : before.call? move = none) : Deed before base move (middle.refreshHandle id)
  /-- A notifier takes up a notice. -/
  | take {move : Move V} {middle : Engine V} {notice : Notice V} (h : before.Silent base middle)
      (hcall : before.call? move = none) : Deed before base move (middle.push (.deliver notice))
  | call {handle : HandleId} {event : Event V} {listener : ListenerId}
      {listeners : List ListenerId}
      (hstack : before.stack = .deliver ⟨handle, event, listener :: listeners⟩ :: base) :
      Deed before base .step { before with
        stack := .callback (.property listener handle event) ::
          .deliver ⟨handle, event, listeners⟩ :: base
        metrics := before.metrics.increment .notifications }

theorem deed_request {call : Call V} (id : RegistryId) (key typeName : String) (fallback : V)
    (decode : Decoder V) :
    engine.Deed engine.stack (.call call) (engine.request id key typeName fallback decode).2 := by
  unfold request
  split
  · exact .read (.refl engine) rfl
  · have hfresh : Handle.Fresh ({ registry := id, key, typeName, fallback, decode } : Handle V) :=
      ⟨rfl, rfl⟩
    exact .read (silent_of rfl (cached?_enroll hfresh) rfl) rfl

theorem deed_start (engine : Engine V) (call : Call V) :
    engine.Deed engine.stack (.call call) (engine.start call) := by
  have hstill {after : Engine V} (hstack : after.stack = engine.stack)
      (hhandles : after.handles = engine.handles) (hmetrics : after.metrics = engine.metrics) :
      engine.Deed engine.stack (.call call) after :=
    .silent (silent_of hstack (cached?_congr hhandles) hmetrics) rfl
  cases call with
  | hold anchors => exact hstill rfl rfl rfl
  | fixed name entries => exact hstill rfl rfl rfl
  | settable name entries => exact hstill rfl rfl rfl
  | composite name => exact hstill rfl rfl rfl
  | edit node edit => exact .silent (silent_edit engine node edit) rfl
  | attach parent place name node => exact .silent (silent_changed engine _ parent) rfl
  | attachUnique parent name node => exact .silent (silent_attachUnique engine parent name node) rfl
  | detach parent name => exact .silent (silent_detach engine parent name) rfl
  | observe node observer => exact hstill rfl rfl rfl
  | unobserve node observer => exact hstill rfl rfl rfl
  | openRegistry root policy delimiter eager => exact .silent (silent_openRegistry _) rfl
  | closeRegistry registry => exact .silent (silent_closeRegistry registry) rfl
  | registerDecoder registry typeName decoder => exact hstill rfl rfl rfl
  | request registry key typeName fallback decode =>
    exact deed_request registry key typeName fallback decode
  | requestCustom registry key typeName fallback =>
    simp only [start, requestCustom]
    cases (engine.registryAt? registry).bind fun registry => registry.decoders.find? typeName with
    | none => exact .silent (.refl engine) rfl
    | some decode => exact deed_request registry key typeName fallback decode
  | read handle => exact .read (.refl engine) rfl
  | listen handle listener => exact .read (silent_push rfl) rfl
  | unlisten handle listener => exact .silent (silent_unlisten handle listener) rfl
  | refresh registry => exact .silent (silent_refresh registry) rfl
  | addPoller source target => exact hstill rfl rfl rfl
  | absorb poller answer => exact .silent (silent_absorb poller answer) rfl
  | reload leaf source file => exact .silent (silent_reload leaf source file) rfl

theorem deed_run (hstack : engine.stack = frame :: rest)
    (h : { engine with stack := rest }.run frame = some after) : engine.Deed rest .step after := by
  have hcall : engine.call? .step = { engine with stack := frame :: rest }.call? .step := by
    rw [call?, call?, hstack]
  have hpop : engine.Silent rest { engine with stack := rest } := silent_pop
  cases frame with
  | tell node subscribers =>
    cases subscribers with
    | nil => exact Option.some.inj h ▸ .silent hpop hcall
    | cons subscriber subscribers =>
      have hpush : engine.Silent rest ({ engine with stack := rest }.push (.tell node subscribers)) :=
        hpop.trans (silent_push rfl)
      exact Option.some.inj h ▸ .silent (hpush.trans (silent_tell _ node subscriber)) hcall
  | deliver notice =>
    obtain ⟨handle, event, listeners⟩ := notice
    cases listeners with
    | nil => exact Option.some.inj h ▸ .silent hpop hcall
    | cons listener listeners => exact Option.some.inj h ▸ .call hstack
  | callback call => exact absurd h (by simp [run])
  | listen id listener =>
    have hlisten : engine.Silent rest ({ engine with stack := rest }.modifyHandle id
        (·.listen listener)) := silent_of rfl (fun other => cached?_listen id other listener) rfl
    exact Option.some.inj h ▸ .read hlisten hcall
  | refresh ids =>
    cases ids with
    | nil => exact Option.some.inj h ▸ .silent hpop hcall
    | cons id ids =>
      have hpush : engine.Silent rest ({ engine with stack := rest }.push (.refresh ids)) :=
        hpop.trans (silent_push rfl)
      simp only [run] at h
      split at h
      · obtain rfl := Option.some.inj h
        split
        · exact .silent hpush hcall
        · exact .read hpush hcall
      · exact Option.some.inj h ▸ .silent hpush hcall
  | pass id notices =>
    cases notices with
    | nil =>
      simp only [run] at h
      split at h
      · obtain rfl := Option.some.inj h
        split
        · exact .silent hpop hcall
        · exact .silent (hpop.trans (silent_push rfl)) hcall
      · exact Option.some.inj h ▸ .silent hpop hcall
    | cons notice notices =>
      have hpush : engine.Silent rest ({ engine with stack := rest }.push (.pass id notices)) :=
        hpop.trans (silent_push rfl)
      exact Option.some.inj h ▸ .take hpush hcall
  | settle poller checkpoint changed =>
    exact Option.some.inj h ▸ .silent (hpop.trans (silent_settle poller checkpoint changed)) hcall
  | keep node => exact Option.some.inj h ▸ .silent hpop hcall

theorem deed_takeTask {id : RegistryId} (h : engine.takeTask id = some after) :
    engine.Deed engine.stack (.wake id) after := by
  unfold takeTask at h
  split at h
  · exact absurd h (by simp)
  · have hqueue (queue : List (Task V)) : engine.Silent engine.stack
        (engine.modifyRegistry id fun registry => { registry with queue }) :=
      silent_of rfl (fun _ => rfl) rfl
    split at h
    · exact absurd h (by simp)
    · exact Option.some.inj h ▸ .take (hqueue _) rfl
    · exact Option.some.inj h ▸ .silent ((hqueue _).trans (silent_push rfl)) rfl

-- ---------------------------------------------------------------------------
-- Calls above the deliveries that made them
-- ---------------------------------------------------------------------------

omit [BEq V]

/-- No delivery is the next work. -/
def Rests (stack : List (Frame V)) : Prop := ∀ frame ∈ stack.head?, frame.callbacks = []

/-- A delivery that is not the next work has the call that it made directly above it. -/
def Covered (stack : List (Frame V)) : Prop :=
  stack.IsChain fun upper lower => lower.callbacks ≠ [] → upper.isContained = true

theorem Rests.cons (hframe : frame.callbacks = []) : Rests (frame :: rest) :=
  fun _ hmem => Option.some.inj hmem ▸ hframe

theorem Covered.cons (hrests : Rests rest) (h : Covered rest) : Covered (frame :: rest) :=
  List.IsChain.cons h fun lower hlower hcallbacks => absurd (hrests lower hlower) hcallbacks

theorem Covered.tail (h : Covered (frame :: rest)) : Covered rest := List.IsChain.tail h

theorem Covered.rests (h : Covered (frame :: rest)) (hframe : frame.isContained = false) :
    Rests rest := by
  intro lower hlower
  by_contra hcallbacks
  have hcontained := (List.isChain_cons.mp h).1 lower hlower hcallbacks
  exact absurd (hframe.symm.trans hcontained) (by simp)

theorem Covered.append {above : List (Frame V)} (habove : ∀ frame ∈ above, frame.callbacks = [])
    (hrests : Rests base) (h : Covered base) :
    Covered (above ++ base) ∧ Rests (above ++ base) := by
  induction above with
  | nil => exact ⟨h, hrests⟩
  | cons frame above ih =>
    obtain ⟨hcovered, hrests⟩ := ih fun other hmem => habove other (List.mem_cons_of_mem _ hmem)
    exact ⟨.cons hrests hcovered, .cons (habove frame List.mem_cons_self)⟩

/-- Operations are started on an empty stack or from inside a call. -/
theorem rests_of_isWaiting (h : engine.isWaiting = true) : Rests engine.stack := by
  cases hstack : engine.stack with
  | nil => exact fun frame hmem => absurd hmem (by simp)
  | cons top rest =>
    cases top with
    | callback call => exact .cons rfl
    | _ => simp [isWaiting, isIdle, callback?, hstack] at h

variable [BEq V]

theorem Covered.deed (hbase : Covered base) (hrests : Rests base)
    (h : before.Deed base move after) : Covered after.stack := by
  have hsilent {middle : Engine V} (hmiddle : before.Silent base middle) :
      Covered middle.stack ∧ Rests middle.stack := by
    obtain ⟨above, hstack, habove⟩ := hmiddle.stack
    exact hstack ▸ hbase.append habove hrests
  cases h with
  | silent h _ => exact (hsilent h).1
  | @read _ middle id h _ =>
    obtain ⟨hcovered, hrests⟩ := hsilent h
    rw [stack_refreshHandle]
    split
    · exact hcovered
    · cases middle.notice? id with
      | none => exact hcovered
      | some notice => exact .cons hrests hcovered
  | take h _ => exact .cons (hsilent h).2 (hsilent h).1
  | call _ => exact List.IsChain.cons (Covered.cons hrests hbase) fun _ _ _ => rfl

/-- A move takes the topmost work off the stack, if it goes on with that, and does one deed above
the rest. -/
theorem deed_of_move? {move : Move V} (hmove : before.move? move = some after) :
    ∃ base, before.Deed base move after ∧ (Covered before.stack → Covered after.stack) := by
  cases move with
  | call call =>
    obtain ⟨⟨hwaiting, -⟩, hstart⟩ := Option.ite_none_right_eq_some.mp hmove
    have hdeed := deed_start before call
    rw [Option.some.inj hstart] at hdeed
    exact ⟨before.stack, hdeed, fun hcovered => hcovered.deed (rests_of_isWaiting hwaiting) hdeed⟩
  | step =>
    cases hstack : before.stack with
    | nil => simp [move?, step, hstack] at hmove
    | cons frame rest =>
      have hrun : { before with stack := rest }.run frame = some after := by
        simpa only [move?, step, hstack] using hmove
      have hdeed := deed_run hstack hrun
      refine ⟨rest, hdeed, fun hcovered => hcovered.tail.deed (hcovered.rests ?_) hdeed⟩
      cases frame with
      | callback call => exact absurd hrun (by simp [run])
      | _ => rfl
  | resume =>
    obtain ⟨hcallback, hresume⟩ := Option.ite_none_right_eq_some.mp hmove
    obtain rfl := Option.some.inj hresume
    cases hstack : before.stack with
    | nil => simp [callback?, hstack] at hcallback
    | cons frame rest =>
      cases frame with
      | callback call =>
        have hafter : before.resume = { before with stack := rest } := by rw [resume, hstack]
        rw [hafter]
        exact ⟨rest, .silent silent_pop rfl, fun hcovered => hcovered.tail⟩
      | _ => simp [callback?, hstack] at hcallback
  | wake id =>
    obtain ⟨hidle, htake⟩ := Option.ite_none_right_eq_some.mp hmove
    have hdeed := deed_takeTask htake
    have hwaiting : before.isWaiting = true := by simp [isWaiting, hidle]
    exact ⟨before.stack, hdeed, fun hcovered => hcovered.deed (rests_of_isWaiting hwaiting) hdeed⟩

/-- A call that a move makes is then being made. -/
theorem callback?_of_call? {move : Move V} {call : Callback V}
    (hmove : before.move? move = some after) (hcall : before.call? move = some call) :
    after.callback? = some call := by
  obtain ⟨base, hdeed, -⟩ := deed_of_move? hmove
  cases hdeed with
  | silent _ hnone | read _ hnone | take _ hnone => exact absurd (hnone.symm.trans hcall) (by simp)
  | call hstack =>
    rw [call?, hstack] at hcall
    exact hcall

theorem Covered.move? {move : Move V} (h : Covered before.stack)
    (hmove : before.move? move = some after) : Covered after.stack := by
  obtain ⟨base, -, hcovered⟩ := deed_of_move? hmove
  exact hcovered h

-- ---------------------------------------------------------------------------
-- A listener that panics
-- ---------------------------------------------------------------------------

omit [BEq V]

theorem handles_unwind (engine : Engine V) : engine.unwind.handles = engine.handles := rfl

theorem registries_unwind (engine : Engine V) : engine.unwind.registries = engine.registries := rfl

theorem metrics_unwind (engine : Engine V) : engine.unwind.metrics = engine.metrics := rfl

/-- What a panic gives up holds no calls that are yet to be made. -/
theorem Covered.flatMap_unwind {stack : List (Frame V)} (h : Covered stack) (hrests : Rests stack) :
    (stack.dropWhile (!·.isContained)).tail.flatMap Frame.callbacks =
      stack.flatMap Frame.callbacks := by
  induction stack with
  | nil => rfl
  | cons frame stack ih =>
    have hframe : frame.callbacks = [] := hrests frame rfl
    rw [List.flatMap_cons, hframe, List.nil_append]
    cases hcontained : frame.isContained with
    | true => rw [List.dropWhile_cons_of_neg (by simp [hcontained]), List.tail_cons]
    | false =>
      rw [List.dropWhile_cons_of_pos (by simp [hcontained])]
      exact ih h.tail (h.rests hcontained)

/-- The calls that are yet to be made when a listener panics are made all the same. -/
theorem running_unwind (h : Covered engine.stack) (hcallback : engine.callback?.isSome) :
    engine.unwind.running = engine.running :=
  h.flatMap_unwind (rests_of_isWaiting (by simp [isWaiting, hcallback]))

theorem suffix_unwind (engine : Engine V) : engine.unwind.stack <:+ engine.stack :=
  (List.tail_suffix _).trans (List.dropWhile_suffix _)

theorem Covered.unwind (h : Covered engine.stack) : Covered engine.unwind.stack :=
  List.IsChain.suffix h engine.suffix_unwind

end Engine

end Overlay

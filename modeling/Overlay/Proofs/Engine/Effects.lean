import Overlay.Proofs.Engine.Transitions
import Overlay.Proofs.Forest.Leaves

/-!
# Effects of moves

What a move does to a leaf that can be edited, to the pollers, and to the stack
(`Effect`). A leaf changes by an edit of it and by nothing else (`editOf?`). Work is put
on top of what there is and done from the top, so that what lies below is untouched
(`stack_of_move?`). The rest of a poll is put on the stack by a poll alone. To nodes most moves
do nothing but tell of changes (`forest_of_move?`).
-/

namespace Overlay

variable {V : Type}

/-- The work is the rest of a poll. -/
def Frame.isSettle : Frame V → Bool
  | .settle _ _ _ => true
  | _ => false

/-- The operation does nothing to nodes, and subscribes nobody to one. -/
def Call.sparesNodes : Call V → Bool
  | .hold _ | .registerDecoder _ _ _ | .request _ _ _ _ _ | .requestCustom _ _ _ _ | .read _
  | .listen _ _ | .unlisten _ _ | .refresh _ | .addPoller _ _ => true
  | _ => false

def Move.sparesNodes : Move V → Bool
  | .call started => started.sparesNodes
  | _ => true

namespace Engine

/-- The edit of a leaf that an operation makes. -/
def editOf? (engine : Engine V) (leaf : NodeId) : Call V → Option Edit
  | .edit node edit => if node = leaf then some edit else none
  | .absorb poller (.ok response) =>
    if (engine.pollerAt? poller).any (·.target = leaf) then some (.update response.content)
    else none
  | .reload node source file =>
    if node = leaf then (source.read file).toOption.map fun entries => .update (.snapshot entries)
    else none
  | _ => none

/-- Work has been put on the stack, other than the rest of a poll; the pollers are what
they were; and the leaf has been edited in this way, if at all. -/
structure Effect (leaf : NodeId) (edit : Option Edit) (before after : Engine V) : Prop where
  stack : ∃ above, after.stack = above ++ before.stack ∧ ∀ frame ∈ above, frame.isSettle = false
  pollers : ∀ id poller, before.pollerAt? id = some poller → after.pollerAt? id = some poller
  leaf : ∀ entries, before.forest.leaf? leaf = some entries →
    after.forest.leaf? leaf = some (edit.elim entries fun edit => (edit.run entries).1)

variable {engine before middle after : Engine V} {leaf : NodeId} {edit : Option Edit}
  {frame : Frame V} {rest : List (Frame V)} {forest : Forest}

theorem Effect.trans (h : Effect leaf edit before middle) (h' : Effect leaf none middle after) :
    Effect leaf edit before after where
  stack := by
    obtain ⟨above, hstack, habove⟩ := h.stack
    obtain ⟨above', hstack', habove'⟩ := h'.stack
    refine ⟨above' ++ above, by rw [hstack', hstack, List.append_assoc], fun frame hmem => ?_⟩
    rcases List.mem_append.mp hmem with hmem | hmem
    · exact habove' frame hmem
    · exact habove frame hmem
  pollers id poller hpoller := h'.pollers id poller (h.pollers id poller hpoller)
  leaf entries hentries := h'.leaf _ (h.leaf entries hentries)

-- ---------------------------------------------------------------------------
-- Pieces of work
-- ---------------------------------------------------------------------------

theorem Effect.of_forest_eq (hforest : after.forest = before.forest)
    (hpollers : after.pollers = before.pollers)
    (hstack : ∃ above, after.stack = above ++ before.stack ∧
      ∀ frame ∈ above, frame.isSettle = false) :
    Effect leaf none before after where
  stack := hstack
  pollers id poller hpoller := by rwa [pollerAt?, hpollers]
  leaf entries hentries := by
    rw [hforest]
    exact hentries

theorem Effect.refl (engine : Engine V) : Effect leaf none engine engine :=
  .of_forest_eq rfl rfl ⟨[], rfl, fun _ hmem => absurd hmem List.not_mem_nil⟩

theorem effect_push (hframe : frame.isSettle = false) :
    Effect leaf none engine (engine.push frame) :=
  .of_forest_eq rfl rfl ⟨[frame], rfl, fun _ hmem => List.mem_singleton.mp hmem ▸ hframe⟩

theorem effect_forest (h : ∀ entries, engine.forest.leaf? leaf = some entries →
      forest.leaf? leaf = some (edit.elim entries fun edit => (edit.run entries).1)) :
    Effect leaf edit engine { engine with forest } where
  stack := ⟨[], rfl, fun _ hmem => absurd hmem List.not_mem_nil⟩
  pollers _ _ hpoller := hpoller
  leaf := h

/-- A node that has changed tells its subscribers. -/
theorem effect_announce (node : NodeId) : Effect leaf none engine (engine.announce node) :=
  .of_forest_eq rfl rfl
    ⟨[_], rfl, fun _ hmem => List.mem_singleton.mp hmem ▸ rfl⟩

theorem effect_changed (node : NodeId) : Effect leaf none engine (engine.changed node) := by
  have hbump : Effect leaf none engine { engine with forest := engine.forest.bump node } :=
    effect_forest fun entries hentries => (Forest.leaf?_congr Forest.face?_bump).trans hentries
  exact hbump.trans (effect_announce node)

theorem edit_snd (engine : Engine V) (id : NodeId) (edit : Edit) :
    (engine.edit id edit).2 =
      if (engine.forest.edit id edit).1 = true then
        { engine with forest := (engine.forest.edit id edit).2 }.announce id
      else { engine with forest := (engine.forest.edit id edit).2 } := rfl

theorem effect_edit (node : NodeId) (edit : Edit) :
    Effect leaf (if node = leaf then some edit else none) engine (engine.edit node edit).2 := by
  have hedit : Effect leaf (if node = leaf then some edit else none) engine
      { engine with forest := (engine.forest.edit node edit).2 } := by
    refine effect_forest fun entries hentries => ?_
    rw [Forest.leaf?_edit hentries]
    split <;> rfl
  rw [edit_snd]
  by_cases hchanged : (engine.forest.edit node edit).1 = true
  · rw [if_pos hchanged]
    exact hedit.trans (effect_announce node)
  · rw [if_neg hchanged]
    exact hedit

theorem effect_enqueue (id : RegistryId) (task : Task V) :
    Effect leaf none engine (engine.enqueue id task) :=
  .of_forest_eq rfl rfl ⟨[], rfl, fun _ hmem => absurd hmem List.not_mem_nil⟩

theorem effect_attach {parent node : NodeId} {place : Place} {name : String}
    (hparent : (engine.forest.node? parent).any Node.isComposite = true) :
    Effect leaf none engine (engine.attach parent place name node) := by
  have hforest : Effect leaf none engine { engine with
      forest := (engine.forest.attach parent place name node).bump parent } :=
    effect_forest fun entries hentries => Forest.leaf?_attach hentries hparent
  exact hforest.trans (effect_announce parent)

theorem effect_attachUnique {parent node : NodeId} {name : String}
    (hparent : (engine.forest.node? parent).any Node.isComposite = true) :
    Effect leaf none engine ((engine.attachUnique parent name node).toOption.getD engine) := by
  unfold attachUnique
  split
  · exact .refl engine
  · exact effect_attach hparent

theorem effect_detach (parent : NodeId) (name : String) :
    Effect leaf none engine (engine.detach parent name).2 := by
  unfold detach
  split
  · exact .refl engine
  · rename_i child forest hdetach
    have hforest : Effect leaf none engine { engine with forest := forest.bump parent } :=
      effect_forest fun entries hentries => Forest.leaf?_detach hentries hdetach
    have hpush : Effect leaf none { engine with forest := forest.bump parent }
        ({ engine with forest := forest.bump parent }.push (.keep child.node)) := effect_push rfl
    exact (hforest.trans hpush).trans (effect_announce parent)

theorem effect_openRegistry (registry : Registry V) :
    Effect leaf none engine (engine.openRegistry registry).2 := by
  rw [openRegistry_eq]
  refine ⟨⟨[], rfl, fun _ hmem => absurd hmem List.not_mem_nil⟩, fun _ _ hpoller => hpoller,
    fun entries hentries => ?_⟩
  show (engine.forestWith registry).leaf? leaf = some entries
  unfold forestWith
  split
  · exact (Forest.leaf?_congr Forest.face?_subscribe).trans hentries
  · exact hentries

theorem effect_closeRegistry (id : RegistryId) :
    Effect leaf none engine (engine.closeRegistry id) := by
  unfold closeRegistry
  split
  · exact .refl engine
  · exact ⟨⟨[], rfl, fun _ hmem => absurd hmem List.not_mem_nil⟩, fun _ _ hpoller => hpoller,
      fun entries hentries => (Forest.leaf?_congr Forest.face?_unsubscribe).trans hentries⟩

theorem effect_refresh (id : RegistryId) : Effect leaf none engine (engine.refresh id) := by
  unfold refresh
  split
  · exact .refl engine
  · split
    · exact effect_enqueue id _
    · exact effect_push rfl

/-- A notifier puts its task on the stack. -/
theorem effect_takeTask {id : RegistryId} (h : engine.takeTask id = some after) :
    Effect leaf none engine after := by
  unfold takeTask at h
  split at h
  · exact absurd h (by simp)
  · split at h
    · exact absurd h (by simp)
    · obtain rfl := Option.some.inj h
      exact .of_forest_eq rfl rfl ⟨[_], rfl, fun _ hmem => List.mem_singleton.mp hmem ▸ rfl⟩
    · obtain rfl := Option.some.inj h
      exact .of_forest_eq rfl rfl ⟨[_], rfl, fun _ hmem => List.mem_singleton.mp hmem ▸ rfl⟩

theorem effect_unlisten (id : HandleId) (listener : ListenerId) :
    Effect leaf none engine (engine.unlisten id listener).2 := by
  unfold unlisten
  split
  · exact .refl engine
  · exact .of_forest_eq rfl rfl ⟨[], rfl, fun _ hmem => absurd hmem List.not_mem_nil⟩

theorem effect_addPoller (poller : Poll.Poller) :
    Effect leaf none engine (engine.addPoller poller).2 where
  stack := ⟨[], rfl, fun _ hmem => absurd hmem List.not_mem_nil⟩
  pollers id old hold := by
    have hlt := (List.getElem?_eq_some_iff.mp hold).1
    exact (List.getElem?_append_left hlt).trans hold
  leaf _ hentries := hentries

theorem effect_reload (node : NodeId) (source : Poll.FileSource) (file : Option ByteArray) :
    Effect leaf (engine.editOf? leaf (.reload node source file)) engine
      (engine.reload node source file).2 := by
  cases hread : source.read file with
  | error _ =>
    simp only [reload, editOf?, hread, Except.toOption, Option.map_none, ite_self]
    exact .refl engine
  | ok entries =>
    simp only [reload, editOf?, hread, Except.toOption, Option.map_some]
    exact effect_edit node _

/-- A composite is told of a change, and follows unless it is gone. -/
theorem effect_tell (node : NodeId) (subscriber : Subscriber) :
    Effect leaf none engine (engine.tell node subscriber) := by
  cases subscriber with
  | registry id => exact effect_enqueue id _
  | observer id => exact effect_push rfl
  | link parent link =>
    have hprune : Effect leaf none engine
        { engine with forest := engine.forest.prune engine.roots } :=
      effect_forest fun entries hentries =>
        (Forest.leaf?_congr (Forest.face?_prune _)).trans hentries
    unfold Engine.tell
    dsimp only
    split
    · exact hprune
    · exact hprune.trans (effect_changed parent)

section
variable [BEq V]

theorem pollers_refreshHandle (engine : Engine V) (id : HandleId) :
    (engine.refreshHandle id).pollers = engine.pollers := by
  cases hreading : engine.reading? id with
  | none => rw [refreshHandle_of_none hreading]
  | some reading =>
    rcases refreshHandle_of_some hreading with heq | ⟨_, eager, _, heq⟩
    · rw [heq]
      rfl
    · rw [heq]
      cases eager <;> rfl

theorem effect_refreshHandle (engine : Engine V) (id : HandleId) :
    Effect leaf none engine (engine.refreshHandle id) := by
  refine .of_forest_eq (forest_refreshHandle engine id) (pollers_refreshHandle engine id)
    ⟨_, stack_refreshHandle engine id, fun frame hmem => ?_⟩
  split at hmem
  · exact absurd hmem List.not_mem_nil
  · obtain ⟨notice, -, rfl⟩ := List.mem_map.mp hmem
    rfl

theorem effect_request (id : RegistryId) (key typeName : String) (fallback : V)
    (decode : Decoder V) :
    Effect leaf none engine (engine.request id key typeName fallback decode).2 := by
  unfold request
  split
  · exact effect_refreshHandle engine _
  · have hmake : Effect leaf none engine
        (engine.enroll { registry := id, key, typeName, fallback, decode }) :=
      .of_forest_eq rfl rfl ⟨[], rfl, fun _ hmem => absurd hmem List.not_mem_nil⟩
    exact hmake.trans (effect_refreshHandle _ _)

-- ---------------------------------------------------------------------------
-- Moves
-- ---------------------------------------------------------------------------

/-- What an operation does, polls apart. -/
theorem effect_start {call : Call V} (hallows : engine.Allows call)
    (hpoll : ∀ id answer, call ≠ .absorb id answer) :
    Effect leaf (engine.editOf? leaf call) engine (engine.start call) := by
  have hkept {after : Engine V} (hforest : after.forest = engine.forest)
      (hpollers : after.pollers = engine.pollers) (hstack : after.stack = engine.stack) :
      Effect leaf none engine after :=
    .of_forest_eq hforest hpollers ⟨[], hstack, fun _ hmem => absurd hmem List.not_mem_nil⟩
  have hplant (node : Node) : Effect leaf none engine (engine.plant node).2 :=
    effect_forest fun entries hentries => Forest.leaf?_plant hentries node
  cases call with
  | hold anchors => exact hkept rfl rfl rfl
  | fixed name entries => exact hplant _
  | settable name entries => exact hplant _
  | composite name => exact hplant _
  | edit node edit => exact effect_edit node edit
  | attach parent place name node => exact effect_attach hallows.1
  | attachUnique parent name node => exact effect_attachUnique hallows.1
  | detach parent name => exact effect_detach parent name
  | observe node observer =>
    exact effect_forest fun entries hentries =>
      (Forest.leaf?_congr Forest.face?_subscribe).trans hentries
  | unobserve node observer =>
    exact effect_forest fun entries hentries =>
      (Forest.leaf?_congr Forest.face?_unsubscribe).trans hentries
  | openRegistry root policy delimiter eager => exact effect_openRegistry _
  | closeRegistry registry => exact effect_closeRegistry registry
  | registerDecoder registry typeName decoder => exact hkept rfl rfl rfl
  | request registry key typeName fallback decode =>
    exact effect_request registry key typeName fallback decode
  | requestCustom registry key typeName fallback =>
    simp only [start, requestCustom]
    cases (engine.registryAt? registry).bind fun registry => registry.decoders.find? typeName with
    | none => exact .refl engine
    | some decode => exact effect_request registry key typeName fallback decode
  | read handle => exact effect_refreshHandle engine handle
  | listen handle listener =>
    have hpush : Effect leaf none engine (engine.push (.listen handle listener)) := effect_push rfl
    exact hpush.trans (effect_refreshHandle _ handle)
  | unlisten handle listener => exact effect_unlisten handle listener
  | refresh registry => exact effect_refresh registry
  | addPoller source target => exact effect_addPoller _
  | absorb poller answer => exact absurd rfl (hpoll poller answer)
  | reload node source file => exact effect_reload node source file

omit [BEq V] in
/-- A successful poll edits its leaf, above the rest of the poll. -/
theorem effect_absorb {id : PollerId} {poller : Poll.Poller} {response : Poll.Response}
    (hpoller : engine.pollerAt? id = some poller) :
    ∃ changed, Effect leaf (engine.editOf? leaf (.absorb id (.ok response)))
      (engine.push (.settle id response.checkpoint changed))
      (engine.absorb id (.ok response)).2 := by
  refine ⟨(engine.forest.edit poller.target (.update response.content)).1, ?_⟩
  simp only [editOf?, hpoller, Option.any_some, decide_eq_true_eq, absorb]
  exact effect_edit poller.target (.update response.content)

/-- A piece of work that is not the rest of a poll, given the stack below it. -/
theorem effect_run (hframe : frame.isSettle = false) (h : engine.run frame = some after) :
    Effect leaf none engine after := by
  have hpushed {pushed : Frame V} (hsettle : pushed.isSettle = false) :
      Effect leaf none engine (engine.push pushed) := effect_push hsettle
  cases frame with
  | tell node subscribers =>
    cases subscribers with
    | nil => exact Option.some.inj h ▸ .refl engine
    | cons subscriber subscribers =>
      exact Option.some.inj h ▸ (hpushed rfl).trans (effect_tell node subscriber)
  | deliver notice =>
    obtain ⟨handle, event, listeners⟩ := notice
    cases listeners with
    | nil => exact Option.some.inj h ▸ .refl engine
    | cons listener listeners =>
      obtain rfl := Option.some.inj h
      refine .of_forest_eq rfl rfl ⟨[_, _], rfl, fun frame hmem => ?_⟩
      rcases List.mem_cons.mp hmem with rfl | hmem
      · rfl
      · exact List.mem_singleton.mp hmem ▸ rfl
  | callback call => exact absurd h (by simp [run])
  | listen id listener =>
    obtain rfl := Option.some.inj h
    have hlisten : Effect leaf none engine (engine.modifyHandle id fun handle =>
        if listener ∈ handle.listeners then handle
        else { handle with listeners := handle.listeners ++ [listener] }) :=
      .of_forest_eq rfl rfl ⟨[], rfl, fun _ hmem => absurd hmem List.not_mem_nil⟩
    exact hlisten.trans (effect_refreshHandle _ id)
  | refresh ids =>
    cases ids with
    | nil => exact Option.some.inj h ▸ .refl engine
    | cons id ids =>
      simp only [run] at h
      split at h
      · obtain rfl := Option.some.inj h
        split
        · exact hpushed rfl
        · exact (hpushed rfl).trans (effect_refreshHandle _ id)
      · exact Option.some.inj h ▸ hpushed rfl
  | pass id notices =>
    cases notices with
    | nil =>
      simp only [run] at h
      split at h
      · obtain rfl := Option.some.inj h
        split
        · exact .refl engine
        · exact hpushed rfl
      · exact Option.some.inj h ▸ .refl engine
    | cons notice notices =>
      obtain rfl := Option.some.inj h
      exact (hpushed rfl).trans (effect_push rfl)
  | settle poller checkpoint changed => exact absurd hframe (by simp [Frame.isSettle])
  | keep node => exact Option.some.inj h ▸ .refl engine

omit [BEq V] in
theorem stack_settle (engine : Engine V) (id : PollerId) (checkpoint : Option String)
    (changed : Bool) : (engine.settle id checkpoint changed).stack = engine.stack := by
  unfold settle
  split <;> rfl

omit [BEq V] in
theorem Effect.suffix (h : Effect leaf edit before after) : before.stack <:+ after.stack := by
  obtain ⟨above, hstack, -⟩ := h.stack
  exact ⟨above, hstack.symm⟩

/-- An operation puts its work on top of the stack. -/
theorem suffix_start {call : Call V} (hallows : engine.Allows call) :
    engine.stack <:+ (engine.start call).stack := by
  cases call with
  | absorb id answer =>
    simp only [start]
    cases hpoller : engine.pollerAt? id with
    | none => simp only [absorb, hpoller, List.suffix_rfl]
    | some poller =>
      cases answer with
      | error error => simp only [absorb, hpoller, count, List.suffix_rfl]
      | ok response =>
        obtain ⟨changed, heffect⟩ : ∃ changed,
            Effect 0 (engine.editOf? 0 (.absorb id (.ok response)))
              (engine.push (.settle id response.checkpoint changed))
              (engine.absorb id (.ok response)).2 := effect_absorb hpoller
        exact (List.suffix_cons _ _).trans heffect.suffix
  | _ =>
    have heffect : Effect 0 (engine.editOf? 0 _) engine _ :=
      effect_start hallows fun _ _ => by simp
    exact heffect.suffix

/-- What lies below the topmost work is left alone. -/
theorem stack_of_move? {move : Move V} (hstack : before.stack = frame :: rest)
    (h : before.move? move = some after) : rest <:+ after.stack := by
  cases move with
  | call call =>
    obtain ⟨hallows, hstart⟩ := Option.ite_none_right_eq_some.mp h
    obtain rfl := Option.some.inj hstart
    refine (List.suffix_cons frame rest).trans ?_
    rw [← hstack]
    exact suffix_start hallows.2
  | step =>
    simp only [move?, step, hstack] at h
    by_cases hframe : frame.isSettle = true
    · cases frame with
      | settle poller checkpoint changed =>
        obtain rfl := Option.some.inj h
        simp only [stack_settle, List.suffix_rfl]
      | _ => exact absurd hframe (by simp [Frame.isSettle])
    · have heffect : Effect 0 none { before with stack := rest } after :=
        effect_run (by simpa using hframe) h
      exact heffect.suffix
  | resume =>
    obtain ⟨hcallback, hresume⟩ := Option.ite_none_right_eq_some.mp h
    obtain rfl := Option.some.inj hresume
    cases frame with
    | callback call => simp only [resume, hstack, List.suffix_rfl]
    | _ => simp [callback?, hstack] at hcallback
  | wake id => simp [move?, isIdle, hstack] at h

-- ---------------------------------------------------------------------------
-- Nodes
-- ---------------------------------------------------------------------------

theorem forest_request (id : RegistryId) (key typeName : String) (fallback : V)
    (decode : Decoder V) :
    (engine.request id key typeName fallback decode).2.forest = engine.forest := by
  unfold request
  split
  · exact forest_refreshHandle _ _
  · exact forest_refreshHandle _ _

theorem forest_start {call : Call V} (h : call.sparesNodes = true) :
    (engine.start call).forest = engine.forest := by
  cases call with
  | hold anchors => rfl
  | registerDecoder id typeName decoder => rfl
  | request id key typeName fallback decode => exact forest_request id key typeName fallback decode
  | requestCustom id key typeName fallback =>
    simp only [start, requestCustom]
    cases (engine.registryAt? id).bind fun registry => registry.decoders.find? typeName with
    | none => rfl
    | some decode => exact forest_request id key typeName fallback decode
  | read id => exact forest_refreshHandle engine id
  | listen id listener => exact forest_refreshHandle _ id
  | unlisten id listener =>
    simp only [start, unlisten]
    split <;> rfl
  | refresh id =>
    simp only [start, refresh]
    split
    · rfl
    · split <;> rfl
  | addPoller source target => rfl
  | _ => simp [Call.sparesNodes] at h

theorem forest_run {frame : Frame V} (htell : ∀ id subscribers, frame ≠ .tell id subscribers)
    (h : engine.run frame = some after) : after.forest = engine.forest := by
  cases frame with
  | tell id subscribers => exact absurd rfl (htell id subscribers)
  | deliver notice =>
    obtain ⟨handle, event, listeners⟩ := notice
    cases listeners <;> exact Option.some.inj h ▸ rfl
  | callback call => exact absurd h (by simp [run])
  | listen id listener => exact Option.some.inj h ▸ forest_refreshHandle _ id
  | refresh ids =>
    cases ids with
    | nil => exact Option.some.inj h ▸ rfl
    | cons id ids =>
      simp only [run] at h
      split at h
      · obtain rfl := Option.some.inj h
        split
        · rfl
        · exact forest_refreshHandle _ id
      · exact Option.some.inj h ▸ rfl
  | pass id notices =>
    cases notices with
    | nil =>
      simp only [run] at h
      split at h
      · obtain rfl := Option.some.inj h
        split <;> rfl
      · exact Option.some.inj h ▸ rfl
    | cons notice notices => exact Option.some.inj h ▸ rfl
  | settle poller checkpoint changed =>
    obtain rfl := Option.some.inj h
    unfold settle
    split <;> rfl
  | keep id => exact Option.some.inj h ▸ rfl

/-- A step tells one subscriber of a change, or does nothing to nodes. -/
theorem forest_of_step (h : before.step = some after) : after.forest = before.forest ∨
    ∃ stack node subscriber, after = ({ before with stack } : Engine V).tell node subscriber := by
  unfold step at h
  split at h
  · exact absurd h (by simp)
  · rename_i frame rest hstack
    cases frame with
    | tell id subscribers =>
      cases subscribers with
      | nil => exact .inl (Option.some.inj h ▸ rfl)
      | cons subscriber subscribers => exact .inr ⟨_, id, subscriber, (Option.some.inj h).symm⟩
    | _ =>
      have hforest : after.forest = { before with stack := rest }.forest :=
        forest_run (fun _ _ => by simp) h
      exact .inl hforest

theorem forest_of_move? {move : Move V} (hspares : move.sparesNodes = true)
    (h : before.move? move = some after) : after.forest = before.forest ∨
      ∃ stack node subscriber, after = ({ before with stack } : Engine V).tell node subscriber := by
  cases move with
  | call call =>
    obtain ⟨-, hstart⟩ := Option.ite_none_right_eq_some.mp h
    exact .inl (Option.some.inj hstart ▸ forest_start hspares)
  | step => exact forest_of_step h
  | resume =>
    obtain ⟨-, hresume⟩ := Option.ite_none_right_eq_some.mp h
    obtain rfl := Option.some.inj hresume
    unfold resume
    split <;> exact .inl rfl
  | wake id =>
    obtain ⟨-, htake⟩ := Option.ite_none_right_eq_some.mp h
    unfold takeTask at htake
    split at htake
    · simp at htake
    · split at htake
      · simp at htake
      · exact .inl (Option.some.inj htake ▸ rfl)
      · exact .inl (Option.some.inj htake ▸ rfl)

end

end Engine

end Overlay

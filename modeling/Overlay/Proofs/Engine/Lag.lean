import Overlay.Proofs.Engine.Changes
import Overlay.Proofs.Engine.Listeners
import Overlay.Proofs.Engine.Shifts

/-!
# Reading while a change is told

A leaf shows its new entries at once, and what lies above it counts a version when it is
told. A handle goes by the version of its root. So what a listener reads in the middle of
an operation is new from the moment at which the root has been told, and until then it is
what it was before the operation (`read_while_told`), even though the tree below the root
says otherwise by then (`read_before_told`).
-/

namespace Overlay

variable {V : Type}

/-- The node of whose change somebody is being told. -/
def Frame.told? : Frame V → Option NodeId
  | .tell node _ | .callback (.node _ node) => some node
  | _ => none

/-- The operation is one that changes nodes. -/
def Call.isChange : Call V → Bool
  | .edit _ _ | .attach _ _ _ _ | .attachUnique _ _ _ | .detach _ _ | .absorb _ _
  | .reload _ _ _ => true
  | _ => false

def Move.isChange : Move V → Bool
  | .call started => started.isChange
  | _ => false

/-- The nodes that there were show what they showed. -/
structure Forest.Stays (before after : Forest) : Prop where
  has : ∀ id, before.Has id → after.Has id
  face : ∀ id, before.Has id → after.face? id = before.face? id

namespace Forest

variable {before middle after forest : Forest} {id : NodeId}

theorem Stays.refl (forest : Forest) : forest.Stays forest := ⟨fun _ h => h, fun _ _ => rfl⟩

theorem Stays.trans (h : before.Stays middle) (h' : middle.Stays after) : before.Stays after where
  has id hhas := h'.has id (h.has id hhas)
  face id hhas := (h'.face id (h.has id hhas)).trans (h.face id hhas)

theorem stays_of_face (hhas : ∀ id, after.Has id ↔ before.Has id)
    (hface : ∀ id, after.face? id = before.face? id) : before.Stays after :=
  ⟨fun id => (hhas id).mpr, fun id _ => hface id⟩

theorem stays_plant (planted : Node) : forest.Stays (forest.plant planted).2 where
  has id hhas := by
    simp only [Has, plant, List.length_append]
    exact Nat.lt_add_right _ hhas
  face id hhas := by simp only [face?, node?_plant_of_has planted hhas]

/-- The trees below the nodes that there were are the same. -/
theorem Stays.tree_eq (h : before.Stays after) (hlinked : before.Linked)
    (hacyclic : after.Acyclic) (hhas : before.Has id) : after.tree id = before.tree id := by
  have hclosed : ∀ id, before.Has id → ∀ child ∈ before.children id, before.Has child.node :=
    fun id _ child hchild => has_of_mem_subscribers (hlinked.subscribed id child hchild)
  have hreach : ∀ target, after.Reaches id target → before.Has target := by
    intro target hreach
    induction hreach with
    | refl => exact hhas
    | tail _ hholds ih =>
      obtain ⟨child, hchild, rfl⟩ := hholds
      exact hclosed _ ih child (children_congr (h.face _ ih) ▸ hchild)
  have hle : before.nodes.length ≤ after.nodes.length := by
    cases hlen : before.nodes.length with
    | zero => exact Nat.zero_le _
    | succ n => exact h.has n (by simp [Has, hlen])
  calc after.tree id
      = after.unfold before.nodes.length id :=
        unfold_eq_of_acyclic hacyclic (fun target ht => hreach target ht) hle
    _ = before.tree id := unfold_congr h.face hclosed _ hhas

end Forest

namespace Engine

variable {engine before middle after start now : Engine V} {base : List (Frame V)} {id : HandleId}

/-- No node has changed. At most the topmost work has been done, and in its place there is
work that tells of what was told of, or of a node with a new version. -/
structure Goes (before after : Engine V) : Prop where
  stays : before.forest.Stays after.forest
  stack : ∃ taken added rest, before.stack = taken ++ rest ∧ taken.length ≤ 1 ∧
    after.stack = added ++ rest ∧ ∀ frame ∈ added, ∀ node, frame.told? = some node →
      (∃ old ∈ taken, old.told? = some node) ∨
        before.forest.version node < after.forest.version node

/-- The topmost work is done, if any, and what takes its place tells of nothing. -/
theorem goes_quiet (taken added : List (Frame V)) {rest : List (Frame V)}
    (hbefore : before.stack = taken ++ rest)
    (hone : taken.length ≤ 1) (hstays : before.forest.Stays after.forest)
    (hafter : after.stack = added ++ rest) (hadded : ∀ frame ∈ added, frame.told? = none) :
    before.Goes after := by
  refine ⟨hstays, taken, added, rest, hbefore, hone, hafter, ?_⟩
  intro frame hmem node htold
  simp [hadded frame hmem] at htold

theorem goes_push (added : List (Frame V)) (hstays : before.forest.Stays after.forest)
    (hstack : after.stack = added ++ before.stack)
    (hadded : ∀ frame ∈ added, frame.told? = none) : before.Goes after :=
  goes_quiet [] added rfl (Nat.zero_le _) hstays hstack hadded

theorem goes_calm (hforest : after.forest = before.forest) (hstack : after.stack = before.stack) :
    before.Goes after := by
  refine goes_push [] ?_ hstack (by simp)
  rw [hforest]
  exact .refl _

/-- The topmost work has been done, and nobody is told of anything else for it. -/
theorem goes_replace (added : List (Frame V)) {frame : Frame V} {rest : List (Frame V)}
    (hstack : before.stack = frame :: rest) (hstays : before.forest.Stays after.forest)
    (hafter : after.stack = added ++ rest)
    (hadded : ∀ other ∈ added, ∀ node, other.told? = some node → frame.told? = some node) :
    before.Goes after := by
  refine ⟨hstays, [frame], added, rest, hstack, Nat.le_refl _, hafter, ?_⟩
  intro other hmem node htold
  exact .inl ⟨frame, List.mem_cons_self, hadded other hmem node htold⟩

theorem goes_closeRegistry (id : RegistryId) : engine.Goes (engine.closeRegistry id) := by
  unfold closeRegistry
  split
  · exact goes_calm rfl rfl
  · exact goes_push [] (Forest.stays_of_face (by simp [modifyRegistry])
      (by simp [modifyRegistry])) rfl (by simp)

theorem goes_openRegistry (registry : Registry V) :
    engine.Goes (engine.openRegistry registry).2 := by
  refine goes_push [] ?_ stack_openRegistry (by simp)
  rw [openRegistry_eq]
  show engine.forest.Stays (engine.forestWith registry)
  unfold forestWith
  split
  · exact Forest.stays_of_face (by simp) (by simp)
  · exact .refl _

theorem goes_refresh (id : RegistryId) : engine.Goes (engine.refresh id) := by
  unfold refresh
  split
  · exact goes_calm rfl rfl
  · split
    · exact goes_calm rfl rfl
    · exact goes_push [.refresh _] (.refl _) rfl (by simp [Frame.told?])

theorem goes_unlisten (id : HandleId) (listener : ListenerId) :
    engine.Goes (engine.unlisten id listener).2 := by
  unfold unlisten
  split
  · exact goes_calm rfl rfl
  · exact goes_calm rfl rfl

theorem goes_takeTask {id : RegistryId} (h : engine.takeTask id = some after) :
    engine.Goes after := by
  unfold takeTask at h
  split at h
  · simp at h
  · split at h
    · simp at h
    · obtain rfl := Option.some.inj h
      exact goes_push [.deliver _] (.refl _) rfl (by simp [Frame.told?])
    · obtain rfl := Option.some.inj h
      exact goes_push [.pass _ _] (.refl _) rfl (by simp [Frame.told?])

/-- Whoever is told of a node tells of it, or of a composite that has counted a version. -/
theorem goes_tell {node : NodeId} {subscriber : Subscriber} {subscribers : List Subscriber}
    {rest : List (Frame V)}
    (hstack : before.stack = .tell node (subscriber :: subscribers) :: rest) :
    before.Goes ({ before with stack := .tell node subscribers :: rest }.tell node subscriber) := by
  cases subscriber with
  | registry id =>
    refine goes_replace [.tell node subscribers] hstack (.refl _) rfl ?_
    simp [Frame.told?]
  | observer id =>
    refine goes_replace [.callback (.node id node), .tell node subscribers] hstack
      (.refl _) rfl ?_
    simp [Frame.told?]
  | link parent link =>
    simp only [tell]
    split
    · refine goes_replace [.tell node subscribers] hstack
        (Forest.stays_of_face (by simp) (by simp)) rfl ?_
      simp [Frame.told?]
    · rename_i hlive
      have hhas : before.forest.Has parent := by
        have := Forest.has_of_gone_eq_false (Bool.eq_false_iff.mpr hlive)
        exact (Forest.has_prune _).mp this
      refine ⟨Forest.stays_of_face ?_ ?_, [_], [.tell parent _, .tell node subscribers], rest,
        hstack, Nat.le_refl _, rfl, ?_⟩
      · simp [changed, announce]
      · simp [changed, announce]
      · intro frame hmem told htold
        rcases List.mem_cons.mp hmem with rfl | hmem
        · obtain rfl : parent = told := by simpa [Frame.told?] using htold
          right
          simp [changed, announce, Forest.version_bump, hhas]
        · obtain rfl := List.mem_singleton.mp hmem
          exact .inl ⟨_, List.mem_singleton_self _, htold⟩

variable [BEq V]

/-- Reading a handle has its listeners told, if anybody. -/
theorem exists_stack_refreshHandle (engine : Engine V) (id : HandleId) :
    ∃ added : List (Frame V), (engine.refreshHandle id).stack = added ++ engine.stack ∧
      ∀ frame ∈ added, frame.told? = none := by
  refine ⟨_, stack_refreshHandle engine id, fun frame hmem => ?_⟩
  split at hmem
  · simp at hmem
  · obtain ⟨notice, -, rfl⟩ := List.mem_map.mp hmem
    rfl

theorem goes_refreshHandle (taken added : List (Frame V)) {rest : List (Frame V)}
    (hbefore : before.stack = taken ++ rest) (hone : taken.length ≤ 1)
    (hforest : middle.forest = before.forest) (hmiddle : middle.stack = added ++ rest)
    (hadded : ∀ frame ∈ added, frame.told? = none) (id : HandleId) :
    before.Goes (middle.refreshHandle id) := by
  obtain ⟨more, hmore, hnone⟩ := exists_stack_refreshHandle middle id
  refine goes_quiet taken (more ++ added) hbefore hone ?_ ?_ ?_
  · rw [forest_refreshHandle, hforest]
    exact .refl _
  · rw [hmore, hmiddle, List.append_assoc]
  · intro frame hmem
    exact (List.mem_append.mp hmem).elim (hnone frame) (hadded frame)

theorem goes_read (id : HandleId) : engine.Goes (engine.refreshHandle id) :=
  goes_refreshHandle [] [] rfl (Nat.zero_le _) rfl rfl (by simp) id

theorem goes_request (registry : RegistryId) (key typeName : String) (fallback : V)
    (decode : Decoder V) :
    engine.Goes (engine.request registry key typeName fallback decode).2 := by
  unfold request
  split
  · exact goes_read _
  · let made := engine.enroll { registry, key, typeName, fallback, decode }
    have hmade : made.forest = engine.forest := rfl
    exact goes_refreshHandle [] [] (List.nil_append _).symm (Nat.zero_le _) hmade rfl (by simp) _

theorem goes_listen (id : HandleId) (listener : ListenerId) :
    engine.Goes (engine.listen id listener) := by
  have hpush : (engine.push (.listen id listener)).forest = engine.forest := rfl
  exact goes_refreshHandle [] [.listen id listener] (List.nil_append _).symm (Nat.zero_le _) hpush
    rfl (by simp [Frame.told?]) id

theorem goes_start {call : Call V} (hcall : call.isChange = false) :
    engine.Goes (engine.start call) := by
  have hplant (node : Node) : engine.Goes (engine.plant node).2 :=
    goes_push [] (Forest.stays_plant node) rfl (by simp)
  cases call with
  | hold anchors => exact goes_calm rfl rfl
  | fixed name entries => exact hplant _
  | settable name entries => exact hplant _
  | composite name => exact hplant _
  | observe node observer =>
    refine goes_push [] (Forest.stays_of_face ?_ ?_) rfl (by simp)
    · simp [start, observe]
    · simp [start, observe]
  | unobserve node observer =>
    refine goes_push [] (Forest.stays_of_face ?_ ?_) rfl (by simp)
    · simp [start, unobserve]
    · simp [start, unobserve]
  | openRegistry root policy delimiter eager => exact goes_openRegistry _
  | closeRegistry registry => exact goes_closeRegistry registry
  | registerDecoder registry typeName decoder => exact goes_calm rfl rfl
  | request registry key typeName fallback decode => exact goes_request _ _ _ _ _
  | requestCustom registry key typeName fallback =>
    simp only [start, requestCustom]
    cases (engine.registryAt? registry).bind fun registry => registry.decoders.find? typeName with
    | none => exact goes_calm rfl rfl
    | some decode => exact goes_request _ _ _ _ _
  | read handle => exact goes_read handle
  | listen handle listener => exact goes_listen handle listener
  | unlisten handle listener => exact goes_unlisten handle listener
  | refresh registry => exact goes_refresh registry
  | addPoller source target => exact goes_calm rfl rfl
  | _ => simp [Call.isChange] at hcall

theorem goes_step (h : before.step = some after) : before.Goes after := by
  unfold step at h
  cases hstack : before.stack with
  | nil => simp [hstack] at h
  | cons frame rest =>
    simp only [hstack] at h
    have hquiet (added : List (Frame V)) (hforest : after.forest = before.forest)
        (hafter : after.stack = added ++ rest) (hadded : ∀ other ∈ added, other.told? = none) :
        before.Goes after :=
      goes_quiet [frame] added hstack (Nat.le_refl _) (hforest ▸ .refl _) hafter hadded
    cases frame with
    | tell node subscribers =>
      cases subscribers with
      | nil =>
        obtain rfl := Option.some.inj h
        exact hquiet [] rfl rfl (by simp)
      | cons subscriber subscribers =>
        obtain rfl := Option.some.inj h
        exact goes_tell hstack
    | deliver notice =>
      obtain ⟨handle, event, listeners⟩ := notice
      cases listeners with
      | nil =>
        obtain rfl := Option.some.inj h
        exact hquiet [] rfl rfl (by simp)
      | cons listener listeners =>
        obtain rfl := Option.some.inj h
        exact hquiet [_, _] rfl rfl (by simp [Frame.told?])
    | callback call => simp [run] at h
    | listen id listener =>
      obtain rfl := Option.some.inj h
      exact goes_refreshHandle [.listen id listener] [] hstack (Nat.le_refl _) (by rfl) (by rfl)
        (by simp) id
    | refresh ids =>
      cases ids with
      | nil =>
        obtain rfl := Option.some.inj h
        exact hquiet [] rfl rfl (by simp)
      | cons id ids =>
        simp only [run] at h
        split at h
        · split at h
          · obtain rfl := Option.some.inj h
            exact hquiet [.refresh ids] rfl rfl (by simp [Frame.told?])
          · obtain rfl := Option.some.inj h
            exact goes_refreshHandle [.refresh (id :: ids)] [.refresh ids]
              hstack (Nat.le_refl _) (by rfl) (by rfl) (by simp [Frame.told?]) id
        · obtain rfl := Option.some.inj h
          exact hquiet [.refresh ids] rfl rfl (by simp [Frame.told?])
    | pass id notices =>
      cases notices with
      | nil =>
        simp only [run] at h
        split at h
        · split at h
          · obtain rfl := Option.some.inj h
            exact hquiet [] rfl rfl (by simp)
          · obtain rfl := Option.some.inj h
            exact hquiet [.refresh _] rfl rfl (by simp [Frame.told?])
        · obtain rfl := Option.some.inj h
          exact hquiet [] rfl rfl (by simp)
      | cons notice notices =>
        obtain rfl := Option.some.inj h
        exact hquiet [.deliver notice, .pass id notices] rfl rfl (by simp [Frame.told?])
    | settle poller checkpoint changed =>
      obtain rfl := Option.some.inj h
      refine hquiet [] ?_ (stack_settle _ _ _ _) (by simp)
      unfold settle
      split <;> rfl
    | keep node =>
      obtain rfl := Option.some.inj h
      exact hquiet [] rfl rfl (by simp)

theorem goes_of_move? {move : Move V} (hkind : move.isChange = false)
    (h : before.move? move = some after) : before.Goes after := by
  cases move with
  | call call =>
    obtain ⟨-, hstart⟩ := Option.ite_none_right_eq_some.mp h
    obtain rfl := Option.some.inj hstart
    exact goes_start hkind
  | step => exact goes_step h
  | resume =>
    obtain ⟨hcallback, hresume⟩ := Option.ite_none_right_eq_some.mp h
    obtain rfl := Option.some.inj hresume
    unfold resume
    split
    · rename_i call rest hstack
      exact goes_replace [] hstack (.refl _) rfl (by simp)
    · exact goes_calm rfl rfl
  | wake registry =>
    obtain ⟨-, htake⟩ := Option.ite_none_right_eq_some.mp h
    exact goes_takeTask htake

-- ---------------------------------------------------------------------------
-- Who has been told
-- ---------------------------------------------------------------------------

/-- Above the base, people are told of nodes that have a newer version than before. -/
def Tells (before : Engine V) (base : List (Frame V)) (engine : Engine V) : Prop :=
  ∃ above, engine.stack = above ++ base ∧ ∀ frame ∈ above, ∀ node, frame.told? = some node →
    before.forest.version node < engine.forest.version node

omit [BEq V] in
theorem Tells.goes (h : before.Tells base middle) (hgoes : middle.Goes after)
    (hbefore : ∀ id, before.forest.version id ≤ middle.forest.version id)
    (hmiddle : ∀ id, middle.forest.version id ≤ after.forest.version id)
    (habove : base.length < middle.stack.length) : before.Tells base after := by
  obtain ⟨above, hstack, htold⟩ := h
  obtain ⟨taken, added, rest, htaken, hone, hafter, hadded⟩ := hgoes.stack
  have hle : taken.length ≤ above.length := by
    rw [hstack, List.length_append] at habove
    omega
  obtain ⟨kept, habove, hrest⟩ : ∃ kept, above = taken ++ kept ∧ rest = kept ++ base := by
    rcases List.append_eq_append_iff.mp (hstack.symm.trans htaken) with ⟨more, htaken, hbase⟩ | h
    · obtain rfl : more = [] := by
        rw [htaken, List.length_append] at hle
        exact List.length_eq_zero_iff.mp (by omega)
      exact ⟨[], by simpa using htaken.symm, by simpa using hbase.symm⟩
    · exact h
  refine ⟨added ++ kept, by rw [hafter, hrest, List.append_assoc], fun frame hmem node hnode => ?_⟩
  rcases List.mem_append.mp hmem with hmem | hmem
  · rcases hadded frame hmem node hnode with ⟨old, hold, holdtold⟩ | hlt
    · have hlt := htold old (habove ▸ List.mem_append_left _ hold) node holdtold
      exact Nat.lt_of_lt_of_le hlt (hmiddle node)
    · exact Nat.lt_of_le_of_lt (hbefore node) hlt
  · have hlt := htold frame (habove ▸ List.mem_append_right _ hmem) node hnode
    exact Nat.lt_of_lt_of_le hlt (hmiddle node)

omit [BEq V] in
theorem tells_edit {node : NodeId} {edit : Edit} (rest : List (Frame V))
    (hrest : ∀ frame ∈ rest, frame.told? = none) :
    before.Tells before.stack
      ({ before with stack := rest ++ before.stack }.edit node edit).2 := by
  rw [edit_snd]
  split
  · rename_i hchanged
    refine ⟨.tell node _ :: rest, rfl, fun frame hmem told htold => ?_⟩
    rcases List.mem_cons.mp hmem with rfl | hmem
    · obtain rfl : node = told := by simpa [Frame.told?] using htold
      have hversion := (Forest.revises_edit hchanged).version node
      rw [if_pos ⟨rfl, Forest.has_of_edit hchanged⟩] at hversion
      exact hversion ▸ Nat.lt_succ_self _
    · simp [hrest frame hmem] at htold
  · exact ⟨rest, rfl, fun frame hmem node htold => by simp [hrest frame hmem] at htold⟩

/-- An edit reads no handle, and has the leaf told of. -/
theorem start_of_editOf? {call : Call V} {leaf : NodeId} {edit : Edit}
    (h : before.editOf? leaf call = some edit) :
    (before.start call).handles = before.handles ∧
      before.Tells before.stack (before.start call) := by
  have hedit (node : NodeId) (edit : Edit) : (before.edit node edit).2.handles = before.handles ∧
      before.Tells before.stack (before.edit node edit).2 := by
    refine ⟨?_, tells_edit [] (by simp)⟩
    rw [edit_snd]
    split <;> rfl
  cases call with
  | edit node edit => exact hedit node edit
  | reload node source file =>
    cases hfile : source.read file with
    | error error => simp [editOf?, hfile, Except.toOption] at h
    | ok entries =>
      simp only [start, reload, hfile]
      exact hedit node _
  | absorb poller answer =>
    cases answer with
    | error error => simp [editOf?] at h
    | ok response =>
      cases hpoller : before.pollerAt? poller with
      | none => simp [editOf?, hpoller] at h
      | some found =>
        simp only [start, absorb, hpoller]
        refine ⟨?_, tells_edit [.settle poller response.checkpoint _]
          (by simp [Frame.told?])⟩
        split <;> rfl
  | _ => simp [editOf?] at h

-- ---------------------------------------------------------------------------
-- Where the cached value comes from
-- ---------------------------------------------------------------------------

/-- The handle has been resolved at a newer version than before, in a forest that still stands. -/
structure Renewed (before : Engine V) (id : HandleId) (forest : Forest) (engine : Engine V)
    (handle : Handle V) (registry : Registry V) : Prop where
  handleAt : engine.handleAt? id = some handle
  registryAt : engine.registryAt? handle.registry = some registry
  linked : forest.Linked
  has : forest.Has registry.root
  stays : forest.Stays engine.forest
  version : forest.version registry.root ≤ engine.forest.version registry.root
  newer : ∀ old, before.cached? id = some old → old.version < forest.version registry.root
  cached : ∃ held, handle.cached = some ⟨forest.version registry.root,
    (handle.resolve registry.policy (forest.tree registry.root)).toOption.getD held⟩

/-- What the handle has cached is what it had before, unless it has been renewed. -/
def Origin (before : Engine V) (id : HandleId) (engine : Engine V) : Prop :=
  engine.cached? id = before.cached? id ∨
    ∃ forest handle registry, before.Renewed id forest engine handle registry

theorem Origin.does (h : before.Origin id middle) (hsound : middle.Sound)
    (hdoes : middle.Does after) (hgoes : middle.Goes after) : before.Origin id after := by
  have hkeeps := hdoes.keeps hsound
  rcases hdoes.cached_cases id with hsame | ⟨reading, handle, registry, hretains, hsame, hhandle,
    hregistry, hstale, rfl⟩
  · rcases h with hold | ⟨forest, handle, registry, hrenewed⟩
    · exact .inl (hsame.trans hold)
    · right
      obtain ⟨next, home, hnext, hhome, -, hroot, hresolve⟩ :=
        hdoes.retains.resolves hrenewed.handleAt hrenewed.registryAt
      refine ⟨forest, next, home, hnext, hhome, hrenewed.linked, hroot ▸ hrenewed.has,
        hrenewed.stays.trans hgoes.stays, ?_, ?_, ?_⟩
      · rw [hroot]
        exact hrenewed.version.trans (hkeeps.since.version _)
      · rw [hroot]
        exact hrenewed.newer
      · obtain ⟨held, hcached⟩ := hrenewed.cached
        refine ⟨held, ?_⟩
        rw [hroot, hresolve, ← hcached]
        simpa [cached?, hnext, hrenewed.handleAt] using hsame
  · right
    have hforest : (reading.refreshHandle id).forest = reading.forest :=
      forest_refreshHandle reading id
    have hread := handleAt?_refreshHandle
      (reading?_eq_some.mpr ⟨handle, registry, hhandle, hregistry, rfl⟩)
    obtain ⟨next, home, hnext, hhome, -, hroot, hresolve⟩ :=
      (retains_refreshHandle reading id).1.resolves hhandle hregistry
    refine ⟨reading.forest, next, home, hnext, hhome, ?_, ?_, ?_, ?_, ?_, ?_⟩
    · exact hforest ▸ hkeeps.sound.linked
    · exact hforest ▸ hkeeps.sound.rooted home (List.mem_of_getElem? hhome)
    · exact hforest ▸ .refl _
    · exact hforest ▸ Nat.le_refl _
    · -- what is stale at this version is older, and so is what it came after
      intro old hold
      have hlt {cached : Cached V} (hcached : handle.cached = some cached) :
          cached.version < reading.forest.version home.root := by
        rw [hroot]
        simpa [Handle.isCurrent, hcached] using hstale
      have hcached : middle.cached? id = handle.cached := by
        rw [← hsame, cached?, hhandle]
        rfl
      rcases h with hkept | ⟨forest, found, registry', hrenewed⟩
      · exact hlt (hcached.symm.trans (hkept.trans hold))
      · obtain ⟨held, hfound⟩ := hrenewed.cached
        have hmiddle : middle.cached? id = found.cached := by
          rw [cached?, hrenewed.handleAt]
          rfl
        exact (hrenewed.newer old hold).trans (hlt (hcached.symm.trans (hmiddle.trans hfound)))
    · rw [hroot, hresolve]
      obtain rfl := Option.some.inj (hnext.symm.trans hread)
      exact ⟨handle.held, Handle.cached_read hstale⟩

-- ---------------------------------------------------------------------------
-- Reading
-- ---------------------------------------------------------------------------

/-- The value that the handle has cached, if it stands at this version of the root. -/
def standing? (engine : Engine V) (id : HandleId) (version : Nat) : Option V :=
  ((engine.cached? id).filter (version ≤ ·.version)).map (·.value)

omit [BEq V] in
theorem standing?_of_le {version : Nat} {cached : Cached V} (h : engine.cached? id = some cached)
    (hle : version ≤ cached.version) : engine.standing? id version = some cached.value := by
  simp [standing?, h, Option.filter_some, hle]

omit [BEq V] in
theorem standing?_of_lt {version : Nat}
    (h : ∀ cached, engine.cached? id = some cached → cached.version < version) :
    engine.standing? id version = none := by
  cases hcached : engine.cached? id with
  | none => simp [standing?, hcached]
  | some cached => simp [standing?, hcached, Option.filter_some, h cached hcached]

/-- What holds in the middle of an operation that leaves the nodes alone from now on. -/
structure Amid (before : Engine V) (id : HandleId) (engine : Engine V) : Prop where
  sound : engine.Sound
  since : before.Since engine
  retains : before.Retains engine
  tells : before.Tells before.stack engine
  origin : before.Origin id engine

theorem Amid.move (h : before.Amid id middle) {move : Move V} (hkind : move.isChange = false)
    (habove : before.stack.length < middle.stack.length) (hmove : middle.move? move = some after) :
    before.Amid id after := by
  have hdoes := does_of_move? hmove
  have hkeeps := hdoes.keeps h.sound
  have hgoes := goes_of_move? hkind hmove
  exact ⟨hkeeps.sound, h.since.trans hkeeps.since, h.retains.trans hdoes.retains,
    h.tells.goes hgoes h.since.version hkeeps.since.version habove,
    h.origin.does h.sound hdoes hgoes⟩

theorem Amid.play (h : before.Amid id start) {work : List (Move V)}
    (hplay : start.play? work = some now) (hcalm : ∀ move ∈ work, move.isChange = false)
    (habove : start.staysAbove before.stack.length work = true) : before.Amid id now := by
  induction work generalizing start with
  | nil => exact Option.some.inj hplay ▸ h
  | cons move rest ih =>
    obtain ⟨next, hmove, hrest⟩ := play?_cons_eq_some.mp hplay
    obtain ⟨hheight, habove⟩ := (every_cons hmove).mp habove
    have hnext := h.move (hcalm move List.mem_cons_self) (by simpa using hheight) hmove
    exact ih hnext hrest (fun other hmem => hcalm other (List.mem_cons_of_mem _ hmem)) habove

/-- What a handle had cached is no newer than the root was. -/
theorem version_of_cached {moves : List (Move V)} {handle : Handle V} {registry : Registry V}
    (hplay : ({} : Engine V).play? moves = some before) (hretains : before.Retains now)
    (hhandle : now.handleAt? id = some handle)
    (hregistry : now.registryAt? handle.registry = some registry) {old : Cached V}
    (hold : before.cached? id = some old) :
    old.version ≤ before.forest.version registry.root := by
  obtain ⟨_, _, hfound, hhome, -, past, -, hsince, -, hversion, -⟩ :=
    ((coherent_empty id).play sound_empty hplay).read old hold
  obtain ⟨next, home, hnext, hhome', -, hroot, -⟩ := hretains.resolves hfound hhome
  obtain rfl := Option.some.inj (hhandle.symm.trans hnext)
  obtain rfl := Option.some.inj (hregistry.symm.trans hhome')
  rw [hroot, ← hversion]
  exact hsince.version _

omit [BEq V] in
/-- What a handle holds once it has been renewed is what it resolves to now. -/
theorem Renewed.held_eq {forest : Forest} {handle : Handle V} {registry : Registry V} {value : V}
    (h : before.Renewed id forest now handle registry) (hacyclic : now.forest.Acyclic)
    (hvalue : handle.resolve registry.policy (now.forest.tree registry.root) = .ok value) :
    handle.held = value := by
  obtain ⟨held, hcached⟩ := h.cached
  rw [Handle.held, hcached, ← h.stays.tree_eq h.linked hacyclic h.has, hvalue]
  rfl

/-- A handle shows what it had cached before while its root has the version of then, and what it
resolves to as soon as the root has a newer one. -/
theorem Amid.read_eq (h : before.Amid id now) (hacyclic : now.forest.Acyclic) {handle : Handle V}
    {registry : Registry V} {value : V} (hhandle : now.handleAt? id = some handle)
    (hregistry : now.registryAt? handle.registry = some registry)
    (hvalue : handle.resolve registry.policy (now.forest.tree registry.root) = .ok value) :
    (now.read id).1 =
      some ((before.standing? id (now.forest.version registry.root)).getD value) := by
  have hcached : now.cached? id = handle.cached := by
    rw [cached?, hhandle]
    rfl
  have hrenewed {forest : Forest} {found : Handle V} {home : Registry V}
      (hnew : before.Renewed id forest now found home) :
      handle.held = value ∧ before.standing? id (now.forest.version registry.root) = none := by
    obtain rfl := Option.some.inj (hhandle.symm.trans hnew.handleAt)
    obtain rfl := Option.some.inj (hnew.registryAt.symm.trans hregistry)
    exact ⟨hnew.held_eq hacyclic hvalue, standing?_of_lt fun old hold =>
      Nat.lt_of_lt_of_le (hnew.newer old hold) hnew.version⟩
  rw [Engine.read_eq hhandle hregistry]
  cases hcurrent : handle.isCurrent (now.forest.version registry.root) with
  | true =>
    rw [Handle.read_of_isCurrent hcurrent]
    rcases h.origin with hkept | ⟨forest, found, home, hnew⟩
    · obtain ⟨old, hold, hle⟩ := Handle.exists_of_isCurrent hcurrent
      rw [standing?_of_le (hkept.symm.trans (hcached.trans hold)) hle, Handle.held, hold]
      rfl
    · rw [(hrenewed hnew).1, (hrenewed hnew).2]
      rfl
  | false =>
    have hnone : before.standing? id (now.forest.version registry.root) = none := by
      rcases h.origin with hkept | ⟨forest, found, home, hnew⟩
      · refine standing?_of_lt fun old hold => ?_
        have hmine : handle.cached = some old := hcached.symm.trans (hkept.trans hold)
        simpa [Handle.isCurrent, hmine] using hcurrent
      · exact (hrenewed hnew).2
    rw [hnone, Handle.held, Handle.cached_read hcurrent, hvalue]
    rfl

/-- While a change of a leaf is told, a handle shows the tree as it is from the moment on at which
its root has been told, and in particular to those whom the root tells. Until then it shows
what it showed before the change, if it had been read since the change before that. -/
theorem read_while_told {moves work : List (Move V)} {call : Call V} {leaf : NodeId} {edit : Edit}
    {handle : Handle V} {registry : Registry V} {value : V}
    (hplay : ({} : Engine V).play? moves = some before)
    (hmove : before.move? (.call call) = some start) (hedit : before.editOf? leaf call = some edit)
    (hwork : start.play? work = some now) (hcalm : ∀ move ∈ work, move.isChange = false)
    (habove : start.staysAbove before.stack.length work = true)
    (hinside : before.stack.length < now.stack.length) (hacyclic : now.forest.Acyclic)
    (hhandle : now.handleAt? id = some handle)
    (hregistry : now.registryAt? handle.registry = some registry)
    (hvalue : handle.resolve registry.policy (now.forest.tree registry.root) = .ok value) :
    (∀ observer, now.callback? = some (.node observer registry.root) →
        before.forest.version registry.root < now.forest.version registry.root) ∧
      (before.forest.version registry.root < now.forest.version registry.root →
        (now.read id).1 = some value) ∧
      (now.forest.version registry.root = before.forest.version registry.root →
        (now.read id).1 =
          some ((before.standing? id (before.forest.version registry.root)).getD value)) := by
  have hkeeps : before.Keeps start :=
    (does_of_move? hmove).keeps (keeps_of_play? hplay sound_empty).sound
  obtain ⟨-, hstart⟩ := Option.ite_none_right_eq_some.mp hmove
  obtain rfl := Option.some.inj hstart
  obtain ⟨hhandles, htells⟩ := start_of_editOf? hedit
  have hsame : (before.start call).cached? id = before.cached? id := by
    rw [cached?, cached?, handleAt?, handleAt?, hhandles]
  have hstart : before.Amid id (before.start call) :=
    ⟨hkeeps.sound, hkeeps.since, (does_of_move? hmove).retains, htells, .inl hsame⟩
  have hnow := hstart.play hwork hcalm habove
  have hversion {old : Cached V} (hold : before.cached? id = some old) :
      old.version ≤ before.forest.version registry.root :=
    version_of_cached hplay hnow.retains hhandle hregistry hold
  have hread := hnow.read_eq hacyclic hhandle hregistry hvalue
  refine ⟨fun observer hcallback => ?_, fun hrise => ?_, fun hstands => ?_⟩
  · obtain ⟨above, hstack, htold⟩ := hnow.tells
    cases above with
    | nil => simp [hstack] at hinside
    | cons frame above =>
      obtain rfl : frame = .callback (.node observer registry.root) := by
        simp only [callback?, hstack, List.cons_append] at hcallback
        split at hcallback
        · simp_all
        · simp at hcallback
      exact htold _ List.mem_cons_self _ rfl
  · rw [hread, standing?_of_lt fun old hold => Nat.lt_of_le_of_lt (hversion hold) hrise]
    rfl
  · rw [hread, hstands]

/-- A leaf that is observed before it is put into a composite, which is observed too, and a handle
for its key under the composite. -/
def observedBelow : List (Move Nat) :=
  [.call (.settable "leaf" (.ofPairs [("key", "one")])), .call (.hold [.node 0]),
    .call (.observe 0 7), .call (.composite "root"), .call (.hold [.node 0, .node 1]),
    .call (.attach 1 .last "leaf" 0), .step, .call (.observe 1 8),
    .call (.openRegistry 1 .fail "," false),
    .call (.request 0 "key" "number" 0 fun text => .ok (if text = "one" then 1 else 2))]

/-- The root is told after the leaf's observer, and its own observer after that. -/
theorem read_while_told_above : ∃ before start now : Engine Nat,
    ({} : Engine Nat).play? observedBelow = some before ∧
      before.move? (.call (.edit 0 (.set "key" "two"))) = some start ∧
      start.play? [.step, .resume, .step, .step] = some now ∧
      now.callback? = some (.node 8 1) ∧ (now.read 0).1 = some 2 := by
  have hrun : (({} : Engine Nat).play? observedBelow).any (fun before =>
      (before.move? (.call (.edit 0 (.set "key" "two")))).any fun start =>
        start.staysAbove before.stack.length [.step, .resume, .step, .step] &&
          (start.play? [.step, .resume, .step, .step]).any fun now =>
            before.stack.length < now.stack.length && now.callback? = some (.node 8 1) &&
              (∀ parent ∈ List.range now.forest.nodes.length,
                ∀ child ∈ now.forest.children parent, child.node < parent) &&
              (now.handleAt? 0).any fun handle =>
                (now.registryAt? handle.registry).any fun registry => registry.root = 1 &&
                  (handle.resolve registry.policy (now.forest.tree registry.root)).toOption =
                    some 2) = true := by
    cbv
  simp only [Option.any_eq_true, Bool.and_eq_true, decide_eq_true_eq] at hrun
  obtain ⟨before, hplay, start, hmove, habove, now, hwork, ⟨⟨hinside, hcallback⟩, hacyclic⟩, handle,
    hhandle, registry, hregistry, hroot, hvalue⟩ := hrun
  have hvalue : handle.resolve registry.policy (now.forest.tree registry.root) = .ok 2 := by
    cases hresolve : handle.resolve registry.policy (now.forest.tree registry.root) with
    | error error => simp [hresolve, Except.toOption] at hvalue
    | ok value => simpa [hresolve, Except.toOption] using hvalue
  have hedit : before.editOf? 0 (.edit 0 (.set "key" "two")) = some (.set "key" "two") := rfl
  obtain ⟨htold, hread, -⟩ := read_while_told hplay hmove hedit hwork (by simp [Move.isChange])
    habove hinside (Forest.acyclic_of_lt hacyclic) hhandle hregistry hvalue
  rw [← hroot] at hcallback
  exact ⟨before, start, now, hplay, hmove, hwork, hroot ▸ hcallback, hread (htold 8 hcallback)⟩

/-- The leaf's observer is called before the root has been told, and reads the old value while the
tree below the root has the new one. -/
theorem read_before_told : ∃ (before start now : Engine Nat) (handle : Handle Nat)
    (registry : Registry Nat), ({} : Engine Nat).play? observedBelow = some before ∧
      before.move? (.call (.edit 0 (.set "key" "two"))) = some start ∧
      start.play? [.step] = some now ∧ now.callback? = some (.node 7 0) ∧ now.forest.Acyclic ∧
      now.handleAt? 0 = some handle ∧ now.registryAt? handle.registry = some registry ∧
      now.forest.Reaches registry.root 0 ∧
      (handle.resolve registry.policy (now.forest.tree registry.root)).toOption = some 2 ∧
      (now.read 0).1 = some 1 := by
  have hrun : (({} : Engine Nat).play? observedBelow).any (fun before =>
      (before.move? (.call (.edit 0 (.set "key" "two")))).any fun start =>
        (start.play? [.step]).any fun now => now.callback? = some (.node 7 0) &&
          (∀ parent ∈ List.range now.forest.nodes.length,
            ∀ child ∈ now.forest.children parent, child.node < parent) &&
          (now.read 0).1 = some 1 && (now.handleAt? 0).any fun handle =>
            (now.registryAt? handle.registry).any fun registry =>
              ⟨"leaf", 0, 0⟩ ∈ now.forest.children registry.root &&
                (handle.resolve registry.policy (now.forest.tree registry.root)).toOption =
                  some 2) = true := by
    cbv
  simp only [Option.any_eq_true, Bool.and_eq_true, decide_eq_true_eq] at hrun
  obtain ⟨before, hplay, start, hmove, now, hwork, ⟨⟨hcallback, hacyclic⟩, hread⟩, handle, hhandle,
    registry, hregistry, hchild, hvalue⟩ := hrun
  exact ⟨before, start, now, handle, registry, hplay, hmove, hwork, hcallback,
    Forest.acyclic_of_lt hacyclic, hhandle, hregistry, .single ⟨_, hchild, rfl⟩, hvalue, hread⟩

end Engine

end Overlay

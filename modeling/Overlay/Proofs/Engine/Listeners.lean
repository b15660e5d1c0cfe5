import Mathlib.Data.List.Nodup
import Overlay.Proofs.Engine.Queues

/-!
# Listeners

Who listens to a handle changes by registration, at the end of the list, and by
removal (`listeners_of_turn`). In the engines of runs (`Tidy`) nobody listens twice,
every handle has been read, and what waits for a notifier tells of handles of eager
registries.
-/

namespace Overlay.Engine

variable {V : Type} {engine before middle after : Engine V} {id : HandleId}
  {listener : ListenerId}

theorem Retains.isEager_of_some (h : before.Retains after) {handle : Handle V}
    {registry : Registry V} (hhandle : before.handleAt? id = some handle)
    (hregistry : before.registryAt? handle.registry = some registry) :
    after.isEager id = before.isEager id := by
  obtain ⟨next, hnext, hbare⟩ := h.handle id handle hhandle
  obtain ⟨home, hhome, hterms⟩ := h.registry _ registry hregistry
  have hsame : next.registry = handle.registry := congrArg (·.registry) hbare
  rw [isEager_eq hnext (hsame ▸ hhome), isEager_eq hhandle hregistry]
  exact congrArg (·.eager) hterms

theorem Retains.isEager (h : before.Retains after) (heager : before.isEager id = true) :
    after.isEager id = true := by
  have hany := heager
  unfold Engine.isEager at hany
  obtain ⟨registry, hsome, -⟩ := (Option.any_eq_true _ _).mp hany
  obtain ⟨handle, hhandle, hregistry⟩ := Option.bind_eq_some_iff.mp hsome
  exact (h.isEager_of_some hhandle hregistry).trans heager

/-- Does the handle's registry leave it to readers to announce changes? -/
def isLazy (engine : Engine V) (id : HandleId) : Bool :=
  ((engine.handleAt? id).bind fun handle => engine.registryAt? handle.registry).any (!·.eager)

theorem isLazy_iff : engine.isLazy id = true ↔ ∃ handle registry,
    engine.handleAt? id = some handle ∧ engine.registryAt? handle.registry = some registry ∧
      registry.eager = false := by
  rw [isLazy, Option.any_eq_true]
  constructor
  · rintro ⟨registry, hsome, hlazy⟩
    obtain ⟨handle, hhandle, hregistry⟩ := Option.bind_eq_some_iff.mp hsome
    exact ⟨handle, registry, hhandle, hregistry, by simpa using hlazy⟩
  · rintro ⟨handle, registry, hhandle, hregistry, hlazy⟩
    exact ⟨registry, Option.bind_eq_some_iff.mpr ⟨handle, hhandle, hregistry⟩, by simpa using hlazy⟩

theorem isEager_of_isLazy (h : engine.isLazy id = true) : engine.isEager id = false := by
  obtain ⟨handle, registry, hhandle, hregistry, heager⟩ := isLazy_iff.mp h
  rw [isEager_eq hhandle hregistry, heager]

theorem Retains.isLazy (h : before.Retains after) (hlazy : before.isLazy id = true) :
    after.isLazy id = true := by
  obtain ⟨handle, registry, hhandle, hregistry, heager⟩ := isLazy_iff.mp hlazy
  obtain ⟨next, hnext, hbare⟩ := h.handle id handle hhandle
  obtain ⟨home, hhome, hterms⟩ := h.registry _ registry hregistry
  have hsame : next.registry = handle.registry := congrArg (·.registry) hbare
  exact isLazy_iff.mpr
    ⟨next, home, hnext, hsame ▸ hhome, (congrArg (·.eager) hterms).trans heager⟩

-- ---------------------------------------------------------------------------
-- Registration and removal
-- ---------------------------------------------------------------------------

theorem listeners_congr (h : after.handles = before.handles) (id : HandleId) :
    after.listeners id = before.listeners id := by
  rw [listeners, listeners, handleAt?, handleAt?, h]

theorem listeners_enroll {handle : Handle V} (hfresh : handle.Fresh) (id : HandleId) :
    (engine.enroll handle).listeners id = engine.listeners id := by
  simp only [listeners, enroll, modifyRegistry, handleAt?]
  rcases getElem?_concat_cases engine.handles handle id with hold | ⟨hnone, hnew⟩
  · rw [hold]
  · rw [hnone, hnew]
    exact hfresh.listeners

theorem listeners_modifyHandle {f : Handle V → Handle V} {other : HandleId} (hother : other ≠ id) :
    (engine.modifyHandle id f).listeners other = engine.listeners other := by
  rw [listeners, handleAt?_modifyHandle, Option.map_map, listeners]
  refine congrArg (Option.getD · []) (Option.map_congr fun handle _ => ?_)
  rw [Function.comp_apply, if_neg (Ne.symm hother)]

theorem listeners_listen {handle : Handle V} (hhandle : engine.handleAt? id = some handle) :
    (engine.modifyHandle id (·.listen listener)).listeners id =
      (handle.listen listener).listeners := by
  rw [listeners, handleAt?_modifyHandle, hhandle]
  simp

variable [BEq V] {move : Move V}

/-- Who listens to a handle changes in two ways. -/
theorem listeners_of_turn (h : before.Turn move after) (id : HandleId) :
    after.listeners id = before.listeners id ∨
      (∃ listener rest, before.stack = .listen id listener :: rest ∧
        listener ∉ before.listeners id ∧
        after.listeners id = before.listeners id ++ [listener]) ∨
      ∃ listener, move = .call (.unlisten id listener) ∧
        after.listeners id = (before.listeners id).filter (· ≠ listener) := by
  cases h with
  | calm h _ _ _ => exact .inl (listeners_congr h.handles id)
  | read h =>
    left
    rw [listeners_refreshHandle]
    exact listeners_congr h.handles id
  | request hfresh _ =>
    left
    rw [listeners_refreshHandle]
    exact listeners_enroll hfresh id
  | openRegistry _ => exact .inl (listeners_congr handles_openRegistry id)
  | closeRegistry => exact .inl (listeners_congr handles_closeRegistry id)
  | @unlisten removed listener =>
    by_cases hid : id = removed
    · subst hid
      refine .inr (.inr ⟨listener, rfl, ?_⟩)
      rw [listeners, handleAt?_modifyHandle, listeners]
      cases before.handleAt? id with
      | none => rfl
      | some handle => simp
    · exact .inl (listeners_modifyHandle hid)
  | @listen added listener rest hstack =>
    rw [listeners_refreshHandle]
    by_cases hid : id = added
    · subst hid
      cases hhandle : before.handleAt? id with
      | none =>
        left
        rw [listeners, handleAt?_modifyHandle, listeners]
        rw [show Engine.handleAt? { before with stack := rest } id = none from hhandle, hhandle]
        rfl
      | some handle =>
        rw [listeners_listen (show Engine.handleAt? { before with stack := rest } id = some handle
          from hhandle), listeners_eq hhandle, Handle.listen]
        split
        · exact .inl rfl
        · rename_i hmem
          exact .inr (.inl ⟨listener, rest, hstack, hmem, rfl⟩)
    · exact .inl (listeners_modifyHandle hid)
  | refresh _ => exact .inl (listeners_refreshHandle _ _ _)
  | _ => exact .inl rfl

theorem nodup_of_turn (h : before.Turn move after) (hnodup : (before.listeners id).Nodup) :
    (after.listeners id).Nodup := by
  rcases listeners_of_turn h id with heq | ⟨listener, _, -, hmem, heq⟩ | ⟨listener, -, heq⟩
  · rwa [heq]
  · rw [heq]
    rw [← List.concat_eq_append, List.nodup_concat]
    exact ⟨hmem, hnodup⟩
  · rw [heq]
    exact hnodup.filter _

/-- Who is not removed goes on listening. -/
theorem mem_listeners_of_turn (h : before.Turn move after)
    (hstays : move ≠ .call (.unlisten id listener)) (hmem : listener ∈ before.listeners id) :
    listener ∈ after.listeners id := by
  rcases listeners_of_turn h id with heq | ⟨other, _, -, -, heq⟩ | ⟨other, rfl, heq⟩
  · rwa [heq]
  · rw [heq]
    exact List.mem_append_left _ hmem
  · rw [heq, List.mem_filter]
    refine ⟨hmem, decide_eq_true ?_⟩
    rintro rfl
    exact hstays rfl

/-- A move that makes somebody a listener does the registration that is next. -/
theorem stack_of_registered (h : before.Turn move after) (hnew : listener ∉ before.listeners id)
    (hmem : listener ∈ after.listeners id) : ∃ rest, before.stack = .listen id listener :: rest := by
  rcases listeners_of_turn h id with heq | ⟨other, rest, hstack, -, heq⟩ | ⟨other, -, heq⟩
  · exact absurd (heq ▸ hmem) hnew
  · rw [heq] at hmem
    obtain rfl := List.mem_singleton.mp ((List.mem_append.mp hmem).resolve_left hnew)
    exact ⟨rest, hstack⟩
  · rw [heq] at hmem
    exact absurd (List.mem_filter.mp hmem).1 hnew

/-- Who is first in line stays first. -/
theorem head_listeners_of_turn (h : before.Turn move after)
    (hstays : move ≠ .call (.unlisten id listener))
    (hhead : (before.listeners id).head? = some listener) :
    (after.listeners id).head? = some listener := by
  obtain ⟨others, hlisteners⟩ := List.head?_eq_some_iff.mp hhead
  rcases listeners_of_turn h id with heq | ⟨other, _, -, -, heq⟩ | ⟨other, rfl, heq⟩
  · rwa [heq]
  · rw [heq, hlisteners]
    rfl
  · have hne : listener ≠ other := by
      rintro rfl
      exact hstays rfl
    rw [heq, hlisteners, List.filter_cons_of_pos (by simpa using hne)]
    rfl

-- ---------------------------------------------------------------------------
-- Handles that have been read
-- ---------------------------------------------------------------------------

/-- Every handle has been read. -/
def AllRead (engine : Engine V) : Prop :=
  ∀ id, (engine.handleAt? id).isSome → (engine.cached? id).isSome

omit [BEq V] in
theorem AllRead.congr (h : before.AllRead) (hcached : ∀ id, after.cached? id = before.cached? id)
    (hhandle : ∀ id, (after.handleAt? id).isSome = (before.handleAt? id).isSome) :
    after.AllRead := by
  intro id hsome
  rw [hcached]
  exact h id (hhandle id ▸ hsome)

omit [BEq V] in
theorem AllRead.of_handles_eq (h : before.AllRead) (hhandles : after.handles = before.handles) :
    after.AllRead :=
  h.congr (cached?_congr hhandles) fun _ => by rw [handleAt?, handleAt?, hhandles]

omit [BEq V] in
theorem isSome_modifyHandle {f : Handle V → Handle V} {other : HandleId} :
    ((engine.modifyHandle id f).handleAt? other).isSome = (engine.handleAt? other).isSome := by
  rw [handleAt?_modifyHandle, Option.isSome_map]

theorem isSome_handleAt?_refreshHandle (engine : Engine V) (read id : HandleId) :
    ((engine.refreshHandle read).handleAt? id).isSome = (engine.handleAt? id).isSome := by
  have hhome := congrArg Option.isSome (home_refreshHandle engine read id)
  rwa [Option.isSome_map, Option.isSome_map] at hhome

/-- A handle that is read has been read. -/
theorem isSome_cached?_refreshHandle {handle : Handle V}
    (hhandle : engine.handleAt? id = some handle)
    (hhome : (engine.registryAt? handle.registry).isSome) :
    ((engine.refreshHandle id).cached? id).isSome := by
  obtain ⟨registry, hregistry⟩ := Option.isSome_iff_exists.mp hhome
  rw [cached?_refreshHandle (reading?_eq_some.mpr ⟨handle, registry, hhandle, hregistry, rfl⟩)]
  cases hcurrent : handle.isCurrent (engine.forest.version registry.root) with
  | false =>
    rw [Handle.cached_read hcurrent]
    rfl
  | true =>
    obtain ⟨cached, hcached, -⟩ := Handle.exists_of_isCurrent hcurrent
    rw [Handle.read_of_isCurrent hcurrent, hcached]
    rfl

theorem AllRead.refreshHandle (h : engine.AllRead) (read : HandleId) :
    (engine.refreshHandle read).AllRead := by
  intro id hsome
  rw [isSome_handleAt?_refreshHandle] at hsome
  by_cases hread : id = read
  · subst hread
    obtain ⟨handle, hhandle⟩ := Option.isSome_iff_exists.mp hsome
    cases hregistry : engine.registryAt? handle.registry with
    | none =>
      have hnone : engine.reading? id = none := by simp [reading?, hhandle, hregistry]
      rw [refreshHandle_of_none hnone]
      exact h id hsome
    | some registry =>
      exact isSome_cached?_refreshHandle hhandle (Option.isSome_of_eq_some hregistry)
  · rw [(retains_refreshHandle engine read).2 id hread]
    exact h id hsome

theorem AllRead.turn (h : before.AllRead) (hturn : before.Turn move after) : after.AllRead := by
  cases hturn with
  | calm hcalm _ _ _ => exact h.of_handles_eq hcalm.handles
  | read hcalm => exact (h.of_handles_eq hcalm.handles).refreshHandle _
  | @request _ handle hfresh hhome =>
    intro id hsome
    rw [isSome_handleAt?_refreshHandle] at hsome
    by_cases hid : id = before.handles.length
    · subst hid
      have hmade : (before.enroll handle).handleAt? before.handles.length = some handle :=
        List.getElem?_concat_length
      refine isSome_cached?_refreshHandle hmade ?_
      show ((before.modifyRegistry handle.registry _).registryAt? handle.registry).isSome
      rw [registryAt?_modifyRegistry, Option.isSome_map]
      exact hhome
    · rw [(retains_refreshHandle _ _).2 id hid, cached?_enroll hfresh]
      refine h id ?_
      rcases getElem?_concat_cases before.handles handle id with hold | ⟨hnone, hnew⟩
      · exact (congrArg Option.isSome hold).symm.trans hsome
      · exact absurd (eq_length_of_concat hnone hnew).1 hid
  | openRegistry _ => exact h.of_handles_eq handles_openRegistry
  | closeRegistry => exact h.of_handles_eq handles_closeRegistry
  | unlisten => exact h.congr (spares_modifyListeners _).cached fun _ => isSome_modifyHandle
  | listen _ =>
    refine AllRead.refreshHandle (h.congr ?_ ?_) _
    · exact fun _ => cached?_listen _ _ _
    · exact fun _ => isSome_modifyHandle
  | refresh _ =>
    refine AllRead.refreshHandle ?_ _
    exact h
  | _ => exact h

-- ---------------------------------------------------------------------------
-- Tidy engines
-- ---------------------------------------------------------------------------

structure Tidy (engine : Engine V) : Prop where
  /-- Nobody listens twice. -/
  nodup : ∀ id, (engine.listeners id).Nodup
  read : engine.AllRead
  waiting : ∀ notice ∈ engine.waiting, engine.isEager notice.handle = true
  posted : ∀ home, ∀ notice ∈ engine.posted home, engine.isEager notice.handle = true

omit [BEq V] in
theorem tidy_empty : ({} : Engine V).Tidy where
  nodup _ := List.nodup_nil
  read _ h := absurd h (by simp [handleAt?])
  waiting _ h := absurd h (by simp [Engine.waiting])
  posted _ _ h := absurd h (by simp [Engine.posted, queue, registryAt?, deliveries])

theorem Does.retains (h : before.Does after) : before.Retains after := by
  obtain ⟨middle, hwork, rfl | ⟨read, rfl⟩⟩ := h
  · exact hwork.spares.toRetains
  · exact hwork.spares.toRetains.trans (retains_refreshHandle middle read).1

/-- A notifier takes up what waits for it or what is queued. -/
theorem Tidy.job (h : before.Tidy) (hturn : before.Turn move after) {notice : Notice V}
    (hjob : before.job? move = some notice) : before.isEager notice.handle = true := by
  cases move with
  | wake id =>
    have hposted := (posted_of_wake hturn).1
    rw [hjob] at hposted
    exact h.posted id notice (hposted ▸ by simp)
  | _ =>
    have hwaiting := waiting_of_turn hturn rfl
    rw [hjob] at hwaiting
    exact h.waiting notice (hwaiting ▸ by simp)

theorem Tidy.play_move (h : before.Tidy) (hmove : before.move? move = some after) : after.Tidy := by
  have hturn := turn_of_move? hmove
  have hretains := (does_of_move? hmove).retains
  refine ⟨fun id => nodup_of_turn hturn (h.nodup id), h.read.turn hturn, fun notice hmem => ?_,
    fun home notice hmem => ?_⟩
  · refine hretains.isEager ?_
    cases move with
    | wake id =>
      have hposted := (posted_of_wake hturn).1
      exact h.posted id notice (hposted ▸ by simp [hmem])
    | _ =>
      have hwaiting := waiting_of_turn hturn rfl
      exact h.waiting notice (hwaiting ▸ by simp [hmem])
  · by_cases hold : notice ∈ before.posted home
    · exact hretains.isEager (h.posted home notice hold)
    · cases move with
      | wake id =>
        obtain ⟨hposted, hothers⟩ := posted_of_wake hturn
        by_cases hhome : home = id
        · subst hhome
          exact absurd (hposted ▸ by simp [hmem]) hold
        · rw [Engine.posted, hothers home hhome] at hmem
          exact absurd hmem hold
      | _ =>
        obtain ⟨tasks, hqueue, hnews⟩ := queue_of_turn hturn rfl home
        rw [Engine.posted, hqueue, deliveries_append] at hmem
        have hadded := (List.mem_append.mp hmem).resolve_left hold
        have hfound : notice ∈ (deliveries tasks).filter (·.handle = notice.handle) :=
          List.mem_filter.mpr ⟨hadded, by simp⟩
        rw [hnews] at hfound
        split at hfound
        · rename_i hnotifies
          exact (Bool.and_eq_true _ _ ▸ hnotifies).2
        · exact absurd hfound (by simp)

theorem tidy_of_play? {moves : List (Move V)} (h : ({} : Engine V).play? moves = some engine) :
    engine.Tidy :=
  play?_induction h tidy_empty fun htidy hmove => htidy.play_move hmove

end Overlay.Engine

import Overlay.Proofs.Engine.Mirroring
import Overlay.Proofs.Engine.Order

/-!
# Moves without the others

A move about a kept handle, or about none, is made by a mirror as well (`Mirrors.move`), and the
same comes of it (`Mirrors.result?_eq`). Any other move is not made there, and leaves nothing behind
but work about handles that are not kept (`Trails.other`): such work lies on top, and is done before
anything else is, unless a listener that is called starts an operation.
-/

namespace Overlay

/-- What comes of a move about a handle. -/
inductive Outcome (V : Type)
  /-- The value that the handle held once it had been read. -/
  | value (value : Option V)
  /-- Was the listener registered that was to be removed? -/
  | removed (found : Bool)
  | told (listener : ListenerId) (event : Event V)
deriving DecidableEq

namespace Engine

variable {V : Type} {keep : HandleId → Bool} {whole part after : Engine V} {id : HandleId}

theorem Mirrors.pop (h : whole.Mirrors keep part) {frame : Frame V} {rest : List (Frame V)}
    (hstack : whole.stack = frame :: rest) :
    ∃ frame' rest', frame.only? keep = some frame' ∧ part.stack = frame' :: rest' ∧
      { whole with stack := rest }.Mirrors keep { part with stack := rest' } := by
  have hmap := h.stack
  rw [hstack, List.map_cons] at hmap
  cases hpart : part.stack with
  | nil => simp [hpart] at hmap
  | cons frame' rest' =>
    rw [hpart, List.map_cons, List.cons.injEq] at hmap
    exact ⟨frame', rest', hmap.1, rfl, h.forest, h.registries, h.handles, h.pollers, hmap.2⟩

theorem Mirrors.stack_of_nil (h : whole.Mirrors keep part) (hstack : whole.stack = []) :
    part.stack = [] := by
  have hmap := h.stack
  rw [hstack] at hmap
  exact List.map_eq_nil_iff.mp hmap.symm

theorem subject?_of_other {frame : Frame V} (h : frame.only? keep = none) :
    ∃ id, frame.subject? = some id ∧ keep id = false := by
  cases frame with
  | deliver notice =>
    refine ⟨notice.handle, rfl, ?_⟩
    simpa [Frame.only?, Notice.only?] using h
  | callback call =>
    cases call with
    | node observer node => simp [Frame.only?, Callback.only?] at h
    | property listener handle event =>
      refine ⟨handle, rfl, ?_⟩
      simpa [Frame.only?, Callback.only?] using h
  | listen handle listener =>
    refine ⟨handle, rfl, ?_⟩
    simpa [Frame.only?] using h
  | _ => simp [Frame.only?] at h

theorem Trails.mirrors_or (h : whole.Trails keep part) : whole.Mirrors keep part ∨
    ∃ frame rest, whole.stack = frame :: rest ∧ frame.only? keep = none ∧
      { whole with stack := rest }.Trails keep part := by
  obtain ⟨above, below, hstack, habove, hbelow⟩ := h
  cases above with
  | nil =>
    left
    obtain rfl : whole.stack = below := hstack
    exact hbelow
  | cons frame above =>
    refine .inr ⟨frame, above ++ below, hstack, habove frame List.mem_cons_self, above, below, rfl,
      fun other hmem => habove other (List.mem_cons_of_mem _ hmem), hbelow⟩

section
variable [BEq V]

theorem Mirrors.step (h : whole.Mirrors keep part) (hheld : part.heldNodes = whole.heldNodes)
    (hkeep : (whole.subject? .step).all keep = true) (hstep : whole.step = some after) :
    ∃ next, part.step = some next ∧ after.Mirrors keep next := by
  unfold Engine.step at hstep ⊢
  cases hstack : whole.stack with
  | nil => simp [hstack] at hstep
  | cons frame rest =>
    obtain ⟨frame', rest', hframe, hpart, hpopped⟩ := h.pop hstack
    simp only [hstack, hpart] at hstep ⊢
    exact hpopped.run hheld hframe (by simpa [subject?, hstack] using hkeep) hstep

theorem Trails.stepOther (h : whole.Trails keep part) (hsubject : whole.subject? .step = some id)
    (hkeep : keep id = false) (hstep : whole.step = some after) : after.Trails keep part := by
  unfold Engine.step at hstep
  rcases h.mirrors_or with hmirrors | ⟨frame, rest, hstack, hframe, hrest⟩
  · cases hstack : whole.stack with
    | nil => simp [hstack] at hstep
    | cons frame rest =>
      obtain ⟨frame', rest', hframe, hpart, hpopped⟩ := hmirrors.pop hstack
      simp only [hstack] at hstep
      have hnext := hpopped.runOther hframe (by simpa [subject?, hstack] using hsubject) hkeep hstep
      have hsame : { part with stack := rest' }.push frame' = part := by
        rw [push, ← hpart]
      exact hsame ▸ hnext
  · simp only [hstack] at hstep
    exact hrest.runOther hframe hstep

omit [BEq V] in
theorem Mirrors.resume (h : whole.Mirrors keep part) (hcallback : whole.callback?.isSome) :
    part.callback?.isSome ∧ whole.resume.Mirrors keep part.resume := by
  cases hstack : whole.stack with
  | nil => simp [callback?, hstack] at hcallback
  | cons frame rest =>
    obtain ⟨frame', rest', hframe, hpart, hpopped⟩ := h.pop hstack
    cases frame with
    | callback call =>
      simp only [Frame.only?, Option.map_eq_some_iff] at hframe
      obtain ⟨call', -, rfl⟩ := hframe
      refine ⟨by simp [callback?, hpart], ?_⟩
      simp only [Engine.resume, hstack, hpart]
      exact hpopped
    | _ => simp [callback?, hstack] at hcallback

/-- A listener of a handle that is not kept returns. -/
theorem Trails.resumeOther (h : whole.Trails keep part) (hcallback : whole.callback?.isSome)
    (hsubject : whole.subject? .resume = some id) (hkeep : keep id = false) :
    whole.resume.Trails keep part := by
  rcases h.mirrors_or with hmirrors | ⟨frame, rest, hstack, -, hrest⟩
  · cases hstack : whole.stack with
    | nil => simp [callback?, hstack] at hcallback
    | cons frame rest =>
      obtain ⟨frame', -, hframe, -⟩ := hmirrors.pop hstack
      cases frame with
      | callback call =>
        cases call with
        | node observer node => simp [subject?, hstack, Frame.subject?] at hsubject
        | property listener handle event =>
          obtain rfl : handle = id := by simpa [subject?, hstack, Frame.subject?] using hsubject
          simp [Frame.only?, Callback.only?, hkeep] at hframe
      | _ => simp [callback?, hstack] at hcallback
  · cases frame with
    | callback call =>
      simp only [Engine.resume, hstack]
      exact hrest
    | _ => simp [callback?, hstack] at hcallback

omit [BEq V] in
theorem deliveries_filterMap_only? (tasks : List (Task V)) :
    deliveries (tasks.filterMap (·.only? keep)) = (deliveries tasks).filterMap (·.only? keep) := by
  simp only [deliveries, List.filterMap_filterMap]
  congr 1
  funext task
  cases task with
  | refreshAll => rfl
  | deliver notice => cases hnotice : notice.only? keep <;> simp [Task.only?, hnotice]

theorem Mirrors.takeTask (h : whole.Mirrors keep part) {home : RegistryId}
    (hkeep : (whole.subject? (.wake home)).all keep = true)
    (htake : whole.takeTask home = some after) :
    ∃ next, part.takeTask home = some next ∧ after.Mirrors keep next := by
  unfold Engine.takeTask at htake ⊢
  cases hregistry : whole.registryAt? home with
  | none => simp [hregistry] at htake
  | some registry =>
    rw [h.registryAt?_eq, hregistry]
    simp only [hregistry, Option.map_some, Registry.only] at htake ⊢
    cases hqueue : registry.queue with
    | nil => simp [hqueue] at htake
    | cons task rest =>
      cases task with
      | refreshAll =>
        simp only [hqueue] at htake
        obtain rfl := Option.some.inj htake
        have htask : (Task.refreshAll : Task V).only? keep = some .refreshAll := rfl
        rw [List.filterMap_cons_some htask]
        refine ⟨_, rfl, Mirrors.push (h.modifyRegistry fun _ _ => ?_) ?_⟩
        · rfl
        · rw [deliveries_filterMap_only?]
          rfl
      | deliver notice =>
        simp only [hqueue] at htake
        obtain rfl := Option.some.inj htake
        have hhandle : keep notice.handle = true := by
          simpa [subject?, queue, hregistry, hqueue, Task.subject?] using hkeep
        have htask : (Task.deliver notice).only? keep =
            some (.deliver { notice with handle := place keep notice.handle }) := by
          simp [Task.only?, Notice.only?, hhandle]
        rw [List.filterMap_cons_some htask]
        refine ⟨_, rfl, Mirrors.push (h.modifyRegistry fun _ _ => ?_) ?_⟩
        · rfl
        · simp [Frame.only?, Notice.only?, hhandle]

theorem Mirrors.takeOther (h : whole.Mirrors keep part) {home : RegistryId}
    (hsubject : whole.subject? (.wake home) = some id) (hkeep : keep id = false)
    (htake : whole.takeTask home = some after) : after.Trails keep part := by
  unfold Engine.takeTask at htake
  cases hregistry : whole.registryAt? home with
  | none => simp [hregistry] at htake
  | some registry =>
    simp only [hregistry] at htake
    cases hqueue : registry.queue with
    | nil => simp [hqueue] at htake
    | cons task rest =>
      cases task with
      | refreshAll => simp [subject?, queue, hregistry, hqueue, Task.subject?] at hsubject
      | deliver notice =>
        simp only [hqueue] at htake
        obtain rfl := Option.some.inj htake
        obtain rfl : notice.handle = id := by
          simpa [subject?, queue, hregistry, hqueue, Task.subject?] using hsubject
        have hnotice : notice.only? keep = none := by simp [Notice.only?, hkeep]
        refine (h.modifyAlone fun found hfound => ?_).trails.pushOther
          (by simp [Frame.only?, hnotice])
        obtain rfl := Option.some.inj (hregistry.symm.trans hfound)
        simp [Registry.only, hqueue, Task.only?, hnotice]

-- ---------------------------------------------------------------------------
-- Moves
-- ---------------------------------------------------------------------------

omit [BEq V] in
theorem Mirrors.isIdle_eq (h : whole.Mirrors keep part) : part.isIdle = whole.isIdle := by
  simp only [isIdle]
  cases hstack : whole.stack with
  | nil => rw [h.stack_of_nil hstack]
  | cons frame rest =>
    obtain ⟨frame', rest', -, hpart, -⟩ := h.pop hstack
    rw [hpart]
    rfl

theorem Mirrors.move (h : whole.Mirrors keep part) (hheld : part.heldNodes = whole.heldNodes)
    {move : Move V} (hkeep : (whole.subject? move).all keep = true)
    (hmove : whole.move? move = some after) :
    ∃ next, part.move? (whole.moveOnly keep move) = some next ∧ after.Mirrors keep next := by
  cases move with
  | call call =>
    obtain ⟨⟨hwaiting, hallows⟩, hstart⟩ := Option.ite_none_right_eq_some.mp hmove
    obtain rfl := Option.some.inj hstart
    refine ⟨part.start (whole.callOnly keep call), ?_, h.start hkeep⟩
    refine if_pos ⟨?_, h.allows hallows⟩
    rw [isWaiting, Bool.or_eq_true] at hwaiting ⊢
    rw [h.isIdle_eq]
    exact hwaiting.imp_right fun hcallback => (h.resume hcallback).1
  | step => exact h.step hheld hkeep hmove
  | resume =>
    obtain ⟨hcallback, hresume⟩ := Option.ite_none_right_eq_some.mp hmove
    obtain rfl := Option.some.inj hresume
    exact ⟨part.resume, if_pos (h.resume hcallback).1, (h.resume hcallback).2⟩
  | wake home =>
    obtain ⟨hidle, htake⟩ := Option.ite_none_right_eq_some.mp hmove
    obtain ⟨next, hnext, hmirrors⟩ := h.takeTask hkeep htake
    exact ⟨next, (if_pos (h.isIdle_eq.trans hidle)).trans hnext, hmirrors⟩

omit [BEq V] in
theorem Trails.mirrors_of_idle (h : whole.Trails keep part) (hidle : whole.isIdle = true) :
    whole.Mirrors keep part := by
  rcases h.mirrors_or with hmirrors | ⟨frame, rest, hstack, -⟩
  · exact hmirrors
  · simp [isIdle, hstack] at hidle

/-- Whoever is called, it is no listener of a handle that is not kept. -/
theorem Trails.mirrors_of_subject (h : whole.Trails keep part)
    (hquiet : (whole.subject? .resume).all keep = true) : whole.Mirrors keep part := by
  rcases h.mirrors_or with hmirrors | ⟨frame, rest, hstack, hframe, -⟩
  · exact hmirrors
  · obtain ⟨id, hsubject, hkeep⟩ := subject?_of_other hframe
    simp [subject?, hstack, hsubject, hkeep] at hquiet

/-- A move about a handle that is not kept. -/
theorem Trails.other (h : whole.Trails keep part) {move : Move V}
    (hquiet : move.isCall = true → (whole.subject? .resume).all keep = true)
    (hsubject : whole.subject? move = some id) (hkeep : keep id = false)
    (hmove : whole.move? move = some after) : after.Trails keep part := by
  cases move with
  | call call =>
    obtain ⟨-, hstart⟩ := Option.ite_none_right_eq_some.mp hmove
    obtain rfl := Option.some.inj hstart
    exact (h.mirrors_of_subject (hquiet rfl)).startOther hsubject hkeep
  | step => exact h.stepOther hsubject hkeep hmove
  | resume =>
    obtain ⟨hcallback, hresume⟩ := Option.ite_none_right_eq_some.mp hmove
    obtain rfl := Option.some.inj hresume
    exact h.resumeOther hcallback hsubject hkeep
  | wake home =>
    obtain ⟨hidle, htake⟩ := Option.ite_none_right_eq_some.mp hmove
    exact (h.mirrors_of_idle hidle).takeOther hsubject hkeep htake

/-- A move about a kept handle, or about none, is made while no work about others is in
progress. -/
theorem Trails.mirrors_of_move (h : whole.Trails keep part) {move : Move V}
    (hquiet : move.isCall = true → (whole.subject? .resume).all keep = true)
    (hkeep : (whole.subject? move).all keep = true) (hmove : whole.move? move = some after) :
    whole.Mirrors keep part := by
  cases move with
  | call call => exact h.mirrors_of_subject (hquiet rfl)
  | step => exact h.mirrors_of_subject hkeep
  | resume => exact h.mirrors_of_subject hkeep
  | wake home =>
    obtain ⟨hidle, -⟩ := Option.ite_none_right_eq_some.mp hmove
    exact h.mirrors_of_idle hidle

-- ---------------------------------------------------------------------------
-- What comes of a move
-- ---------------------------------------------------------------------------

/-- What comes of the move for whoever uses the handle that it is about. -/
def result? (engine : Engine V) : Move V → Option (Outcome V)
  | .call (.request registry key typeName fallback decode) =>
    let (id, made) := engine.request registry key typeName fallback decode
    some (.value ((made.handleAt? id).map (·.held)))
  | .call (.requestCustom registry key typeName fallback) =>
    (engine.requestCustom registry key typeName fallback).toOption.map fun (id, made) =>
      .value ((made.handleAt? id).map (·.held))
  | .call (.read id) => some (.value (engine.read id).1)
  | .call (.unlisten id listener) => some (.removed (engine.unlisten id listener).1)
  | .step =>
    match engine.stack with
    | .deliver ⟨_, event, listener :: _⟩ :: _ => some (.told listener event)
    | _ => none
  | _ => none

/-- What has come, in a run, of the moves about a handle. -/
def outcomes (engine : Engine V) (id : HandleId) (moves : List (Move V)) : List (Outcome V) :=
  engine.record (fun before move _ =>
    if before.subject? move = some id then (before.result? move).toList else []) moves

omit [BEq V] in
theorem subject?_of_only? {frame frame' : Frame V} (hframe : frame.only? keep = some frame')
    (hkeep : frame.subject?.all keep = true) :
    frame'.subject? = frame.subject?.map (place keep) := by
  cases frame with
  | deliver notice =>
    have hhandle : keep notice.handle = true := hkeep
    simp only [Frame.only?, Notice.only?, hhandle, if_true, Option.map_some] at hframe
    obtain rfl := Option.some.inj hframe
    rfl
  | callback call =>
    cases call with
    | node observer node =>
      obtain rfl := Option.some.inj hframe
      rfl
    | property listener handle event =>
      have hhandle : keep handle = true := hkeep
      simp only [Frame.only?, Callback.only?, hhandle, if_true, Option.map_some] at hframe
      obtain rfl := Option.some.inj hframe
      rfl
  | listen handle listener =>
    have hhandle : keep handle = true := hkeep
    simp only [Frame.only?, hhandle, if_true] at hframe
    obtain rfl := Option.some.inj hframe
    rfl
  | refresh ids =>
    obtain rfl := Option.some.inj hframe
    cases ids with
    | nil => rfl
    | cons id ids =>
      have hhandle : keep id = true := hkeep
      simp [placed_cons, hhandle, Frame.subject?]
  | pass home notices =>
    obtain rfl := Option.some.inj hframe
    cases notices with
    | nil => rfl
    | cons notice notices =>
      have hhandle : keep notice.handle = true := hkeep
      simp [Frame.subject?, Notice.only?, hhandle]
  | _ =>
    obtain rfl := Option.some.inj hframe
    rfl

theorem Mirrors.subject?_eq (h : whole.Mirrors keep part) {move : Move V}
    (hkeep : (whole.subject? move).all keep = true) :
    part.subject? (whole.moveOnly keep move) = (whole.subject? move).map (place keep) := by
  have hhead (hkeep : (whole.subject? .step).all keep = true) :
      part.subject? .step = (whole.subject? .step).map (place keep) := by
    cases hstack : whole.stack with
    | nil => simp [subject?, hstack, h.stack_of_nil hstack]
    | cons frame rest =>
      obtain ⟨frame', rest', hframe, hpart, -⟩ := h.pop hstack
      simp only [subject?, hstack, List.head?_cons, Option.bind_some] at hkeep
      simp only [subject?, hstack, hpart, List.head?_cons, Option.bind_some]
      exact subject?_of_only? hframe hkeep
  cases move with
  | step => exact hhead hkeep
  | resume => exact hhead hkeep
  | wake home =>
    simp only [subject?, moveOnly, queue, h.registryAt?_eq] at hkeep ⊢
    cases hregistry : whole.registryAt? home with
    | none => rfl
    | some registry =>
      simp only [hregistry, Option.map_some, Option.getD_some, Registry.only] at hkeep ⊢
      cases hqueue : registry.queue with
      | nil => rfl
      | cons task rest =>
        cases task with
        | refreshAll => simp [Task.only?, Task.subject?]
        | deliver notice =>
          have hhandle : keep notice.handle = true := by simpa [hqueue, Task.subject?] using hkeep
          simp [Task.only?, Notice.only?, hhandle, Task.subject?]
  | call call =>
    cases call with
    | request registry key typeName fallback decode => exact congrArg some (h.request hkeep).1
    | requestCustom registry key typeName fallback =>
      simp only [subject?, called?, requestCustom] at hkeep
      simp only [subject?, moveOnly, callOnly, called?, requestCustom, h.decoder_eq]
      cases hdecoder : (whole.registryAt? registry).bind fun registry =>
          registry.decoders.find? typeName with
      | none => rfl
      | some decode =>
        simp only [hdecoder] at hkeep
        exact congrArg some (h.request hkeep).1
    | _ => rfl

theorem Mirrors.result?_eq (h : whole.Mirrors keep part) {move : Move V}
    (hkeep : (whole.subject? move).all keep = true) :
    part.result? (whole.moveOnly keep move) = whole.result? move := by
  have hrequest {home : RegistryId} {key typeName : String} {fallback : V} {decode : Decoder V}
      (hkeep : keep (whole.request home key typeName fallback decode).1 = true) :
      (part.request home key typeName fallback decode).2.handleAt?
          (part.request home key typeName fallback decode).1 =
        (whole.request home key typeName fallback decode).2.handleAt?
          (whole.request home key typeName fallback decode).1 := by
    rw [(h.request hkeep).1, (h.request hkeep).2.handleAt?_place hkeep]
  cases move with
  | step =>
    cases hstack : whole.stack with
    | nil => simp [result?, moveOnly, hstack, h.stack_of_nil hstack]
    | cons frame rest =>
      obtain ⟨frame', rest', hframe, hpart, -⟩ := h.pop hstack
      simp only [result?, moveOnly, hstack, hpart]
      cases frame with
      | deliver notice =>
        have hhandle : keep notice.handle = true := by
          simpa [subject?, hstack, Frame.subject?] using hkeep
        simp only [Frame.only?, Notice.only?, hhandle, if_true, Option.map_some] at hframe
        obtain rfl := Option.some.inj hframe
        obtain ⟨handle, event, listeners⟩ := notice
        cases listeners <;> rfl
      | callback call =>
        obtain ⟨call', -, rfl⟩ := Option.map_eq_some_iff.mp hframe
        rfl
      | listen handle listener =>
        obtain ⟨-, hlisten⟩ := Option.ite_none_right_eq_some.mp hframe
        obtain rfl := Option.some.inj hlisten
        rfl
      | _ =>
        obtain rfl := Option.some.inj hframe
        rfl
  | resume => rfl
  | wake home => rfl
  | call call =>
    cases call with
    | request registry key typeName fallback decode =>
      simp only [result?, moveOnly, callOnly, hrequest hkeep]
    | requestCustom registry key typeName fallback =>
      simp only [subject?, called?, requestCustom] at hkeep
      simp only [result?, moveOnly, callOnly, requestCustom, h.decoder_eq]
      cases hdecoder : (whole.registryAt? registry).bind fun registry =>
          registry.decoders.find? typeName with
      | none => rfl
      | some decode =>
        simp only [hdecoder] at hkeep
        simp only [Except.toOption, Option.map_some, hrequest hkeep]
    | read id =>
      simp only [result?, moveOnly, callOnly, read, (h.refreshHandle hkeep).handleAt?_place hkeep]
    | unlisten id listener =>
      simp only [result?, moveOnly, callOnly, Engine.unlisten, h.handleAt?_place hkeep]
      cases whole.handleAt? id <;> rfl
    | _ => rfl

end

end Engine

end Overlay

import Overlay.Proofs.Engine.Transitions

/-!
# Deliveries

Where the calls of listeners come from. When a handle makes a transition there is
news for those who listen to it at that moment (`news?`). Unless its registry is
eager the delivery is begun at once, above whatever else is running; a notifier
begins what has been queued for it. Nothing else stops running but the call that a
move makes (`running_of_turn`).
-/

namespace Overlay

variable {V : Type}

/-- The call tells of one of these handles. -/
def Callback.concerns (p : HandleId → Bool) : Callback V → Bool
  | .property _ handle _ => p handle
  | .node _ _ => false

/-- The call tells of this handle. -/
def Callback.isAbout (id : HandleId) : Callback V → Bool
  | .property _ handle _ => handle = id
  | .node _ _ => false

theorem Callback.isAbout_eq (id : HandleId) :
    Callback.isAbout (V := V) id = Callback.concerns (· = id) := by
  funext call
  cases call <;> rfl

theorem Notice.concerns_of_mem {notice : Notice V} {call : Callback V}
    (h : call ∈ notice.callbacks) (p : HandleId → Bool) : call.concerns p = p notice.handle := by
  obtain ⟨listener, -, rfl⟩ := List.mem_map.mp h
  rfl

theorem Notice.filter_callbacks (notice : Notice V) (p : HandleId → Bool) :
    notice.callbacks.filter (·.concerns p) = if p notice.handle then notice.callbacks else [] := by
  split
  · rename_i hp
    exact List.filter_eq_self.mpr fun call hmem => (concerns_of_mem hmem p).trans hp
  · rename_i hp
    exact List.filter_eq_nil_iff.mpr fun call hmem => by rwa [concerns_of_mem hmem p]

namespace Engine

section
variable {engine before middle after : Engine V} {id : HandleId}

theorem running_of_stack {frame : Frame V} {rest : List (Frame V)}
    (hstack : engine.stack = frame :: rest) :
    engine.running = frame.callbacks ++ rest.flatMap Frame.callbacks := by
  rw [running, hstack, List.flatMap_cons]

theorem running_of_idle (hidle : engine.stack = []) : engine.running = [] := by
  rw [running, hidle, List.flatMap_nil]

theorem cached?_congr (h : after.handles = before.handles) (id : HandleId) :
    after.cached? id = before.cached? id := by
  rw [cached?, cached?, handleAt?, handleAt?, h]

theorem cached?_enroll {handle : Handle V} (hfresh : handle.Fresh) (id : HandleId) :
    (engine.enroll handle).cached? id = engine.cached? id :=
  (spares_makeHandle hfresh.cached).cached id

theorem cached?_listen (id other : HandleId) (listener : ListenerId) :
    (engine.modifyHandle id (·.listen listener)).cached? other = engine.cached? other := by
  refine congrArg Option.join (map_getElem?_modify fun handle _ => ?_)
  unfold Handle.listen
  split <;> rfl

end

variable [BEq V] {engine before middle after : Engine V} {id : HandleId} {move : Move V}

/-- The news of the transition that the handle makes in a move. -/
def news? (before after : Engine V) (id : HandleId) : Option (Notice V) :=
  (before.event? after id).bind fun event =>
    if (after.listeners id).isEmpty then none else some ⟨id, event, after.listeners id⟩

theorem news?_eq_none (h : after.cached? id = before.cached? id) : before.news? after id = none := by
  rw [news?, event?_of_cached_eq h, Option.bind_none]

/-- There is news of a handle when it is read. -/
theorem news?_refreshHandle (hsame : middle.cached? id = before.cached? id) :
    before.news? (middle.refreshHandle id) id = middle.notice? id := by
  rw [news?, event?_refreshHandle hsame, listeners_refreshHandle, notice?, Option.bind_assoc]

theorem handle_notice? {notice : Notice V} (h : engine.notice? id = some notice) :
    notice.handle = id := by
  obtain ⟨reading, -, hevent⟩ := Option.bind_eq_some_iff.mp h
  obtain ⟨event, -, hsome⟩ := Option.bind_eq_some_iff.mp hevent
  obtain ⟨-, hnotice⟩ := Option.ite_none_left_eq_some.mp hsome
  rw [← Option.some.inj hnotice]

theorem filter_notice?_of_ne {read : HandleId} (h : id ≠ read) :
    (engine.notice? read).toList.filter (·.handle = id) = [] := by
  refine List.filter_eq_nil_iff.mpr fun notice hmem => ?_
  rw [handle_notice? (Option.mem_toList.mp hmem)]
  simpa using Ne.symm h

/-- The news of a handle, among what reading any handle gives rise to. -/
theorem filter_notice? (hsame : ∀ id, middle.cached? id = before.cached? id)
    (read id : HandleId) : (middle.notice? read).toList.filter (·.handle = id) =
      (before.news? (middle.refreshHandle read) id).toList := by
  by_cases hread : id = read
  · subst hread
    rw [news?_refreshHandle (hsame id)]
    exact List.filter_eq_self.mpr fun notice hmem =>
      decide_eq_true (handle_notice? (Option.mem_toList.mp hmem))
  · have hcached := ((retains_refreshHandle middle read).2 id hread).trans (hsame id)
    rw [news?_eq_none hcached]
    exact filter_notice?_of_ne hread

omit [BEq V] in
theorem filter_flatMap_callbacks (notices : List (Notice V)) (p : HandleId → Bool) :
    (notices.flatMap Notice.callbacks).filter (·.concerns p) =
      (notices.filter (p ·.handle)).flatMap Notice.callbacks := by
  induction notices with
  | nil => rfl
  | cons notice notices ih =>
    rw [List.flatMap_cons, List.filter_append, ih, notice.filter_callbacks]
    cases hp : p notice.handle with
    | true => simp [hp]
    | false => simp [hp]

theorem running_refreshHandle (engine : Engine V) (id : HandleId) :
    (engine.refreshHandle id).running =
      (if engine.isEager id then [] else (engine.notice? id).toList.flatMap Notice.callbacks) ++
        engine.running := by
  rw [running, stack_refreshHandle, List.flatMap_append, ← running]
  split
  · rfl
  · cases engine.notice? id <;> rfl

/-- Nothing is read, and what runs is told by what is called and taken up. -/
theorem running_of_still (hcached : ∀ id, after.cached? id = before.cached? id)
    (h : (before.call? move).toList ++ after.running =
      (before.job? move).toList.flatMap Notice.callbacks ++ before.running) :
    ∃ fresh : List (Notice V), (before.call? move).toList ++ after.running =
      ((before.job? move).toList ++ fresh).flatMap Notice.callbacks ++ before.running ∧
      ∀ id, fresh.filter (·.handle = id) =
        if after.isEager id then [] else (before.news? after id).toList := by
  refine ⟨[], ?_, fun id => ?_⟩
  · rwa [List.append_nil]
  · rw [news?_eq_none (hcached id)]
    simp

/-- A handle is read, and nothing else happens to what runs. -/
theorem running_of_read (hsame : ∀ id, middle.cached? id = before.cached? id)
    (hrunning : middle.running = before.running) (hcall : before.call? move = none)
    (hjob : before.job? move = none) (read : HandleId) :
    ∃ fresh : List (Notice V), (before.call? move).toList ++ (middle.refreshHandle read).running =
      ((before.job? move).toList ++ fresh).flatMap Notice.callbacks ++ before.running ∧
      ∀ id, fresh.filter (·.handle = id) =
        if (middle.refreshHandle read).isEager id then []
        else (before.news? (middle.refreshHandle read) id).toList := by
  refine ⟨if middle.isEager read then [] else (middle.notice? read).toList, ?_, fun id => ?_⟩
  · rw [hcall, hjob, running_refreshHandle, hrunning]
    split <;> rfl
  · rw [isEager_refreshHandle, ← filter_notice? hsame]
    by_cases hread : id = read
    · subst hread
      split <;> rfl
    · rw [filter_notice?_of_ne hread, ite_self]
      split
      · rfl
      · exact filter_notice?_of_ne hread

/-- What is begun in a move runs above what was running, and the call that is made
is the topmost. A delivery is begun by a notifier that takes it up, and, unless the
registry is eager, because there is news. -/
theorem running_of_turn (h : before.Turn move after) :
    ∃ fresh : List (Notice V), (before.call? move).toList ++ after.running =
      ((before.job? move).toList ++ fresh).flatMap Notice.callbacks ++ before.running ∧
      ∀ id, fresh.filter (·.handle = id) =
        if after.isEager id then [] else (before.news? after id).toList := by
  cases h with
  | calm h hcall hjob _ =>
    refine running_of_still (cached?_congr h.handles) ?_
    rw [hcall, hjob, h.running]
    rfl
  | read h => exact running_of_read (cached?_congr h.handles) h.running rfl rfl _
  | request hfresh _ => exact running_of_read (cached?_enroll hfresh) rfl rfl rfl _
  | openRegistry _ =>
    refine running_of_still (cached?_congr handles_openRegistry) ?_
    rw [running, stack_openRegistry]
    rfl
  | closeRegistry =>
    refine running_of_still (cached?_congr handles_closeRegistry) ?_
    rw [running, stack_closeRegistry]
    rfl
  | unlisten => exact running_of_still (spares_modifyListeners _).cached rfl
  | listen hstack =>
    refine running_of_read ?_ ?_ ?_ ?_ _
    · exact fun other => cached?_listen _ other _
    · exact (running_of_stack hstack).symm
    · rw [call?, hstack]
    · rw [job?, hstack]
  | refresh hstack =>
    refine running_of_read ?_ ?_ ?_ ?_ _
    · exact fun _ => rfl
    · exact (running_of_stack hstack).symm
    · rw [call?, hstack]
    · rw [job?, hstack]
  | skip hstack _ =>
    refine running_of_still (fun _ => rfl) ?_
    rw [call?, job?, hstack, running_of_stack hstack]
    rfl
  | call hstack =>
    refine running_of_still (fun _ => rfl) ?_
    rw [call?, job?, hstack, running_of_stack hstack]
    rfl
  | next hstack =>
    refine running_of_still (fun _ => rfl) ?_
    rw [call?, job?, hstack, running_of_stack hstack]
    simp [running, Frame.callbacks]
  | sweep hstack =>
    refine running_of_still (fun _ => rfl) ?_
    rw [call?, job?, hstack, running_of_stack hstack]
    simp only [running, List.flatMap_append]
    unfold Engine.sweep
    split
    · split <;> rfl
    · rfl
  | deliver hidle hqueue =>
    refine running_of_still (fun _ => rfl) ?_
    rw [running_of_idle hidle]
    simp [call?, job?, hqueue, running, Frame.callbacks]
  | pass hidle hqueue =>
    refine running_of_still (fun _ => rfl) ?_
    rw [running_of_idle hidle]
    simp [call?, job?, hqueue, running, Frame.callbacks]

/-- The calls about a handle whose delivery is begun in a move. -/
def begun (before : Engine V) (move : Move V) (after : Engine V) (id : HandleId) :
    List (Callback V) :=
  ((before.job? move).toList.filter (·.handle = id)).flatMap Notice.callbacks ++
    if after.isEager id then [] else (before.news? after id).toList.flatMap Notice.callbacks

theorem about_of_turn (h : before.Turn move after) (id : HandleId) :
    ((before.call? move).toList ++ after.running).filter (·.isAbout id) =
      before.begun move after id ++ before.running.filter (·.isAbout id) := by
  obtain ⟨fresh, hrunning, hnews⟩ := running_of_turn h
  rw [hrunning, List.filter_append, Callback.isAbout_eq, filter_flatMap_callbacks,
    List.filter_append, List.flatMap_append, hnews, begun]
  split <;> rfl

end Engine

end Overlay

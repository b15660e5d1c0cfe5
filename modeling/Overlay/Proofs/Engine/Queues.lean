import Overlay.Proofs.Engine.Deliveries

/-!
# Queues

What a notifier has yet to deliver is in its queue (`posted`), or a pass has taken
it from there (`waiting`). A queue grows at its end only, and a delivery is put
there only for news of a handle of an eager registry (`queue_of_turn`). What leaves
a queue leaves it at its front, and is begun at once or waits, in its order, to be
begun (`waiting_of_turn`, `posted_of_wake`).
-/

namespace Overlay.Engine

variable {V : Type} {engine before middle after : Engine V} {home : RegistryId}

/-- The notices that passes have yet to begin. -/
def waiting (engine : Engine V) : List (Notice V) := engine.stack.flatMap Frame.waiting

/-- The notices in a registry's queue. -/
def posted (engine : Engine V) (home : RegistryId) : List (Notice V) :=
  deliveries (engine.queue home)

@[simp] theorem deliveries_nil : deliveries ([] : List (Task V)) = [] := rfl

theorem deliveries_append (tasks more : List (Task V)) :
    deliveries (tasks ++ more) = deliveries tasks ++ deliveries more :=
  List.filterMap_append

theorem deliveries_replicate (n : Nat) :
    deliveries (List.replicate n (.refreshAll : Task V)) = [] :=
  List.filterMap_replicate_of_none rfl

theorem deliveries_map (notices : List (Notice V)) :
    deliveries (notices.map .deliver) = notices := by
  rw [deliveries, List.filterMap_map]
  exact List.filterMap_some

theorem waiting_of_stack {frame : Frame V} {rest : List (Frame V)}
    (hstack : engine.stack = frame :: rest) :
    engine.waiting = frame.waiting ++ rest.flatMap Frame.waiting := by
  rw [waiting, hstack, List.flatMap_cons]

theorem waiting_of_idle (hidle : engine.stack = []) : engine.waiting = [] := by
  rw [waiting, hidle, List.flatMap_nil]

/-- Nothing waits above the topmost pass. -/
theorem waiting_eq_base (engine : Engine V) : engine.waiting = engine.base.flatMap Frame.waiting := by
  rw [waiting, base]
  induction engine.stack with
  | nil => rfl
  | cons frame rest ih =>
    cases hpass : frame.isPass with
    | true => rw [List.dropWhile_cons_of_neg (by simp [hpass])]
    | false =>
      have hnone : frame.waiting = [] := by
        unfold Frame.waiting
        split
        · exact absurd hpass (by simp [Frame.isPass])
        · rfl
      rw [List.dropWhile_cons_of_pos (by simp [hpass]), List.flatMap_cons, hnone, List.nil_append,
        ih]

theorem Calm.waiting (h : before.Calm after) : after.waiting = before.waiting := by
  rw [waiting_eq_base, waiting_eq_base, h.base]

theorem queue_modifyRegistry {id : RegistryId} {f : Registry V → Registry V}
    (hf : ∀ registry, (f registry).queue = registry.queue) :
    (engine.modifyRegistry id f).queue home = engine.queue home :=
  congrArg (Option.getD · []) (map_getElem?_modify fun registry _ => hf registry)

theorem queue_enroll {handle : Handle V} : (engine.enroll handle).queue home = engine.queue home := by
  unfold enroll
  refine (queue_modifyRegistry ?_).trans ?_
  · exact fun _ => rfl
  · rfl

theorem queue_openRegistry {registry : Registry V} (hqueue : registry.queue = []) :
    (engine.openRegistry registry).2.queue home = engine.queue home := by
  rw [queue, registryAt?, registries_openRegistry, queue, registryAt?]
  rcases getElem?_concat_cases engine.registries registry home with heq | ⟨hnone, hnew⟩
  · rw [heq]
  · rw [hnone, hnew]
    exact hqueue

theorem queue_closeRegistry {id : RegistryId} :
    (engine.closeRegistry id).queue home = engine.queue home := by
  unfold Engine.closeRegistry
  split
  · rfl
  · exact queue_modifyRegistry (f := fun registry => { registry with closed := true }) fun _ => rfl

theorem queue_setQueue {id : RegistryId} {tasks : List (Task V)}
    (hhome : (engine.registryAt? id).isSome) :
    (engine.setQueue id tasks).queue home = if id = home then tasks else engine.queue home := by
  rw [queue, setQueue, registryAt?_modifyRegistry, queue]
  by_cases hid : id = home
  · subst hid
    obtain ⟨registry, hregistry⟩ := Option.isSome_iff_exists.mp hhome
    simp [hregistry]
  · simp only [hid, if_false]
    simp

theorem isSome_of_queue {id : RegistryId} {task : Task V} {tasks : List (Task V)}
    (hqueue : engine.queue id = task :: tasks) : (engine.registryAt? id).isSome := by
  cases hregistry : engine.registryAt? id with
  | none => simp [queue, hregistry] at hqueue
  | some _ => rfl

section
variable [BEq V] {move : Move V}

theorem waiting_refreshHandle (engine : Engine V) (id : HandleId) :
    (engine.refreshHandle id).waiting = engine.waiting := by
  rw [waiting, stack_refreshHandle, List.flatMap_append, ← waiting]
  split
  · rfl
  · cases engine.notice? id <;> rfl

/-- A pass begins what waits in its order. -/
theorem waiting_of_turn (h : before.Turn move after) (hmove : move.isWake = false) :
    (before.job? move).toList ++ after.waiting = before.waiting := by
  cases h with
  | calm h _ hjob _ =>
    rw [hjob, h.waiting]
    rfl
  | read h =>
    rw [waiting_refreshHandle, h.waiting]
    rfl
  | request _ _ => exact waiting_refreshHandle _ _
  | openRegistry _ =>
    rw [waiting, stack_openRegistry]
    rfl
  | closeRegistry =>
    rw [waiting, stack_closeRegistry]
    rfl
  | unlisten => rfl
  | listen hstack =>
    rw [waiting_refreshHandle, job?, hstack, waiting_of_stack hstack]
    rfl
  | refresh hstack =>
    rw [waiting_refreshHandle, job?, hstack, waiting_of_stack hstack]
    rfl
  | skip hstack _ =>
    rw [job?, hstack, waiting_of_stack hstack]
    rfl
  | call hstack =>
    rw [job?, hstack, waiting_of_stack hstack]
    rfl
  | next hstack =>
    rw [job?, hstack, waiting_of_stack hstack]
    simp [waiting, Frame.waiting]
  | sweep hstack =>
    rw [job?, hstack, waiting_of_stack hstack]
    simp only [waiting, List.flatMap_append]
    unfold Engine.sweep
    split
    · split <;> rfl
    · rfl
  | deliver _ _ => exact absurd hmove (by simp [Move.isWake])
  | pass _ _ => exact absurd hmove (by simp [Move.isWake])

/-- No handle is read, and a queue grows by requests at most. -/
theorem queue_of_still (hcached : ∀ id, after.cached? id = before.cached? id)
    (hqueue : ∃ n, after.queue home = before.queue home ++ List.replicate n .refreshAll) :
    ∃ tasks, after.queue home = before.queue home ++ tasks ∧ ∀ id,
      (deliveries tasks).filter (·.handle = id) =
        if after.notifies home id then (before.news? after id).toList else [] := by
  obtain ⟨n, hqueue⟩ := hqueue
  refine ⟨_, hqueue, fun id => ?_⟩
  rw [deliveries_replicate, news?_eq_none (hcached id)]
  simp

theorem queue_of_read (hcached : ∀ id, middle.cached? id = before.cached? id)
    (hqueue : ∃ n, middle.queue home = before.queue home ++ List.replicate n .refreshAll)
    (read : HandleId) :
    ∃ tasks, (middle.refreshHandle read).queue home = before.queue home ++ tasks ∧ ∀ id,
      (deliveries tasks).filter (·.handle = id) =
        if (middle.refreshHandle read).notifies home id then
          (before.news? (middle.refreshHandle read) id).toList else [] := by
  obtain ⟨n, hqueue⟩ := hqueue
  rw [queue_refreshHandle, hqueue, List.append_assoc]
  refine ⟨_, rfl, fun id => ?_⟩
  rw [deliveries_append, deliveries_replicate, List.nil_append, notifies_refreshHandle,
    ← filter_notice? hcached read id]
  by_cases hread : id = read
  · subst hread
    split
    · rw [deliveries_map]
    · rfl
  · rw [filter_notice?_of_ne hread, ite_self]
    split
    · rw [deliveries_map]
      exact filter_notice?_of_ne hread
    · rfl

/-- A queue grows at its end. The notifier is to deliver the news of the handles
of its registry, if that is eager, and no other. -/
theorem queue_of_turn (h : before.Turn move after) (hmove : move.isWake = false)
    (home : RegistryId) :
    ∃ tasks, after.queue home = before.queue home ++ tasks ∧ ∀ id,
      (deliveries tasks).filter (·.handle = id) =
        if after.notifies home id then (before.news? after id).toList else [] := by
  have hsame {engine : Engine V} (heq : engine.queue home = before.queue home) :
      ∃ n, engine.queue home = before.queue home ++ List.replicate n .refreshAll :=
    ⟨0, heq.trans (List.append_nil _).symm⟩
  cases h with
  | calm h _ _ _ => exact queue_of_still (cached?_congr h.handles) (h.queue home)
  | read h => exact queue_of_read (cached?_congr h.handles) (h.queue home) _
  | request hfresh _ => exact queue_of_read (cached?_enroll hfresh) (hsame queue_enroll) _
  | openRegistry _ =>
    exact queue_of_still (cached?_congr handles_openRegistry) (hsame (queue_openRegistry rfl))
  | closeRegistry =>
    exact queue_of_still (cached?_congr handles_closeRegistry) (hsame queue_closeRegistry)
  | unlisten => exact queue_of_still (spares_modifyListeners _).cached (hsame rfl)
  | listen _ =>
    refine queue_of_read ?_ ?_ _
    · exact fun _ => cached?_listen _ _ _
    · exact hsame rfl
  | refresh _ =>
    refine queue_of_read ?_ ?_ _
    · exact fun _ => rfl
    · exact hsame rfl
  | skip _ _ => exact queue_of_still (fun _ => rfl) (hsame rfl)
  | call _ => exact queue_of_still (fun _ => rfl) (hsame rfl)
  | next _ => exact queue_of_still (fun _ => rfl) (hsame rfl)
  | sweep _ => exact queue_of_still (fun _ => rfl) (hsame rfl)
  | deliver _ _ => exact absurd hmove (by simp [Move.isWake])
  | pass _ _ => exact absurd hmove (by simp [Move.isWake])

/-- A notifier takes up a task when it has no other work. -/
theorem stack_of_wake {id : RegistryId} (h : before.Turn (.wake id) after) : before.stack = [] := by
  cases h with
  | calm _ _ _ hmove => exact absurd hmove (by simp [Move.isWake])
  | deliver hidle _ => exact hidle
  | pass hidle _ => exact hidle

theorem handles_of_wake {id : RegistryId} (h : before.Turn (.wake id) after) :
    after.handles = before.handles := by
  cases h with
  | calm h _ _ _ => exact h.handles
  | deliver _ _ => rfl
  | pass _ _ => rfl

/-- What a notifier takes from its queue is begun or waits, in its order. -/
theorem posted_of_wake {id : RegistryId} (h : before.Turn (.wake id) after) :
    (before.job? (.wake id)).toList ++ after.waiting ++ after.posted id = before.posted id ∧
      ∀ other, other ≠ id → after.queue other = before.queue other := by
  have hwoken {tasks : List (Task V)} {stack : List (Frame V)}
      (hhome : (before.registryAt? id).isSome) (other : RegistryId) :
      Engine.queue { before.setQueue id tasks with stack } other =
        if id = other then tasks else before.queue other := queue_setQueue hhome
  cases h with
  | calm _ _ _ hmove => exact absurd hmove (by simp [Move.isWake])
  | deliver hidle hqueue =>
    have hhome := isSome_of_queue hqueue
    refine ⟨?_, fun other hother => ?_⟩
    · rw [posted, posted, hwoken hhome, if_pos rfl, hqueue, waiting]
      simp [job?, hqueue, Frame.waiting, deliveries]
    · rw [hwoken hhome, if_neg (Ne.symm hother)]
  | pass hidle hqueue =>
    have hhome := isSome_of_queue hqueue
    refine ⟨?_, fun other hother => ?_⟩
    · rw [posted, posted, hwoken hhome, if_pos rfl, hqueue, waiting]
      simp [job?, hqueue, Frame.waiting, deliveries]
    · rw [hwoken hhome, if_neg (Ne.symm hother)]

end

end Overlay.Engine

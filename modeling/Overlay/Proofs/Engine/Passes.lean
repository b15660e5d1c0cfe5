import Mathlib.Data.List.TakeWhile
import Overlay.Proofs.Engine.Listeners

/-!
# Passes

A notifier begins a pass with an empty stack, so that nothing lies below it
(`Grounded`) and a notice that is taken up finds no delivery running
(`running_of_job`). A pass stays until it has made its deliveries, and then refreshes
the handles of its registry (`pass_of_turn`).
-/

namespace Overlay.Engine

variable {V : Type} {engine before middle after : Engine V} {id : HandleId}

theorem mem_base {frame : Frame V} (hmem : frame ∈ engine.stack) (hpass : frame.isPass = true) :
    frame ∈ engine.base := by
  rw [← List.takeWhile_append_dropWhile (p := (!·.isPass)) (l := engine.stack)] at hmem
  rcases List.mem_append.mp hmem with habove | hbase
  · exact absurd (List.mem_takeWhile_imp habove) (by simp [hpass])
  · exact hbase

theorem mem_stack_of_base {frame : Frame V} (hmem : frame ∈ engine.base) :
    frame ∈ engine.stack :=
  (List.dropWhile_sublist _).subset hmem

/-- Nothing lies below a pass. -/
def Grounded (engine : Engine V) : Prop := engine.base.length ≤ 1

theorem base_of_stack {frame : Frame V} {rest : List (Frame V)}
    (hstack : engine.stack = frame :: rest) (hpass : frame.isPass = false) :
    engine.base = rest.dropWhile (!·.isPass) := by
  rw [base, hstack, List.dropWhile_cons_of_pos (by simp [hpass])]

theorem base_of_pass {frame : Frame V} {rest : List (Frame V)}
    (hstack : engine.stack = frame :: rest) (hpass : frame.isPass = true) :
    engine.base = frame :: rest := by
  rw [base, hstack, List.dropWhile_cons_of_neg (by simp [hpass])]

theorem Grounded.eq_nil {frame : Frame V} {rest : List (Frame V)} (h : engine.Grounded)
    (hstack : engine.stack = frame :: rest) (hpass : frame.isPass = true) : rest = [] := by
  rw [Grounded, base_of_pass hstack hpass, List.length_cons] at h
  exact List.eq_nil_of_length_eq_zero (Nat.le_zero.mp (Nat.le_of_succ_le_succ h))

variable [BEq V] {move : Move V}

theorem base_refreshHandle (engine : Engine V) (id : HandleId) :
    (engine.refreshHandle id).base = engine.base := by
  rw [base, stack_refreshHandle, base]
  split
  · rfl
  · cases engine.notice? id with
    | none => rfl
    | some notice => exact List.dropWhile_cons_of_pos rfl

theorem grounded_of_turn (h : before.Grounded) (hturn : before.Turn move after) :
    after.Grounded := by
  cases hturn with
  | calm hcalm _ _ _ =>
    rw [Grounded, hcalm.base]
    exact h
  | read hcalm =>
    rw [Grounded, base_refreshHandle, hcalm.base]
    exact h
  | request _ _ =>
    rw [Grounded, base_refreshHandle]
    exact h
  | openRegistry _ =>
    rw [Grounded, base, stack_openRegistry]
    exact h
  | closeRegistry =>
    rw [Grounded, base, stack_closeRegistry]
    exact h
  | unlisten => exact h
  | listen hstack =>
    rw [Grounded, base_of_stack hstack rfl] at h
    rw [Grounded, base_refreshHandle]
    exact h
  | refresh hstack =>
    rw [Grounded, base_of_stack hstack rfl] at h
    rw [Grounded, base_refreshHandle]
    exact h
  | skip hstack _ =>
    rw [Grounded, base_of_stack hstack rfl] at h
    exact h
  | call hstack =>
    rw [Grounded, base_of_stack hstack rfl] at h
    exact h
  | next hstack =>
    obtain rfl := h.eq_nil hstack rfl
    exact Nat.le_refl 1
  | sweep hstack =>
    obtain rfl := h.eq_nil hstack rfl
    unfold Grounded Engine.sweep
    split
    · split <;> exact Nat.zero_le _
    · exact Nat.zero_le _
  | deliver _ _ => exact Nat.zero_le _
  | pass _ _ => exact Nat.le_refl 1

/-- A notice is taken up when the delivery before it is over. -/
theorem running_of_job (h : before.Grounded) (hturn : before.Turn move after) {notice : Notice V}
    (hjob : before.job? move = some notice) : before.running = [] := by
  cases move with
  | call _ => exact absurd hjob (by simp [job?])
  | resume => exact absurd hjob (by simp [job?])
  | step =>
    simp only [job?] at hjob
    split at hjob
    · rename_i hstack
      rw [running_of_stack hstack, h.eq_nil hstack rfl]
      rfl
    · exact absurd hjob (by simp)
  | wake id => exact running_of_idle (stack_of_wake hturn)

/-- There is news only of handles that can be resolved. -/
theorem exists_of_news? {notice : Notice V} (hnews : before.news? after id = some notice) :
    ∃ handle registry, after.handleAt? id = some handle ∧
      after.registryAt? handle.registry = some registry := by
  obtain ⟨event, hevent, -⟩ := Option.bind_eq_some_iff.mp hnews
  obtain ⟨outcome, houtcome, -⟩ := Option.bind_eq_some_iff.mp hevent
  obtain ⟨-, hfresh⟩ := Option.ite_none_left_eq_some.mp houtcome
  obtain ⟨handle, hhandle, hresolved⟩ := Option.bind_eq_some_iff.mp hfresh
  obtain ⟨registry, hregistry, -⟩ := Option.map_eq_some_iff.mp hresolved
  exact ⟨handle, registry, hhandle, hregistry⟩

theorem isLazy_of_news? {notice : Notice V} (hnews : before.news? after id = some notice)
    (heager : after.isEager id = false) : after.isLazy id = true := by
  obtain ⟨handle, registry, hhandle, hregistry⟩ := exists_of_news? hnews
  rw [isEager_eq hhandle hregistry] at heager
  exact isLazy_iff.mpr ⟨handle, registry, hhandle, hregistry, heager⟩

/-- What is begun without having been taken up tells of handles whose readers announce
their changes. -/
theorem lazy_of_turn (hturn : before.Turn move after) :
    ∃ fresh : List (Notice V), (before.call? move).toList ++ after.running =
      ((before.job? move).toList ++ fresh).flatMap Notice.callbacks ++ before.running ∧
      ∀ notice ∈ fresh, after.isLazy notice.handle = true := by
  obtain ⟨fresh, hrunning, hnews⟩ := running_of_turn hturn
  refine ⟨fresh, hrunning, fun notice hmem => ?_⟩
  have hfound : notice ∈ fresh.filter (·.handle = notice.handle) :=
    List.mem_filter.mpr ⟨hmem, by simp⟩
  rw [hnews] at hfound
  split at hfound
  · exact absurd hfound (by simp)
  · rename_i heager
    exact isLazy_of_news? (Option.mem_toList.mp hfound) (by simpa using heager)

/-- A request to refresh stays in the queue until a pass takes it up. -/
theorem asked_of_wake {home : RegistryId} (hturn : before.Turn (.wake home) after)
    (hasked : .refreshAll ∈ before.queue home) :
    .refreshAll ∈ after.queue home ∨ ∃ notices, .pass home notices ∈ after.stack := by
  cases hturn with
  | calm _ _ _ hmove => exact absurd hmove (by simp [Move.isWake])
  | @deliver _ notice tasks _ hqueue =>
    left
    show .refreshAll ∈ Engine.queue (before.setQueue home tasks) home
    rw [queue_setQueue (isSome_of_queue hqueue), if_pos rfl]
    rw [hqueue] at hasked
    exact (List.mem_cons.mp hasked).resolve_left (by simp)
  | pass _ _ => exact .inr ⟨_, List.mem_singleton_self _⟩

/-- A pass goes on until its deliveries are begun, and ends with a sweep. -/
theorem pass_of_turn {home : RegistryId} {notices : List (Notice V)}
    (hmem : .pass home notices ∈ before.stack) (hmove : move.isWake = false)
    (hturn : before.Turn move after) : (∃ left, .pass home left ∈ after.stack) ∨
      ∃ rest, move = .step ∧ before.stack = .pass home [] :: rest ∧
        after.stack = before.sweep home ++ rest := by
  have hkept (hbase : after.base = before.base) : ∃ left, .pass home left ∈ after.stack :=
    ⟨notices, mem_stack_of_base (hbase ▸ mem_base hmem rfl)⟩
  -- what is popped is no pass
  have hbelow {frame : Frame V} {rest : List (Frame V)} (hstack : before.stack = frame :: rest)
      (hpass : frame.isPass = false) : .pass home notices ∈ rest := by
    rw [hstack] at hmem
    rcases List.mem_cons.mp hmem with rfl | hrest
    · exact absurd hpass (by simp [Frame.isPass])
    · exact hrest
  cases hturn with
  | calm hcalm _ _ _ => exact .inl (hkept hcalm.base)
  | read hcalm => exact .inl (hkept ((base_refreshHandle _ _).trans hcalm.base))
  | request _ _ => exact .inl (hkept (base_refreshHandle _ _))
  | openRegistry _ =>
    refine .inl ⟨notices, ?_⟩
    rwa [stack_openRegistry]
  | closeRegistry =>
    refine .inl ⟨notices, ?_⟩
    rwa [stack_closeRegistry]
  | unlisten => exact .inl ⟨notices, hmem⟩
  | listen hstack =>
    refine .inl (hkept ((base_refreshHandle _ _).trans ?_))
    exact (base_of_stack hstack rfl).symm
  | refresh hstack =>
    refine .inl (hkept ((base_refreshHandle _ _).trans ?_))
    exact (base_of_stack hstack rfl).symm
  | skip hstack _ => exact .inl ⟨notices, List.mem_cons_of_mem _ (hbelow hstack rfl)⟩
  | call hstack =>
    exact .inl ⟨notices, List.mem_cons_of_mem _ (List.mem_cons_of_mem _ (hbelow hstack rfl))⟩
  | @next id notice left rest hstack =>
    rw [hstack] at hmem
    rcases List.mem_cons.mp hmem with heq | hrest
    · obtain ⟨rfl, -⟩ := Frame.pass.inj heq
      exact .inl ⟨left, by simp⟩
    · exact .inl ⟨notices, by simp [hrest]⟩
  | @sweep id rest hstack =>
    have hmem' := hmem
    rw [hstack] at hmem'
    rcases List.mem_cons.mp hmem' with heq | hrest
    · obtain ⟨rfl, -⟩ := Frame.pass.inj heq
      exact .inr ⟨rest, rfl, hstack, rfl⟩
    · exact .inl ⟨notices, List.mem_append_right _ hrest⟩
  | deliver hidle _ => exact absurd hmove (by simp [Move.isWake])
  | pass hidle _ => exact absurd hmove (by simp [Move.isWake])

end Overlay.Engine

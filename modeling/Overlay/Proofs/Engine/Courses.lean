import Mathlib
import Overlay.Proofs.Engine.Tallies

/-!
# Courses

A course is a run in which listeners may also panic (`Incident`). A panic gives up the work above
the call that contains it. Everything that is kept of handles stays as it is, and so does every
call that is yet to be made (`running_unwind`).

So whatever listeners do in a course, the counters of properties count what has been done
(`counters_account_for_work`): the resolutions of handles, each of them at a version above those
that the handle has seen; the failures among them, each under its own stage; and the calls of
listeners. A listener of a handle that no notifier announces is told of each failure once at most.
-/

namespace Overlay

variable {V : Type}

/-- What happens to an engine whose listeners may panic. -/
inductive Incident (V : Type)
  | move (move : Move V)
  /-- The listener that is being called panics. -/
  | panic

namespace Engine

section
variable {α : Type} [BEq V] {engine next last : Engine V} {incident : Incident V}
  {rest incidents : List (Incident V)}

def happen? (engine : Engine V) : Incident V → Option (Engine V)
  | .move move => engine.move? move
  | .panic => if engine.callback?.isSome then some engine.unwind else none

/-- The engine after these incidents, when all of them are possible. -/
def course? (engine : Engine V) : List (Incident V) → Option (Engine V)
  | [] => some engine
  | incident :: rest => (engine.happen? incident).bind (·.course? rest)

/-- What is seen in the incidents of a course, in their order. -/
def survey (see : Engine V → Incident V → Engine V → List α) (engine : Engine V) :
    List (Incident V) → List α
  | [] => []
  | incident :: rest =>
    match engine.happen? incident with
    | none => []
    | some next => see engine incident next ++ next.survey see rest

theorem course?_cons_eq_some : engine.course? (incident :: rest) = some last ↔
    ∃ next, engine.happen? incident = some next ∧ next.course? rest = some last :=
  Option.bind_eq_some_iff

theorem survey_cons {see : Engine V → Incident V → Engine V → List α}
    (h : engine.happen? incident = some next) :
    engine.survey see (incident :: rest) = see engine incident next ++ next.survey see rest := by
  rw [survey, h]

theorem happen?_panic : engine.happen? .panic = some next ↔
    engine.callback?.isSome ∧ next = engine.unwind := by
  rw [happen?, Option.ite_none_right_eq_some, Option.some.injEq, eq_comm (a := next)]

/-- What incidents preserve holds after a course. -/
theorem course?_induction {motive : Engine V → Prop}
    (hcourse : engine.course? incidents = some last)
    (hstart : motive engine) (hstep : ∀ {before incident after}, motive before →
      before.happen? incident = some after → motive after) : motive last := by
  induction incidents generalizing engine with
  | nil => exact Option.some.inj hcourse ▸ hstart
  | cons incident rest ih =>
    obtain ⟨next, hnext, hrest⟩ := course?_cons_eq_some.mp hcourse
    exact ih hrest (hstep hstart hnext)

end

/-- The call of a property listener that is made in an incident. -/
def calledIn (engine : Engine V) : Incident V → List (Callback V)
  | .move move => (engine.call? move).toList
  | .panic => []

variable [BEq V] {engine before after next last : Engine V} {id : HandleId} {listener : ListenerId}
  {incident : Incident V} {incidents : List (Incident V)}

/-- The resolutions of a course. -/
def resolvedOver (engine : Engine V) (incidents : List (Incident V)) : List (Refresh V) :=
  engine.survey (fun before _ after => before.refreshes after) incidents

/-- The calls of property listeners that are made in a course. -/
def calledOver (engine : Engine V) (incidents : List (Incident V)) : List (Callback V) :=
  engine.survey (fun before incident _ => before.calledIn incident) incidents

/-- What a listener is told of a handle in a course. -/
def toldOver (engine : Engine V) (listener : ListenerId) (id : HandleId)
    (incidents : List (Incident V)) : List (Event V) :=
  (engine.calledOver incidents).filterMap (·.tells? listener id)

/-- What a listener is meant to hear of a handle in a course. -/
def meantOver (engine : Engine V) (listener : ListenerId) (id : HandleId)
    (incidents : List (Incident V)) : List (Event V) :=
  engine.survey (fun before _ after => before.meant after listener id) incidents

-- ---------------------------------------------------------------------------
-- What an incident does
-- ---------------------------------------------------------------------------

theorem retains_of_happen? (h : before.happen? incident = some after) : before.Retains after := by
  cases incident with
  | move move => exact (does_of_move? h).retains
  | panic =>
    obtain ⟨-, rfl⟩ := happen?_panic.mp h
    exact (spares_of_eq before.handles_unwind before.registries_unwind).toRetains

theorem rising_of_happen? (h : before.happen? incident = some after) (id : HandleId) :
    before.Rising after id := by
  cases incident with
  | move move => exact (does_of_move? h).rising id
  | panic =>
    obtain ⟨-, rfl⟩ := happen?_panic.mp h
    exact rising_of_cached_eq (cached?_congr before.handles_unwind id)

theorem count_of_happen? (h : before.happen? incident = some after) {counter : Counter}
    (hcounter : counter.isPolls = false) : after.metrics.count counter =
      before.metrics.count counter +
        counter.tally (before.refreshes after) (before.calledIn incident) := by
  cases incident with
  | move move => exact count_of_move? h hcounter
  | panic =>
    obtain ⟨-, rfl⟩ := happen?_panic.mp h
    rw [refreshes_of_cached_eq (cached?_congr before.handles_unwind), calledIn, Counter.tally_nil,
      metrics_unwind, Nat.add_zero]

theorem callback?_of_mem_calledIn {call : Callback V} (h : before.happen? incident = some after)
    (hmem : call ∈ before.calledIn incident) : after.callback? = some call := by
  cases incident with
  | move move => exact callback?_of_call? h (Option.mem_toList.mp hmem)
  | panic => exact absurd hmem List.not_mem_nil

theorem Covered.happen? (hcovered : Covered before.stack)
    (h : before.happen? incident = some after) : Covered after.stack := by
  cases incident with
  | move move => exact hcovered.move? h
  | panic =>
    obtain ⟨-, rfl⟩ := happen?_panic.mp h
    exact hcovered.unwind

omit [BEq V] in
theorem Tidy.unwind (h : engine.Tidy) : engine.unwind.Tidy where
  nodup := h.nodup
  read := h.read
  waiting notice hmem := by
    obtain ⟨frame, hframe, hnotice⟩ := List.mem_flatMap.mp hmem
    exact h.waiting notice (List.mem_flatMap.mpr ⟨frame, engine.suffix_unwind.mem hframe, hnotice⟩)
  posted := h.posted

theorem Tidy.happen? (htidy : before.Tidy) (h : before.happen? incident = some after) :
    after.Tidy := by
  cases incident with
  | move move => exact htidy.play_move h
  | panic =>
    obtain ⟨-, rfl⟩ := happen?_panic.mp h
    exact htidy.unwind

/-- What is due to a listener is due to it still when another panics, or the listener itself. -/
theorem due_of_happen? (listener : ListenerId) (htidy : before.Tidy)
    (hcovered : Covered before.stack)
    (hbefore : before.isEager id = false) (hafter : after.isEager id = false)
    (h : before.happen? incident = some after) :
    (before.calledIn incident).filterMap (·.tells? listener id) ++ after.due listener id =
      before.meant after listener id ++ before.due listener id := by
  cases incident with
  | move move =>
    have hdue := due_of_unnotified listener htidy (htidy.play_move h) hbefore hafter
      (turn_of_move? h)
    rw [← hdue, tells?, calledIn]
    cases hcall : before.call? move with
    | none => rfl
    | some call => cases htells : call.tells? listener id <;> simp [htells]
  | panic =>
    obtain ⟨hcallback, rfl⟩ := happen?_panic.mp h
    rw [meant_of_handles_eq before.handles_unwind, due, running_unwind hcovered hcallback, due,
      calledIn, List.filterMap_nil]

-- ---------------------------------------------------------------------------
-- Whole courses
-- ---------------------------------------------------------------------------

theorem retains_of_course? (h : engine.course? incidents = some last) : engine.Retains last := by
  refine course?_induction (motive := engine.Retains) h ?_ fun hretains hnext => ?_
  · exact (spares_of_eq rfl rfl).toRetains
  · exact hretains.trans (retains_of_happen? hnext)

theorem resolvedOver_cons (hnext : engine.happen? incident = some next) :
    engine.resolvedOver (incident :: incidents) =
      engine.refreshes next ++ next.resolvedOver incidents :=
  survey_cons hnext

theorem calledOver_cons (hnext : engine.happen? incident = some next) :
    engine.calledOver (incident :: incidents) =
      engine.calledIn incident ++ next.calledOver incidents :=
  survey_cons hnext

theorem count_of_course? (h : engine.course? incidents = some last) {counter : Counter}
    (hcounter : counter.isPolls = false) : last.metrics.count counter =
      engine.metrics.count counter +
        counter.tally (engine.resolvedOver incidents) (engine.calledOver incidents) := by
  induction incidents generalizing engine with
  | nil =>
    obtain rfl := Option.some.inj h
    show _ = engine.metrics.count counter + counter.tally [] []
    rw [Counter.tally_nil, Nat.add_zero]
  | cons incident rest ih =>
    obtain ⟨next, hnext, hrest⟩ := course?_cons_eq_some.mp h
    rw [ih hrest, count_of_happen? hnext hcounter, resolvedOver_cons hnext, calledOver_cons hnext,
      Counter.tally_append, Nat.add_assoc]

/-- The versions at which a handle is resolved in a course. -/
def versionsOver (engine : Engine V) (id : HandleId) (incidents : List (Incident V)) : List Nat :=
  ((engine.resolvedOver incidents).filter (·.handle = id)).map (·.version)

theorem versionsOver_cons (hnext : engine.happen? incident = some next) :
    engine.versionsOver id (incident :: incidents) =
      (engine.refreshAt? next id).toList.map (·.version) ++ next.versionsOver id incidents := by
  rw [versionsOver, resolvedOver_cons hnext, List.filter_append, List.map_append, filter_refreshes,
    versionsOver]

/-- A handle is resolved at rising versions, all of them above what it has seen before. -/
theorem rising_of_course? (h : engine.course? incidents = some last) :
    (engine.versionsOver id incidents).Pairwise (· < ·) ∧
      ∀ seen, engine.seen? id = some seen → ∀ version ∈ engine.versionsOver id incidents,
        seen < version := by
  induction incidents generalizing engine with
  | nil => exact ⟨.nil, fun _ _ _ hmem => absurd hmem List.not_mem_nil⟩
  | cons incident rest ih =>
    obtain ⟨next, hnext, hrest⟩ := course?_cons_eq_some.mp h
    obtain ⟨hpairwise, habove⟩ := ih hrest
    rw [versionsOver_cons hnext]
    rcases rising_of_happen? hnext id with ⟨hnone, hsame⟩ | ⟨refresh, hsome, -, hseen, hrises⟩
    · rw [hnone]
      exact ⟨hpairwise, fun seen hbefore => habove seen (hsame.trans hbefore)⟩
    · have hlater := habove refresh.version hseen
      rw [hsome]
      refine ⟨List.pairwise_cons.mpr ⟨hlater, hpairwise⟩, fun seen hbefore version hmem => ?_⟩
      rcases List.mem_cons.mp hmem with rfl | hmem
      · exact hrises seen hbefore
      · exact (hrises seen hbefore).trans (hlater version hmem)

open scoped List in
/-- A listener of a handle that no notifier announces is told of each transition that it is to hear
of, and of each once, whoever panics. -/
theorem toldOver_perm (listener : ListenerId) (htidy : engine.Tidy)
    (hcovered : Covered engine.stack)
    (hcourse : engine.course? incidents = some last) (hlazy : last.isEager id = false) :
    engine.toldOver listener id incidents ++ last.due listener id ~
      engine.meantOver listener id incidents ++ engine.due listener id := by
  induction incidents generalizing engine with
  | nil =>
    obtain rfl := Option.some.inj hcourse
    exact .refl _
  | cons incident rest ih =>
    obtain ⟨next, hnext, hrest⟩ := course?_cons_eq_some.mp hcourse
    -- a handle that is eager stays so
    have heager {earlier : Engine V} (hretains : earlier.Retains last) :
        earlier.isEager id = false := by
      cases hearlier : earlier.isEager id with
      | false => rfl
      | true => exact absurd (hretains.isEager hearlier) (by simp [hlazy])
    have hdue := due_of_happen? listener htidy hcovered (heager (retains_of_course? hcourse))
      (heager (retains_of_course? hrest)) hnext
    have hlater := ih (htidy.happen? hnext) (hcovered.happen? hnext) hrest
    rw [toldOver, meantOver, calledOver_cons hnext, survey_cons hnext, List.filterMap_append]
    exact perm_of_due hdue hlater

/-- The errors that a listener is to hear of are those of failures, and each failure is meant
once. -/
theorem errors_meantOver (h : engine.course? incidents = some last) (listener : ListenerId)
    (id : HandleId) :
    ((engine.meantOver listener id incidents).filterMap Event.error?).Sublist
      (((engine.resolvedOver incidents).filter (·.handle = id)).filterMap Refresh.error?) := by
  induction incidents generalizing engine with
  | nil => exact .refl _
  | cons incident rest ih =>
    obtain ⟨next, hnext, hrest⟩ := course?_cons_eq_some.mp h
    rw [meantOver, survey_cons hnext, resolvedOver_cons hnext, List.filter_append, filter_refreshes,
      List.filterMap_append, List.filterMap_append]
    exact (errors_meant engine next listener id).append (ih hrest)

theorem rises_of_mem_refreshes {refresh : Refresh V} (h : before.happen? incident = some after)
    (hmem : refresh ∈ before.refreshes after) :
    after.treeVersion? refresh.handle = some refresh.version ∧
      ∀ seen, before.seen? refresh.handle = some seen → seen < refresh.version := by
  have hrefresh := mem_refreshes.mp hmem
  rcases rising_of_happen? h refresh.handle with ⟨hnone, -⟩ | ⟨found, hsome, hversion, -, habove⟩
  · exact absurd (hnone.symm.trans hrefresh) (by simp)
  · obtain rfl := Option.some.inj (hsome.symm.trans hrefresh)
    exact ⟨hversion, habove⟩

omit [BEq V] in
theorem exists_of_treeVersion? {version : Nat} (h : engine.treeVersion? id = some version) :
    ∃ handle registry, engine.handleAt? id = some handle ∧
      engine.registryAt? handle.registry = some registry ∧
      engine.forest.version registry.root = version := by
  obtain ⟨handle, hhandle, hhome⟩ := Option.bind_eq_some_iff.mp h
  obtain ⟨registry, hregistry, hversion⟩ := Option.map_eq_some_iff.mp hhome
  exact ⟨handle, registry, hhandle, hregistry, hversion⟩

/-- Reading a handle that has seen the version of its tree counts nothing. -/
theorem metrics_of_read {version seen : Nat} (hversion : before.treeVersion? id = some version)
    (hseen : before.seen? id = some seen) (hle : version ≤ seen)
    (hread : before.move? (.call (.read id)) = some after) : after.metrics = before.metrics := by
  obtain ⟨-, hstart⟩ := Option.ite_none_right_eq_some.mp hread
  obtain ⟨handle, registry, hhandle, hregistry, rfl⟩ := exists_of_treeVersion? hversion
  rw [seen?_eq hhandle] at hseen
  obtain ⟨cached, hcached, rfl⟩ := Option.map_eq_some_iff.mp hseen
  obtain rfl := Option.some.inj hstart
  exact metrics_refreshHandle_of_isCurrent hhandle hregistry
    (by simp [Handle.isCurrent, hcached, hle])

/-- Reading a handle at a version above what it has seen resolves it. -/
theorem refreshes_of_read {version : Nat} (hversion : before.treeVersion? id = some version)
    (habove : ∀ seen, before.seen? id = some seen → seen < version)
    (hread : before.move? (.call (.read id)) = some after) :
    ∃ outcome, before.refreshes after = [⟨id, version, outcome⟩] := by
  obtain ⟨-, hstart⟩ := Option.ite_none_right_eq_some.mp hread
  obtain ⟨handle, registry, hhandle, hregistry, rfl⟩ := exists_of_treeVersion? hversion
  obtain rfl := Option.some.inj hstart
  refine ⟨_, refreshes_refreshHandle (fun _ => rfl) hhandle hregistry ?_⟩
  rw [seen?_eq hhandle] at habove
  unfold Handle.isCurrent
  cases hcached : handle.cached with
  | none => rfl
  | some cached => simpa using habove cached.version (by rw [hcached, Option.map_some])

omit [BEq V] in
theorem covered_empty : Covered ({} : Engine V).stack := .nil

/-- In every course the counters of properties account for the work that has been done, whatever
listeners do while they are called, and whoever of them panics.

Resolutions are counted once for each handle and version of its tree: reading a handle that has seen
the version of its tree counts nothing, and reading one that has not resolves it. The failures among
them are counted by the stages of their errors. A listener of a handle that no notifier announces is
told of the transitions that it is to hear of, less what is still due to it, and so of each failure
once at most. Calls of listeners are counted as they are made. A panic takes no call away that is
yet to be made, and changes nothing that a handle holds. -/
theorem counters_account_for_work (hcourse : ({} : Engine V).course? incidents = some last) :
    (last.metrics.count .refreshes = (({} : Engine V).resolvedOver incidents).length ∧
      (∀ id, (({} : Engine V).versionsOver id incidents).Pairwise (· < ·)) ∧
      (∀ incident next, last.happen? incident = some next → ∀ refresh ∈ last.refreshes next,
        next.treeVersion? refresh.handle = some refresh.version ∧
          ∀ seen, last.seen? refresh.handle = some seen → seen < refresh.version) ∧
      ∀ id version next, last.treeVersion? id = some version →
        last.move? (.call (.read id)) = some next →
        (∀ seen, last.seen? id = some seen → version ≤ seen → next.metrics = last.metrics) ∧
          ((∀ seen, last.seen? id = some seen → seen < version) →
            ∃ outcome, last.refreshes next = [⟨id, version, outcome⟩])) ∧
    ((∀ stage, last.metrics.count (.failures stage) =
        (({} : Engine V).resolvedOver incidents).countP (·.failsAt stage)) ∧
      last.metrics.count (.failures .converter) + last.metrics.count (.failures .decode) +
        last.metrics.count (.failures .interpolation) =
          (({} : Engine V).resolvedOver incidents).countP (·.error?.isSome)) ∧
    (∀ id listener, last.isEager id = false →
      (({} : Engine V).toldOver listener id incidents ++ last.due listener id).Perm
        (({} : Engine V).meantOver listener id incidents) ∧
      ((({} : Engine V).toldOver listener id incidents).filterMap Event.error?).Subperm
        (((({} : Engine V).resolvedOver incidents).filter (·.handle = id)).filterMap
          Refresh.error?)) ∧
    (last.metrics.count .notifications = (({} : Engine V).calledOver incidents).length ∧
      ∀ incident next, last.happen? incident = some next → ∀ call ∈ last.calledIn incident,
        next.callback? = some call) ∧
    ∀ next, last.happen? .panic = some next → next.running = last.running ∧
      next.metrics = last.metrics ∧ ∀ id, next.cached? id = last.cached? id := by
  have hcount {counter : Counter} (hcounter : counter.isPolls = false) :
      last.metrics.count counter = counter.tally (({} : Engine V).resolvedOver incidents)
        (({} : Engine V).calledOver incidents) :=
    (count_of_course? hcourse hcounter).trans (Nat.zero_add _)
  refine ⟨⟨hcount rfl, fun _ => (rising_of_course? hcourse).1,
    fun _ _ hnext _ hmem => rises_of_mem_refreshes hnext hmem,
    fun _ _ _ hversion hread => ⟨fun _ hseen hle => metrics_of_read hversion hseen hle hread,
      fun habove => refreshes_of_read hversion habove hread⟩⟩,
    ⟨fun _ => hcount rfl, ?_⟩, fun id listener hlazy => ?_,
    ⟨hcount rfl, fun _ _ hnext _ hmem => callback?_of_mem_calledIn hnext hmem⟩,
    fun next hpanic => ?_⟩
  · rw [hcount rfl, hcount rfl, hcount rfl]
    exact Refresh.countP_failsAt _
  · have hperm := toldOver_perm listener tidy_empty covered_empty hcourse hlazy
    have hstart : ({} : Engine V).due listener id = [] := due_of_running rfl
    rw [hstart, List.append_nil] at hperm
    have htold := (List.sublist_append_left (({} : Engine V).toldOver listener id incidents)
      (last.due listener id)).filterMap Event.error?
    have hmeant := errors_meantOver hcourse listener id
    exact ⟨hperm, htold.subperm.trans ((hperm.filterMap _).subperm.trans hmeant.subperm)⟩
  · obtain ⟨hcallback, rfl⟩ := happen?_panic.mp hpanic
    have hcovered := course?_induction (motive := (Covered ·.stack)) hcourse covered_empty
      fun hcovered hnext => hcovered.happen? hnext
    exact ⟨running_unwind hcovered hcallback, last.metrics_unwind,
      cached?_congr last.handles_unwind⟩

/-- Two listeners hear of a failure. While the first is called it repairs the key and reads it
again, and panics at once; then it panics in the call that it is in, and so does the second. -/
def panickingListeners : List (Incident Nat) :=
  ([.call (.settable "leaf" .empty), .call (.hold [.node 0]),
    .call (.openRegistry 0 .fail "," false),
    .call (.request 0 "key" "number" 0 fun text =>
      if text = "one" then .ok 1 else .error ⟨text, "number", .custom "unknown number"⟩),
    .call (.listen 0 1), .step, .call (.listen 0 2), .step,
    .call (.edit 0 (.set "key" "bad")), .step, .call (.read 0), .step,
    .call (.edit 0 (.set "key" "one")), .step, .call (.read 0), .step].map .move) ++
  [.panic, .move .step, .move .resume, .move .step, .panic, .move .step, .panic, .move .step]

theorem counters_account_for_panics : ∃ last : Engine Nat,
    ({} : Engine Nat).course? panickingListeners = some last ∧ last.isIdle ∧
      last.metrics.count .refreshes = 3 ∧ last.metrics.count (.failures .decode) = 1 ∧
      last.metrics.count .notifications = 4 ∧
      (({} : Engine Nat).toldOver 2 0 panickingListeners).Perm
        (({} : Engine Nat).meantOver 2 0 panickingListeners) := by
  have hrun : (({} : Engine Nat).course? panickingListeners).any (fun last =>
      last.isIdle && !last.isEager 0) = true := by
    cbv
  simp only [Option.any_eq_true, Bool.and_eq_true, Bool.not_eq_true'] at hrun
  obtain ⟨last, hcourse, hidle, hlazy⟩ := hrun
  obtain ⟨⟨hrefreshes, -⟩, ⟨hfailures, -⟩, hheard, ⟨hcalls, -⟩, -⟩ :=
    counters_account_for_work hcourse
  have hperm := (hheard 0 2 hlazy).1
  rw [due_of_isIdle hidle, List.append_nil] at hperm
  exact ⟨last, hcourse, hidle, hrefreshes.trans (by cbv), (hfailures .decode).trans (by cbv),
    hcalls.trans (by cbv), hperm⟩

end Engine

end Overlay

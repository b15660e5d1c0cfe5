import Overlay.Proofs.Engine.Deeds
import Overlay.Proofs.Engine.Shifts

/-!
# Tallies

What the counters of properties count. A handle is resolved when it is read at a version of
its tree that it has not seen (`Refresh`), so its resolutions are at rising versions
(`Rising`). A move counts each resolution, each that fails under the stage of its error, and
the call that it makes, and counts nothing else but polls (`count_of_move?`).
-/

namespace Overlay

variable {V : Type}

/-- A handle is resolved at a version of its tree. -/
structure Refresh (V : Type) where
  handle : HandleId
  version : Nat
  outcome : Except PropertyError V

/-- Why the resolution failed, if it did. -/
def Refresh.error? (refresh : Refresh V) : Option PropertyError :=
  match refresh.outcome with
  | .error error => some error
  | .ok _ => none

def Refresh.failsAt (refresh : Refresh V) (stage : Stage) : Bool :=
  refresh.error?.any (·.stage = stage)

/-- The error that is told of. -/
def Event.error? : Event V → Option PropertyError
  | .failed error => some error
  | .changed _ => none

/-- Each failure has one stage. -/
theorem Refresh.countP_failsAt (refreshes : List (Refresh V)) :
    refreshes.countP (·.failsAt .converter) + refreshes.countP (·.failsAt .decode) +
      refreshes.countP (·.failsAt .interpolation) = refreshes.countP (·.error?.isSome) := by
  induction refreshes with
  | nil => rfl
  | cons refresh refreshes ih =>
    have hone : (if refresh.failsAt .converter then 1 else 0) +
        (if refresh.failsAt .decode then 1 else 0) +
        (if refresh.failsAt .interpolation then 1 else 0) =
          if refresh.error?.isSome then 1 else 0 := by
      unfold failsAt
      cases refresh.error? with
      | none => rfl
      | some error =>
        rw [Option.any_some, Option.any_some, Option.any_some, Option.isSome_some]
        cases error.stage <;> rfl
    rw [List.countP_cons, List.countP_cons, List.countP_cons, List.countP_cons, ← hone, ← ih]
    omega

namespace Counter

/-- How much these resolutions and calls of listeners come to. -/
def tally (counter : Counter) (refreshes : List (Refresh V)) (calls : List (Callback V)) : Nat :=
  match counter with
  | .refreshes => refreshes.length
  | .failures stage => refreshes.countP (·.failsAt stage)
  | .notifications => calls.length
  | .polls _ _ => 0

@[simp] theorem tally_nil (counter : Counter) : counter.tally (V := V) [] [] = 0 := by
  cases counter <;> rfl

theorem tally_append (counter : Counter) (refreshes more : List (Refresh V))
    (calls others : List (Callback V)) :
    counter.tally (refreshes ++ more) (calls ++ others) =
      counter.tally refreshes calls + counter.tally more others := by
  cases counter <;> simp [tally]

end Counter

/-- A resolution that fails is counted under the stage of its error, and any resolution once. -/
theorem Handle.count_record [BEq V] {handle : Handle V} {policy : Template.MissingPolicy}
    {version : Nat} {tree : Tree} (hstale : handle.isCurrent version = false) (id : HandleId)
    (metrics : Metrics) (counter : Counter) :
    ((handle.read policy version tree).record metrics).count counter = metrics.count counter +
      counter.tally [⟨id, version, handle.resolve policy tree⟩] [] := by
  rw [read, if_neg (by simp [hstale])]
  cases hresolve : handle.resolve policy tree with
  | ok value =>
    have hrecord : (Reading.mk (handle.store version value) true (handle.transition value)).record
        metrics = metrics.increment .refreshes := by
      unfold Reading.record transition
      cases handle.cached with
      | none => rfl
      | some previous => by_cases hsame : (previous.value != value) = true <;> simp [hsame]
    rw [hrecord, Metrics.count_increment]
    cases counter <;> simp [Counter.tally, Refresh.failsAt, Refresh.error?]
  | error error =>
    have hrecord : (Reading.mk (handle.store version handle.held) true (some (.failed error))).record
        metrics = (metrics.increment .refreshes).increment (.failures error.stage) := rfl
    rw [hrecord, Metrics.count_increment, Metrics.count_increment]
    cases counter with
    | failures stage =>
      by_cases hstage : stage = error.stage
      · simp [Counter.tally, Refresh.failsAt, Refresh.error?, hstage]
      · simp [Counter.tally, Refresh.failsAt, Refresh.error?, hstage, Ne.symm hstage]
    | _ => simp [Counter.tally]

namespace Engine

variable {engine before middle after : Engine V} {id : HandleId} {base : List (Frame V)}
  {refresh : Refresh V}

/-- The version of the handle's tree. -/
def treeVersion? (engine : Engine V) (id : HandleId) : Option Nat :=
  (engine.handleAt? id).bind fun handle =>
    (engine.registryAt? handle.registry).map fun registry => engine.forest.version registry.root

/-- The version at which the handle was last resolved. -/
def seen? (engine : Engine V) (id : HandleId) : Option Nat := (engine.cached? id).map (·.version)

/-- The resolution of the handle in a move, if it was resolved. -/
def refreshAt? (before after : Engine V) (id : HandleId) : Option (Refresh V) :=
  (before.resolution? after id).bind fun outcome =>
    (after.treeVersion? id).map fun version => ⟨id, version, outcome⟩

/-- The resolutions in a move. -/
def refreshes (before after : Engine V) : List (Refresh V) :=
  (List.range after.handles.length).filterMap (before.refreshAt? after)

/-- The handle is resolved at the version of its tree, which is above what it has seen, or it is
not resolved and has seen what it had. -/
def Rising (before after : Engine V) (id : HandleId) : Prop :=
  (before.refreshAt? after id = none ∧ after.seen? id = before.seen? id) ∨
    ∃ refresh, before.refreshAt? after id = some refresh ∧
      after.treeVersion? id = some refresh.version ∧ after.seen? id = some refresh.version ∧
      ∀ version, before.seen? id = some version → version < refresh.version

theorem filterMap_range_of_ne {α : Type} {f : Nat → Option α} {n : Nat}
    (hf : ∀ k, k ≠ n → f k = none) (m : Nat) :
    (List.range m).filterMap f = if n < m then (f n).toList else [] := by
  induction m with
  | zero => rfl
  | succ m ih =>
    rw [List.range_succ, List.filterMap_append, ih, List.filterMap_cons, List.filterMap_nil]
    by_cases hm : m = n
    · subst hm
      simp only [Nat.lt_irrefl, if_false, Nat.lt_succ_self, if_true, List.nil_append]
      cases f m <;> rfl
    · have hlt : n < m ↔ n < m + 1 := by omega
      rw [hf m hm, List.append_nil]
      simp only [hlt]

theorem treeVersion?_of_handle
    (hhandle : engine.handleAt? id = some handle)
    (hregistry : engine.registryAt? handle.registry = some registry) :
    engine.treeVersion? id = some (engine.forest.version registry.root) := by
  rw [treeVersion?, hhandle, Option.bind_some, hregistry, Option.map_some]

theorem lt_of_refreshAt? (h : before.refreshAt? after id = some refresh) :
    id < after.handles.length := by
  obtain ⟨outcome, -, hversion⟩ := Option.bind_eq_some_iff.mp h
  obtain ⟨version, hversion, -⟩ := Option.map_eq_some_iff.mp hversion
  obtain ⟨handle, hhandle, -⟩ := Option.bind_eq_some_iff.mp hversion
  exact (List.getElem?_eq_some_iff.mp hhandle).1

theorem refreshAt?_of_cached_eq (h : after.cached? id = before.cached? id) :
    before.refreshAt? after id = none := by
  rw [refreshAt?, resolution?_of_cached_eq h, Option.bind_none]

theorem handle_refreshAt? (h : before.refreshAt? after id = some refresh) :
    refresh.handle = id := by
  obtain ⟨outcome, -, hversion⟩ := Option.bind_eq_some_iff.mp h
  obtain ⟨version, -, rfl⟩ := Option.map_eq_some_iff.mp hversion
  rfl

/-- Where one handle may have been resolved only, its resolution is all there is. -/
theorem refreshes_eq (h : ∀ other, other ≠ id → before.refreshAt? after other = none) :
    before.refreshes after = (before.refreshAt? after id).toList := by
  rw [refreshes, filterMap_range_of_ne h]
  split
  · rfl
  · rename_i hlength
    cases hrefresh : before.refreshAt? after id with
    | none => rfl
    | some refresh => exact absurd (lt_of_refreshAt? hrefresh) hlength

theorem refreshes_of_cached_eq (h : ∀ id, after.cached? id = before.cached? id) :
    before.refreshes after = [] :=
  List.filterMap_eq_nil_iff.mpr fun id _ => refreshAt?_of_cached_eq (h id)

theorem mem_refreshes : refresh ∈ before.refreshes after ↔
    before.refreshAt? after refresh.handle = some refresh := by
  rw [refreshes, List.mem_filterMap]
  constructor
  · rintro ⟨id, -, hrefresh⟩
    rwa [handle_refreshAt? hrefresh]
  · exact fun hrefresh => ⟨_, List.mem_range.mpr (lt_of_refreshAt? hrefresh), hrefresh⟩

theorem exists_refreshAt? {outcome : Except PropertyError V}
    (h : before.resolution? after id = some outcome) :
    ∃ version, before.refreshAt? after id = some ⟨id, version, outcome⟩ := by
  have hfresh := (Option.ite_none_left_eq_some.mp h).2
  obtain ⟨handle, hhandle, hfresh⟩ := Option.bind_eq_some_iff.mp hfresh
  obtain ⟨registry, hregistry, -⟩ := Option.map_eq_some_iff.mp hfresh
  exact ⟨_, by rw [refreshAt?, h, treeVersion?_of_handle hhandle hregistry]; rfl⟩

/-- The resolutions of one handle in a move. -/
theorem filter_refreshes (before after : Engine V) (id : HandleId) :
    (before.refreshes after).filter (·.handle = id) = (before.refreshAt? after id).toList := by
  have hfilter : (before.refreshes after).filter (·.handle = id) =
      (List.range after.handles.length).filterMap fun other =>
        if other = id then before.refreshAt? after id else none := by
    rw [refreshes, List.filter_filterMap]
    refine List.filterMap_congr fun other _ => ?_
    cases hrefresh : before.refreshAt? after other with
    | none =>
      split
      · rename_i heq
        rw [Option.filter_none, ← heq, hrefresh]
      · rfl
    | some refresh =>
      rw [Option.filter_some, handle_refreshAt? hrefresh]
      split
      · rename_i heq
        rw [if_pos (by simpa using heq), ← hrefresh, of_decide_eq_true heq]
      · rename_i hne
        rw [if_neg (by simpa using hne)]
  rw [hfilter, filterMap_range_of_ne fun other hne => if_neg hne, if_pos rfl]
  split
  · rfl
  · rename_i hlength
    cases hrefresh : before.refreshAt? after id with
    | none => rfl
    | some refresh => exact absurd (lt_of_refreshAt? hrefresh) hlength

-- ---------------------------------------------------------------------------
-- Reading a handle
-- ---------------------------------------------------------------------------

variable [BEq V] {handle : Handle V} {registry : Registry V}

theorem metrics_refreshHandle {reading : Reading V} (h : engine.reading? id = some reading) :
    (engine.refreshHandle id).metrics = reading.record engine.metrics := by
  rcases refreshHandle_of_some h with heq | ⟨_, eager, _, heq⟩
  · rw [heq]
    rfl
  · rw [heq]
    cases eager <;> rfl

/-- Reading a handle that has seen the version of its tree counts nothing, and resolves none. -/
theorem metrics_refreshHandle_of_isCurrent
    (hhandle : engine.handleAt? id = some handle)
    (hregistry : engine.registryAt? handle.registry = some registry)
    (hcurrent : handle.isCurrent (engine.forest.version registry.root) = true) :
    (engine.refreshHandle id).metrics = engine.metrics := by
  rw [metrics_refreshHandle (reading?_eq_some.mpr ⟨handle, registry, hhandle, hregistry, rfl⟩),
    Handle.read, if_pos hcurrent]
  rfl

theorem cached?_refreshHandle_of_isCurrent
    (hhandle : engine.handleAt? id = some handle)
    (hregistry : engine.registryAt? handle.registry = some registry)
    (hcurrent : handle.isCurrent (engine.forest.version registry.root) = true) (other : HandleId) :
    (engine.refreshHandle id).cached? other = engine.cached? other := by
  by_cases hother : other = id
  · subst hother
    have hreading := reading?_eq_some.mpr ⟨handle, registry, hhandle, hregistry, rfl⟩
    rw [cached?_refreshHandle hreading, Handle.read_of_isCurrent hcurrent, cached?, hhandle]
    rfl
  · exact (retains_refreshHandle engine id).2 other hother

theorem refreshAt?_refreshHandle
    (hsame : middle.cached? id = before.cached? id) (hhandle : middle.handleAt? id = some handle)
    (hregistry : middle.registryAt? handle.registry = some registry)
    (hstale : handle.isCurrent (middle.forest.version registry.root) = false) :
    before.refreshAt? (middle.refreshHandle id) id = some ⟨id, middle.forest.version registry.root,
      handle.resolve registry.policy (middle.forest.tree registry.root)⟩ := by
  obtain ⟨next, home, hnext, hhome, -, hroot, -⟩ :=
    (retains_refreshHandle middle id).1.resolves hhandle hregistry
  rw [refreshAt?, resolution?_refreshHandle hsame hhandle hregistry hstale,
    treeVersion?_of_handle hnext hhome, hroot, forest_refreshHandle]
  rfl

/-- Reading a stale handle resolves it, and nothing else. -/
theorem refreshes_refreshHandle
    (hsame : ∀ id, middle.cached? id = before.cached? id)
    (hhandle : middle.handleAt? id = some handle)
    (hregistry : middle.registryAt? handle.registry = some registry)
    (hstale : handle.isCurrent (middle.forest.version registry.root) = false) :
    before.refreshes (middle.refreshHandle id) = [⟨id, middle.forest.version registry.root,
      handle.resolve registry.policy (middle.forest.tree registry.root)⟩] := by
  have hothers (other : HandleId) (hother : other ≠ id) :
      before.refreshAt? (middle.refreshHandle id) other = none :=
    refreshAt?_of_cached_eq (((retains_refreshHandle middle id).2 other hother).trans (hsame other))
  rw [refreshes_eq hothers, refreshAt?_refreshHandle (hsame id) hhandle hregistry hstale]
  rfl

-- ---------------------------------------------------------------------------
-- What a move counts
-- ---------------------------------------------------------------------------

theorem Deed.count {move : Move V} (h : before.Deed base move after) {counter : Counter}
    (hcounter : counter.isPolls = false) : after.metrics.count counter =
      before.metrics.count counter +
        counter.tally (before.refreshes after) (before.call? move).toList := by
  cases h with
  | silent h hcall => rw [refreshes_of_cached_eq h.cached, hcall, h.counts counter hcounter]; simp
  | @read _ middle id h hcall =>
    rw [hcall, ← h.counts counter hcounter]
    cases hreading : middle.reading? id with
    | none =>
      rw [refreshHandle_of_none hreading, refreshes_of_cached_eq h.cached]
      simp
    | some reading =>
      obtain ⟨handle, registry, hhandle, hregistry, rfl⟩ := reading?_eq_some.mp hreading
      cases hcurrent : handle.isCurrent (middle.forest.version registry.root) with
      | true =>
        have hcached (other : HandleId) :=
          cached?_refreshHandle_of_isCurrent hhandle hregistry hcurrent other
        rw [metrics_refreshHandle_of_isCurrent hhandle hregistry hcurrent,
          refreshes_of_cached_eq fun other => (hcached other).trans (h.cached other)]
        simp
      | false =>
        rw [metrics_refreshHandle hreading, refreshes_refreshHandle h.cached hhandle hregistry hcurrent]
        exact Handle.count_record hcurrent id _ counter
  | @take _ middle notice h hcall =>
    have hcached (id : HandleId) : (middle.push (.deliver notice)).cached? id = before.cached? id :=
      h.cached id
    rw [refreshes_of_cached_eq hcached, hcall, Option.toList_none, Counter.tally_nil]
    exact h.counts counter hcounter
  | @call handle event listener listeners hstack =>
    have hcall : before.call? .step = some (.property listener handle event) := by
      rw [call?, hstack]
    rw [hcall, refreshes_of_cached_eq]
    · refine (Metrics.count_increment _ _ _).trans ?_
      cases counter <;> simp [Counter.tally]
    · exact fun _ => rfl

/-- A move counts the resolutions that it makes and the listener that it calls, and nothing else
but polls. -/
theorem count_of_move? {move : Move V} (hmove : before.move? move = some after) {counter : Counter}
    (hcounter : counter.isPolls = false) : after.metrics.count counter =
      before.metrics.count counter +
        counter.tally (before.refreshes after) (before.call? move).toList := by
  obtain ⟨base, hdeed, -⟩ := deed_of_move? hmove
  exact hdeed.count hcounter

/-- A listener is to hear of an error when a resolution has failed with it. -/
theorem errors_meant (before after : Engine V) (listener : ListenerId) (id : HandleId) :
    ((before.meant after listener id).filterMap Event.error?).Sublist
      ((before.refreshAt? after id).toList.filterMap Refresh.error?) := by
  rw [meant]
  split
  · rw [event?]
    cases hresolution : before.resolution? after id with
    | none => exact List.nil_sublist _
    | some outcome =>
      obtain ⟨version, hrefresh⟩ := exists_refreshAt? hresolution
      rw [hrefresh, Option.bind_some]
      cases outcome with
      | error error => exact .refl _
      | ok value =>
        -- a value that is announced is no error
        cases before.cached? id with
        | none => exact List.nil_sublist _
        | some previous =>
          dsimp only [Option.bind_some]
          split <;> exact List.nil_sublist _
  · exact List.nil_sublist _

-- ---------------------------------------------------------------------------
-- Versions
-- ---------------------------------------------------------------------------

omit [BEq V] in
theorem seen?_eq (hhandle : engine.handleAt? id = some handle) :
    engine.seen? id = handle.cached.map (·.version) := by
  rw [seen?, cached?, hhandle]
  rfl

omit [BEq V] in
theorem rising_of_cached_eq (h : after.cached? id = before.cached? id) : before.Rising after id :=
  .inl ⟨refreshAt?_of_cached_eq h, congrArg (Option.map _) h⟩

theorem Does.rising (h : before.Does after) (id : HandleId) : before.Rising after id := by
  rcases h.cached_cases id with hsame | ⟨middle, handle, registry, -, hsame, hhandle, hregistry,
    hstale, rfl⟩
  · exact rising_of_cached_eq hsame
  · obtain ⟨next, home, hnext, hhome, -, hroot, -⟩ :=
      (retains_refreshHandle middle id).1.resolves hhandle hregistry
    have hversion : (middle.refreshHandle id).treeVersion? id =
        some (middle.forest.version registry.root) := by
      rw [treeVersion?_of_handle hnext hhome, hroot, forest_refreshHandle]
    refine .inr ⟨_, refreshAt?_refreshHandle hsame hhandle hregistry hstale, hversion, ?_, ?_⟩
    · rw [seen?, cached?_refreshHandle (reading?_eq_some.mpr ⟨handle, registry, hhandle, hregistry,
        rfl⟩), Handle.cached_read hstale]
      rfl
    · intro version hseen
      rw [seen?, ← hsame, ← seen?, seen?_eq hhandle] at hseen
      obtain ⟨cached, hcached, rfl⟩ := Option.map_eq_some_iff.mp hseen
      simpa [Handle.isCurrent, hcached] using hstale

end Engine

end Overlay

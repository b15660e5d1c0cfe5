import Overlay.Proofs.Engine.Apart
import Overlay.Proofs.Engine.Changes

/-!
# Sweeps

A refresh reads the handles that have listeners, one after the other, and has each transition told
before it goes on. As long as listeners do nothing, what comes of it for a handle depends on that
handle alone (`exists_sweep`), and so not on the order in which the handles are read.
-/

namespace Overlay

namespace Engine

variable {V : Type} {engine before after : Engine V} {id other : HandleId}
  {ids : List HandleId} {moves : List (Move V)}

/-- An engine but for its handles and what it has counted. -/
def bare (engine : Engine V) : Engine V := { engine with handles := [], metrics := {} }

variable [BEq V]

/-- The engine once a sweep has read the handle, if it has listeners. -/
def visit (engine : Engine V) (id : HandleId) : Engine V :=
  match engine.reading? id with
  | some reading => if (engine.listeners id).isEmpty then engine else engine.store id reading
  | none => engine

/-- What the listeners of a handle are told when it is read. -/
def heard (engine : Engine V) (id : HandleId) : List (Outcome V) :=
  (engine.notice? id).toList.flatMap fun notice =>
    notice.listeners.map fun listener => .told listener notice.event

-- ---------------------------------------------------------------------------
-- One handle
-- ---------------------------------------------------------------------------

theorem visit_of_isEmpty (h : (engine.listeners id).isEmpty) : engine.visit id = engine := by
  unfold visit
  split
  · exact if_pos h
  · rfl

theorem visit_cases (engine : Engine V) (id : HandleId) : engine.visit id = engine ∨
    ∃ reading, engine.reading? id = some reading ∧ engine.visit id = engine.store id reading := by
  unfold visit
  split
  · rename_i reading hreading
    split
    · exact .inl rfl
    · exact .inr ⟨reading, hreading, rfl⟩
  · exact .inl rfl

theorem bare_visit (engine : Engine V) (id : HandleId) : (engine.visit id).bare = engine.bare := by
  rcases visit_cases engine id with heq | ⟨reading, -, heq⟩
  · rw [heq]
  · rw [heq]
    rfl

theorem handleAt?_visit_of_ne (h : other ≠ id) :
    (engine.visit id).handleAt? other = engine.handleAt? other := by
  rcases visit_cases engine id with heq | ⟨reading, -, heq⟩
  · rw [heq]
  · rw [heq]
    simp [store, handleAt?, modifyHandle, Ne.symm h]

theorem notice?_of_isEmpty (h : (engine.listeners id).isEmpty) : engine.notice? id = none := by
  simp [notice?, h]

/-- Reading a handle concerns nothing but the handle, its registry and the tree. -/
theorem reading?_congr (hbare : after.bare = before.bare)
    (hhandle : after.handleAt? id = before.handleAt? id) :
    after.reading? id = before.reading? id := by
  have hforest : after.forest = before.forest := (congrArg forest hbare :)
  have hregistries : after.registries = before.registries := (congrArg registries hbare :)
  simp only [reading?, hhandle, registryAt?, hforest, hregistries]

omit [BEq V] in
theorem listeners_eq_of_handleAt? (hhandle : after.handleAt? id = before.handleAt? id) :
    after.listeners id = before.listeners id := by
  rw [listeners, hhandle, listeners]

theorem notice?_congr (hbare : after.bare = before.bare)
    (hhandle : after.handleAt? id = before.handleAt? id) :
    after.notice? id = before.notice? id := by
  rw [notice?, reading?_congr hbare hhandle, listeners_eq_of_handleAt? hhandle, notice?]

theorem handleAt?_visit_congr (hbare : after.bare = before.bare)
    (hhandle : after.handleAt? id = before.handleAt? id) :
    (after.visit id).handleAt? id = (before.visit id).handleAt? id := by
  unfold visit
  rw [reading?_congr hbare hhandle, listeners_eq_of_handleAt? hhandle]
  split
  · split
    · exact hhandle
    · simp only [store, modifyHandle, handleAt?, List.getElem?_modify] at hhandle ⊢
      rw [hhandle]
  · exact hhandle

omit [BEq V] in
theorem isEager_congr_handleAt? (hbare : after.bare = before.bare)
    (hhandle : after.handleAt? id = before.handleAt? id) :
    after.isEager id = before.isEager id := by
  have hregistries : after.registries = before.registries := (congrArg registries hbare :)
  simp only [isEager, hhandle, registryAt?, hregistries]

theorem heard_congr (hbare : after.bare = before.bare)
    (hhandle : after.handleAt? id = before.handleAt? id) : after.heard id = before.heard id := by
  rw [heard, notice?_congr hbare hhandle, heard]

theorem isEager_visit (engine : Engine V) (id other : HandleId) :
    (engine.visit id).isEager other = engine.isEager other := by
  by_cases hother : other = id
  · subst hother
    rcases visit_cases engine other with heq | ⟨reading, hreading, heq⟩
    · rw [heq]
    · obtain ⟨handle, registry, hhandle, hregistry, -⟩ := reading?_eq_some.mp hreading
      rw [heq]
      exact (retains_store hreading).1.isEager_of_some hhandle hregistry
  · exact isEager_congr_handleAt? (bare_visit engine id) (handleAt?_visit_of_ne hother)

/-- Once a handle has been read it is up to date. -/
theorem reading?_store {reading : Reading V} (h : engine.reading? id = some reading) :
    (engine.store id reading).reading? id = some ⟨reading.handle, false, none⟩ := by
  obtain ⟨handle, registry, hhandle, hregistry, rfl⟩ := reading?_eq_some.mp h
  refine reading?_eq_some.mpr ⟨_, registry, handleAt?_store hhandle, ?_, ?_⟩
  · have hhome := congrArg (·.registry) (handle.bare_read registry.policy
      (engine.forest.version registry.root) (engine.forest.tree registry.root))
    exact (congrArg engine.registryAt? hhome).trans hregistry
  · exact if_pos (Handle.isCurrent_read _ _ _ _)

theorem heard_visit (engine : Engine V) (id : HandleId) : (engine.visit id).heard id = [] := by
  by_cases hempty : (engine.listeners id).isEmpty
  · rw [visit_of_isEmpty hempty, heard, notice?_of_isEmpty hempty]
    rfl
  · cases hreading : engine.reading? id with
    | none =>
      rw [visit, hreading]
      rw [heard, notice?_eq_none hreading]
      rfl
    | some reading =>
      rw [visit, hreading]
      dsimp only
      rw [if_neg hempty, heard, notice?, reading?_store hreading]
      rfl

theorem handleAt?_visit_visit (engine : Engine V) (id : HandleId) :
    ((engine.visit id).visit id).handleAt? id = (engine.visit id).handleAt? id := by
  rcases visit_cases engine id with heq | ⟨reading, hreading, heq⟩
  · rw [heq, heq]
  · obtain ⟨handle, registry, hhandle, -, -⟩ := reading?_eq_some.mp hreading
    rw [heq]
    rcases visit_cases (engine.store id reading) id with hagain | ⟨again, hfound, hagain⟩
    · rw [hagain]
    · obtain rfl := Option.some.inj ((reading?_store hreading).symm.trans hfound)
      rw [hagain, handleAt?_store (handleAt?_store hhandle), handleAt?_store hhandle]

/-- A sweep reads the first handle, and has its listeners called before it goes on. -/
theorem step_refresh (hlazy : engine.isEager id = false) :
    (engine.push (.refresh (id :: ids))).step =
      let next := (engine.visit id).push (.refresh ids)
      some ((engine.notice? id).elim next fun notice => next.push (.deliver notice)) := by
  let next := engine.push (.refresh ids)
  have hstep : (engine.push (.refresh (id :: ids))).step = engine.run (.refresh (id :: ids)) := rfl
  have hreading' : next.reading? id = engine.reading? id := rfl
  have hnotice : next.notice? id = engine.notice? id := rfl
  rw [hstep]
  cases hhandle : engine.handleAt? id with
  | none =>
    have hreading : engine.reading? id = none := by simp [reading?, hhandle]
    have hrun : engine.run (.refresh (id :: ids)) = some next := by
      rw [run, show (engine.push (.refresh ids)).handleAt? id = none from hhandle]
    rw [hrun, notice?_eq_none hreading, visit, hreading]
    rfl
  | some handle =>
    have hrun : engine.run (.refresh (id :: ids)) =
        some (if (engine.listeners id).isEmpty then next else next.refreshHandle id) := by
      rw [run, show (engine.push (.refresh ids)).handleAt? id = some handle from hhandle,
        listeners_eq hhandle]
    rw [hrun]
    by_cases hempty : (engine.listeners id).isEmpty
    · rw [if_pos hempty, notice?_of_isEmpty hempty, visit_of_isEmpty hempty]
      rfl
    · rw [if_neg hempty]
      cases hreading : engine.reading? id with
      | none =>
        rw [notice?_eq_none hreading, visit, hreading,
          refreshHandle_of_none (hreading'.trans hreading)]
        rfl
      | some reading =>
        obtain ⟨found, registry, hfound, hregistry, rfl⟩ := reading?_eq_some.mp hreading
        obtain rfl := Option.some.inj (hhandle.symm.trans hfound)
        have hrefresh := refreshHandle_eq (show next.handleAt? id = some handle from hhandle)
          (show next.registryAt? handle.registry = some registry from hregistry)
        rw [isEager_eq hhandle hregistry] at hlazy
        rw [hrefresh, visit, hreading, hnotice]
        dsimp only
        rw [if_neg hempty, hlazy]
        cases engine.notice? id <;> rfl

-- ---------------------------------------------------------------------------
-- All of them
-- ---------------------------------------------------------------------------

theorem outcomes_cons {move : Move V} (hmove : before.move? move = some after) :
    before.outcomes id (move :: moves) =
      (if before.subject? move = some id then (before.result? move).toList else []) ++
        after.outcomes id moves :=
  record_cons hmove

theorem outcomes_append {later : List (Move V)} (hplay : before.play? moves = some after) :
    before.outcomes id (moves ++ later) = before.outcomes id moves ++ after.outcomes id later :=
  record_append hplay

/-- A delivery, as long as listeners do nothing: each of them is called with the event. -/
theorem exists_delivery (engine : Engine V) (id : HandleId) (event : Event V)
    (listeners : List ListenerId) : ∃ moves metrics,
      (engine.push (.deliver ⟨id, event, listeners⟩)).Completes engine.stack moves
        { engine with metrics } ∧
      ∀ other, (engine.push (.deliver ⟨id, event, listeners⟩)).outcomes other moves =
        if id = other then listeners.map (.told · event) else [] := by
  induction listeners generalizing engine with
  | nil =>
    have hmove : (engine.push (.deliver ⟨id, event, []⟩)).move? .step = some engine := rfl
    refine ⟨[.step], engine.metrics, ?_, fun other => ?_⟩
    · exact .cons hmove rfl (by simp [push]) ⟨rfl, by simp, rfl, rfl⟩
    · have hresult : (engine.push (.deliver ⟨id, event, []⟩)).result? .step = none := rfl
      rw [outcomes_cons hmove, hresult]
      simp [outcomes, record]
  | cons listener rest ih =>
    have hcalled : (engine.push (.deliver ⟨id, event, listener :: rest⟩)).move? .step =
        some (((engine.push (.deliver ⟨id, event, rest⟩)).count .notifications).push
          (.callback (.property listener id event))) := rfl
    have hreturned : (((engine.push (.deliver ⟨id, event, rest⟩)).count .notifications).push
        (.callback (.property listener id event))).move? .resume =
          some ((engine.count .notifications).push (.deliver ⟨id, event, rest⟩)) := rfl
    obtain ⟨moves, metrics, hcompletes, houtcomes⟩ := ih (engine.count .notifications)
    refine ⟨.step :: .resume :: moves, metrics, ?_, fun other => ?_⟩
    · refine .cons hcalled rfl (by simp [push]) ?_
      exact .cons hreturned rfl (by simp [push, count]) hcompletes
    · rw [outcomes_cons hcalled, outcomes_cons hreturned, houtcomes]
      by_cases hother : id = other
      · simp [hother, subject?, result?, push, Frame.subject?]
      · simp [hother, subject?, push, Frame.subject?]

/-- A sweep reads its first handle, and its listeners are called. -/
theorem exists_visit (ids : List HandleId) (hlazy : engine.isEager id = false) :
    ∃ next moves metrics, (engine.push (.refresh (id :: ids))).move? .step = some next ∧
      next.Completes (.refresh ids :: engine.stack) moves
        ({ engine.visit id with metrics }.push (.refresh ids)) ∧
      ∀ other, next.outcomes other moves = if id = other then engine.heard id else [] := by
  have hstep : (engine.push (.refresh (id :: ids))).step = _ := step_refresh hlazy
  have hstack : (engine.visit id).stack = engine.stack := (congrArg stack (bare_visit engine id) :)
  cases hnotice : engine.notice? id with
  | none =>
    rw [hnotice] at hstep
    refine ⟨_, [], (engine.visit id).metrics, hstep, ⟨rfl, by simp, rfl, ?_⟩, fun other => ?_⟩
    · simp [push, hstack]
    · simp [heard, hnotice, outcomes, record]
  | some notice =>
    rw [hnotice] at hstep
    obtain ⟨moves, metrics, hcompletes, houtcomes⟩ := exists_delivery
      ((engine.visit id).push (.refresh ids)) notice.handle notice.event notice.listeners
    refine ⟨_, moves, metrics, hstep, ?_, fun other => ?_⟩
    · rw [← hstack]
      exact hcompletes
    · obtain rfl := handle_notice? hnotice
      refine (houtcomes other).trans ?_
      simp [heard, hnotice]

/-- What a sweep over these handles comes to. -/
structure Sweeps (before : Engine V) (ids : List HandleId) (moves : List (Move V))
    (after : Engine V) : Prop where
  completes : (before.push (.refresh ids)).Completes before.stack moves after
  bare : after.bare = before.bare
  handles : ∀ id, after.handleAt? id =
    if id ∈ ids then (before.visit id).handleAt? id else before.handleAt? id
  outcomes : ∀ id, (before.push (.refresh ids)).outcomes id moves =
    if id ∈ ids then before.heard id else []

theorem exists_sweep (hlazy : ∀ id ∈ ids, engine.isEager id = false) :
    ∃ moves after, engine.Sweeps ids moves after := by
  induction ids generalizing engine with
  | nil =>
    have hmove : (engine.push (.refresh [])).move? .step = some engine := rfl
    refine ⟨[.step], engine, .cons hmove rfl (by simp [push]) ⟨rfl, by simp, rfl, rfl⟩, rfl,
      fun id => by simp, fun id => ?_⟩
    rw [outcomes_cons hmove]
    simp [subject?, push, Frame.subject?, outcomes, record]
  | cons id rest ih =>
    obtain ⟨next, moves, metrics, hmove, hvisit, houtcomes⟩ :=
      exists_visit rest (hlazy id List.mem_cons_self)
    let visited := { engine.visit id with metrics }
    have hbare : visited.bare = engine.bare := bare_visit engine id
    have hsame {other : HandleId} (hother : other ≠ id) :
        visited.handleAt? other = engine.handleAt? other := handleAt?_visit_of_ne hother
    have hlazy' : ∀ other ∈ rest, visited.isEager other = false := by
      intro other hmem
      exact (isEager_visit engine id other).trans (hlazy other (List.mem_cons_of_mem _ hmem))
    obtain ⟨later, after, hsweep⟩ := ih hlazy'
    refine ⟨.step :: (moves ++ later), after, ?_, hsweep.bare.trans hbare, fun other => ?_,
      fun other => ?_⟩
    · have hstack : visited.stack = engine.stack := (congrArg stack hbare :)
      exact .cons hmove rfl (by simp [push]) (hvisit.trans (hstack ▸ hsweep.completes) (by simp))
    · rw [hsweep.handles]
      by_cases hother : other = id
      · subst hother
        have hvisited : (visited.visit other).handleAt? other =
            ((engine.visit other).visit other).handleAt? other := handleAt?_visit_congr rfl rfl
        rw [hvisited, handleAt?_visit_visit, if_pos List.mem_cons_self]
        exact ite_self _
      · rw [handleAt?_visit_congr hbare (hsame hother), hsame hother]
        simp [hother]
    · have hresult : (engine.push (.refresh (id :: rest))).result? .step = none := rfl
      rw [outcomes_cons hmove, hresult, outcomes_append hvisit.play, houtcomes, hsweep.outcomes]
      by_cases hother : other = id
      · subst hother
        have hvisited : visited.heard other = (engine.visit other).heard other :=
          heard_congr rfl rfl
        simp [hvisited, heard_visit]
      · simp [heard_congr hbare (hsame hother), hother, Ne.symm hother]

/-- In whichever order the handles are read, the sweep comes to the same. -/
theorem Sweeps.agree {ids' : List HandleId} {moves' : List (Move V)} {after' : Engine V}
    (h : before.Sweeps ids moves after) (h' : before.Sweeps ids' moves' after')
    (hids : ∀ id, id ∈ ids' ↔ id ∈ ids) :
    after' = { after with metrics := after'.metrics } ∧
      ∀ id, (before.push (.refresh ids')).outcomes id moves' =
        (before.push (.refresh ids)).outcomes id moves := by
  constructor
  · have hhandles : after'.handles = after.handles := by
      refine List.ext_getElem? fun id => ?_
      have hsame : after'.handleAt? id = after.handleAt? id := by
        rw [h.handles, h'.handles]
        simp only [hids]
      exact hsame
    have hbare : after'.bare = after.bare := h'.bare.trans h.bare.symm
    calc after' = { after'.bare with handles := after'.handles, metrics := after'.metrics } := rfl
      _ = { after.bare with handles := after.handles, metrics := after'.metrics } := by
        rw [hbare, hhandles]
  · intro id
    rw [h.outcomes, h'.outcomes]
    simp only [hids]

-- ---------------------------------------------------------------------------
-- The handles of a registry
-- ---------------------------------------------------------------------------

/-- The handles that a registry refreshes. -/
def listed (engine : Engine V) (home : RegistryId) : List HandleId :=
  ((engine.registryAt? home).map (·.handles)).getD []

omit [BEq V] in
theorem listed_of_terms {home : RegistryId} (h : (after.registryAt? home).map Registry.terms =
    (before.registryAt? home).map Registry.terms) : after.listed home = before.listed home := by
  have hlisted (engine : Engine V) : engine.listed home =
      (((engine.registryAt? home).map Registry.terms).map (·.handles)).getD [] := by
    rw [listed, Option.map_map]
    rfl
  rw [hlisted, hlisted, h]

omit [BEq V] in
theorem listed_modifyRegistry {other home : RegistryId} {f : Registry V → Registry V}
    (hf : ∀ registry, (f registry).handles = registry.handles) :
    (engine.modifyRegistry other f).listed home = engine.listed home := by
  rw [listed, registryAt?_modifyRegistry, Option.map_map, listed]
  refine congrArg (Option.getD · []) (Option.map_congr fun registry _ => ?_)
  simp only [Function.comp_apply]
  split
  · exact hf registry
  · rfl

omit [BEq V] in
theorem mem_listed_enroll {handle : Handle V} {home : RegistryId}
    (hmem : id ∈ (engine.enroll handle).listed home) :
    id ∈ engine.listed home ∨ id = engine.handles.length ∧ handle.registry = home := by
  rw [listed, enroll, registryAt?_modifyRegistry] at hmem
  simp only [listed]
  cases hregistry : engine.registryAt? home with
  | none => simp [registryAt?, show engine.registries[home]? = none from hregistry] at hmem
  | some registry =>
    simp only [registryAt?, show engine.registries[home]? = some registry from hregistry] at hmem
    by_cases hhome : handle.registry = home
    · simpa [hhome] using hmem
    · simpa [hhome] using hmem

omit [BEq V] in
theorem listed_openRegistry {registry : Registry V} {home : RegistryId}
    (hnone : registry.handles = []) :
    (engine.openRegistry registry).2.listed home = engine.listed home := by
  rw [listed, registryAt?, registries_openRegistry, listed, registryAt?]
  rcases getElem?_concat_cases engine.registries registry home with hold | ⟨hold, hnew⟩
  · rw [hold]
  · rw [hold, hnew]
    exact hnone

omit [BEq V] in
theorem listed_closeRegistry {other home : RegistryId} :
    (engine.closeRegistry other).listed home = engine.listed home := by
  unfold Engine.closeRegistry
  split
  · rfl
  · exact (listed_modifyRegistry (f := fun registry => { registry with closed := true })
      (fun _ => rfl) :)

theorem listed_refreshHandle (engine : Engine V) (id : HandleId) (home : RegistryId) :
    (engine.refreshHandle id).listed home = engine.listed home :=
  listed_of_terms (terms_refreshHandle engine id home)

theorem mem_listed_of_turn {move : Move V} {home : RegistryId} (hturn : before.Turn move after)
    (hmem : id ∈ after.listed home) :
    id ∈ before.listed home ∨ (after.handleAt? id).map (·.registry) = some home := by
  have hkept {middle : Engine V} (hsame : middle.listed home = before.listed home)
      (hmem : id ∈ middle.listed home) :
      id ∈ before.listed home ∨ (after.handleAt? id).map (·.registry) = some home :=
    .inl (hsame ▸ hmem)
  cases hturn with
  | calm h _ _ _ => exact hkept (listed_of_terms (h.terms home)) hmem
  | read h =>
    rw [listed_refreshHandle] at hmem
    exact hkept (listed_of_terms (h.terms home)) hmem
  | request hfresh _ =>
    rw [listed_refreshHandle] at hmem
    rw [home_refreshHandle]
    refine (mem_listed_enroll hmem).imp_right ?_
    rintro ⟨rfl, rfl⟩
    simp [enroll, handleAt?, modifyRegistry]
  | openRegistry _ => exact hkept (listed_openRegistry rfl) hmem
  | closeRegistry => exact hkept listed_closeRegistry hmem
  | listen _ =>
    rw [listed_refreshHandle] at hmem
    exact .inl hmem
  | refresh _ =>
    rw [listed_refreshHandle] at hmem
    exact .inl hmem
  | deliver _ _ =>
    refine hkept ?_ hmem
    exact listed_modifyRegistry fun _ => rfl
  | pass _ _ =>
    refine hkept ?_ hmem
    exact listed_modifyRegistry fun _ => rfl
  | _ => exact .inl hmem

/-- Registries list their own handles only. -/
theorem home_of_listed {home : RegistryId} (hplay : ({} : Engine V).play? moves = some engine)
    (hmem : id ∈ engine.listed home) : (engine.handleAt? id).map (·.registry) = some home := by
  refine play?_induction hplay (motive := fun engine => ∀ id, id ∈ engine.listed home →
    (engine.handleAt? id).map (·.registry) = some home) ?_ ?_ id hmem
  · intro id hmem
    simp [listed, registryAt?] at hmem
  · intro before move next hbefore hmove id hmem
    rcases mem_listed_of_turn (turn_of_move? hmove) hmem with hold | hnew
    · obtain ⟨handle, hhandle, rfl⟩ := Option.map_eq_some_iff.mp (hbefore id hold)
      obtain ⟨later, hlater, hbare⟩ := (does_of_move? hmove).retains.handle id handle hhandle
      rw [hlater]
      exact congrArg (fun bare => some bare.registry) hbare
    · exact hnew

/-- A registry that is not eager can sweep over its handles in any order. -/
theorem isEager_of_mem {home : RegistryId} {registry : Registry V}
    (hplay : ({} : Engine V).play? moves = some engine)
    (hregistry : engine.registryAt? home = some registry) (hlazy : registry.eager = false)
    (hmem : id ∈ registry.handles) : engine.isEager id = false := by
  have hlisted : id ∈ engine.listed home := by
    rw [listed, hregistry]
    exact hmem
  obtain ⟨handle, hhandle, rfl⟩ := Option.map_eq_some_iff.mp (home_of_listed hplay hlisted)
  rw [isEager_eq hhandle hregistry, hlazy]

end Engine

end Overlay

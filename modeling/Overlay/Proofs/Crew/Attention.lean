import Mathlib
import Overlay.Proofs.Crew.Notifier
import Overlay.Proofs.Engine.Attention

/-!
# Attention in a crew

Whichever worker makes a move, the handles that somebody listens to are seen to by one of
the workers or by a request in a queue (`attentive_of_move?`). So when nothing is in progress
and a registry's queue is empty, its handles with listeners have seen their root's version
(`current_of_isIdle`). Until then a transition of a handle may wait in the queue. It waits
once, and for those who listened at the time (`enqueued_news`).
-/

namespace Overlay.Crew

variable {V : Type} {crew before next finish : Crew V} {home : RegistryId} {id : HandleId}
  {worker : Worker} {move : Move V} {handle : Handle V} {registry : Registry V}

/-- Another worker has something to do that will have the handle read. -/
def elsewhere (crew : Crew V) (worker : Worker) (home : RegistryId) (id : HandleId) : Prop :=
  ∃ other, other ≠ worker ∧ ∃ frame ∈ crew.stack other, frame.Recalls home id

def Attentive (crew : Crew V) : Prop :=
  ∀ worker, (crew.view worker).Attentive (crew.elsewhere worker)

theorem attentive_empty : ({} : Crew V).Attentive :=
  fun _ => Engine.attentive_empty

/-- Some worker sees to a handle, whoever it is. -/
theorem recalled_iff : ((∃ frame ∈ crew.stack worker, frame.Recalls home id) ∨
      crew.elsewhere worker home id) ↔
    ∃ other, ∃ frame ∈ crew.stack other, frame.Recalls home id := by
  constructor
  · rintro (hframe | ⟨other, -, hframe⟩)
    · exact ⟨worker, hframe⟩
    · exact ⟨other, hframe⟩
  · rintro ⟨other, hframe⟩
    by_cases hother : other = worker
    · exact .inl (hother ▸ hframe)
    · exact .inr ⟨other, hother, hframe⟩

variable [BEq V] {moves : List (Worker × Move V)}

theorem attentive_of_move? (h : crew.Attentive) (hmove : crew.move? worker move = some next) :
    next.Attentive := by
  obtain ⟨-, after, hturn, -, rfl⟩ := turn_of_move? hmove
  intro other
  -- who moved has the stack that it left, and the others have theirs
  refine ((h worker).turn hturn).restack fun id handle registry _ hrecalls => ?_
  refine recalled_iff.mpr ?_
  rcases hrecalls with hframe | ⟨owner, howner, hframe⟩
  · refine ⟨worker, ?_⟩
    rwa [stack_leave, if_pos rfl]
  · refine ⟨owner, ?_⟩
    rwa [stack_leave, if_neg howner]

theorem attentive_of_play? (hplay : ({} : Crew V).play? moves = some finish) : finish.Attentive :=
  play?_induction (motive := Attentive) hplay attentive_empty attentive_of_move?

-- ---------------------------------------------------------------------------
-- News
-- ---------------------------------------------------------------------------

/-- The news of a handle's transitions, as far as anybody listened. -/
def news (crew : Crew V) (id : HandleId) (moves : List (Worker × Move V)) : List (Notice V) :=
  crew.record (fun before _ _ next => (before.engine.news? next.engine id).toList) moves

/-- Whether a registry announces a handle's changes is settled when there is news of it. -/
theorem notifies_of_news? {notice : Notice V} (hretains : next.engine.Retains finish.engine)
    (hnews : crew.engine.news? next.engine id = some notice) :
    next.engine.notifies home id = finish.engine.notifies home id := by
  obtain ⟨handle, registry, hhandle, hregistry⟩ := Engine.exists_of_news? hnews
  obtain ⟨later, hlater, hbare⟩ := hretains.handle id handle hhandle
  have hhome : later.registry = handle.registry := congrArg (·.registry) hbare
  rw [Engine.notifies, Engine.notifies, hretains.isEager_of_some hhandle hregistry, hhandle,
    hlater, Option.map_some, Option.map_some, hhome]

/-- What is put into a queue in a move is the news of the registry's handles. -/
theorem added_news (hmove : crew.move? worker move = some next)
    (hretains : next.engine.Retains finish.engine)
    (hnotifies : finish.engine.notifies home id = true) :
    (Engine.deliveries (crew.added home move next)).filter (·.handle = id) =
      (crew.engine.news? next.engine id).toList := by
  have hqueue := queue_of_move hmove
  obtain ⟨hpermits, after, hturn, -, rfl⟩ := turn_of_move? hmove
  cases hwake : move.isWake with
  | true =>
    obtain ⟨other, rfl, rfl⟩ := eq_wake_of_permits hpermits hwake
    have hnone : crew.engine.news? (crew.leave (.notifier other) (.wake other) after).engine id =
        none := Engine.news?_eq_none (Engine.cached?_congr (Engine.handles_of_wake hturn) id)
    rw [hnone, added, if_pos hwake]
    rfl
  | false =>
    obtain ⟨tasks, hgrown, hnews⟩ := Engine.queue_of_turn hturn hwake home
    have hadded : crew.added home move (crew.leave worker move after) = tasks :=
      List.append_cancel_left ((hqueue hwake home).symm.trans hgrown)
    replace hnews : (Engine.deliveries tasks).filter (·.handle = id) =
        if (crew.leave worker move after).engine.notifies home id then
          (crew.engine.news? (crew.leave worker move after).engine id).toList else [] := hnews id
    rw [hadded, hnews]
    cases hsome : crew.engine.news? (crew.leave worker move after).engine id with
    | none => simp
    | some notice =>
      have hsettled : (crew.leave worker move after).engine.notifies home id =
        finish.engine.notifies home id := notifies_of_news? hretains hsome
      rw [if_pos (hsettled.trans hnotifies)]

theorem enqueued_news (hplay : crew.play? moves = some finish)
    (hnotifies : finish.engine.notifies home id = true) :
    (Engine.deliveries (crew.enqueued home moves)).filter (·.handle = id) =
      crew.news id moves := by
  induction moves generalizing crew with
  | nil => rfl
  | cons entry rest ih =>
    obtain ⟨worker, move⟩ := entry
    obtain ⟨next, hnext, hrest⟩ := play?_cons_eq_some.mp hplay
    rw [enqueued, news, record_cons hnext, record_cons hnext, Engine.deliveries_append,
      List.filter_append, added_news hnext (retains_of_play? hrest) hnotifies]
    exact congrArg _ (ih hrest)

/-- A notifier with nothing left to do has told of all the news, in its order. -/
theorem calls_of_news (hplay : crew.play? moves = some finish)
    (hstart : crew.stack (.notifier home) = []) (hclear : crew.engine.queue home = [])
    (hidle : finish.stack (.notifier home) = []) (hempty : finish.engine.queue home = [])
    (hnotifies : finish.engine.notifies home id = true) :
    (crew.calls home moves).filter (·.isAbout id) =
      (crew.news id moves).flatMap Notice.callbacks := by
  have heager : finish.engine.isEager id = true := (Bool.and_eq_true _ _ ▸ hnotifies).2
  have hlazy (other : HandleId) (hother : finish.engine.isLazy other = true) :
      decide (other = id) = false := by
    refine decide_eq_false ?_
    rintro rfl
    exact absurd heager (by simp [Engine.isEager_of_isLazy hother])
  have hjobs := jobs_of_idle hplay hstart hidle hempty
  rw [hclear, List.nil_append] at hjobs
  rw [Callback.isAbout_eq, calls_of_idle hplay hstart hidle hlazy, hjobs,
    enqueued_news hplay hnotifies]

-- ---------------------------------------------------------------------------
-- When nothing is in progress
-- ---------------------------------------------------------------------------

/-- When nothing is in progress and the queue of an open eager registry is empty, each of
its handles that somebody listens to has seen the version that the tree has. And the
notifier has called, for every transition that the handle has made, those who listened
then: in order and each once, whatever listeners did meanwhile, whoever found the
transition, and however many requests to refresh shared a pass. -/
theorem current_of_isIdle (hplay : ({} : Crew V).play? moves = some finish)
    (hidle : finish.isIdle) (hempty : finish.engine.queue home = [])
    (hregistry : finish.engine.registryAt? home = some registry)
    (heager : registry.eager = true) (hlive : registry.closed = false)
    (hhandle : finish.engine.handleAt? id = some handle) (hhome : handle.registry = home) :
    (handle.listeners ≠ [] → ∃ cached, handle.cached = some cached ∧
        cached.version = finish.engine.forest.version registry.root) ∧
      (({} : Crew V).calls home moves).filter (·.isAbout id) =
        (({} : Crew V).news id moves).flatMap Notice.callbacks := by
  subst hhome
  have hstack := stack_of_isIdle hidle
  constructor
  · intro hlisteners
    have hattentive := attentive_of_play? hplay (.caller 0)
    have hwatches : (finish.view (.caller 0)).Watches id handle registry :=
      ⟨hhandle, hregistry, heager, hlive, hlisteners⟩
    have hcurrent : handle.isCurrent (finish.engine.forest.version registry.root) = true := by
      rcases hattentive.heeded id handle registry hwatches with h | hrecalls | ⟨other, -, frame, hmem, -⟩
      · exact h
      · rcases (Engine.recalls_iff hwatches.registryAt).mp hrecalls with hmem | ⟨frame, hmem, -⟩
        · rw [show Engine.queue (finish.view (.caller 0)) handle.registry = [] from hempty] at hmem
          exact absurd hmem (by simp)
        · rw [show Engine.stack (finish.view (.caller 0)) = [] from hstack _] at hmem
          exact absurd hmem (by simp)
      · rw [hstack other] at hmem
        exact absurd hmem (by simp)
    obtain ⟨cached, hcached, hseen⟩ := Handle.exists_of_isCurrent hcurrent
    have hbound := hattentive.bounded id handle registry cached hhandle hregistry hcached
    exact ⟨cached, hcached, Nat.le_antisymm hbound hseen⟩
  · have heager' : finish.engine.isEager id = true :=
      (Engine.isEager_eq hhandle hregistry).trans heager
    have hnotifies : finish.engine.notifies handle.registry id = true := by
      rw [Engine.notifies, hhandle, heager']
      simp
    exact calls_of_news hplay rfl rfl (hstack _) hempty hnotifies

theorem current_of_isIdle_folded : ∃ (finish : Crew Nat) (handle : Handle Nat)
    (registry : Registry Nat),
    ({} : Crew Nat).play? (oneEager ++ (twoChanges ++ threeJobs)) = some finish ∧
      finish.isIdle ∧ finish.engine.queue 0 = [] ∧
      finish.engine.registryAt? 0 = some registry ∧ registry.eager = true ∧
      registry.closed = false ∧ finish.engine.handleAt? 0 = some handle ∧
      handle.listeners = [1] ∧
      (∃ cached, handle.cached = some cached ∧
        cached.version = finish.engine.forest.version registry.root) ∧
      (({} : Crew Nat).news 0 (oneEager ++ (twoChanges ++ threeJobs))).length = 3 ∧
      (({} : Crew Nat).calls 0 (oneEager ++ (twoChanges ++ threeJobs))).filter (·.isAbout 0) =
        (({} : Crew Nat).news 0 (oneEager ++ (twoChanges ++ threeJobs))).flatMap
          Notice.callbacks := by
  have hrun : (({} : Crew Nat).play? (oneEager ++ (twoChanges ++ threeJobs))).any (fun finish =>
      finish.isIdle && (finish.engine.queue 0).isEmpty &&
        ((finish.engine.registryAt? 0).any fun registry => registry.eager && !registry.closed) &&
        (finish.engine.handleAt? 0).any fun handle =>
          handle.registry = 0 && handle.listeners = [1]) = true := by
    cbv
  have hnews : (({} : Crew Nat).news 0 (oneEager ++ (twoChanges ++ threeJobs))).length = 3 := by
    cbv
  simp only [Option.any_eq_true, Bool.and_eq_true, decide_eq_true_eq, List.isEmpty_iff,
    Bool.not_eq_true'] at hrun
  obtain ⟨finish, hplay, ⟨⟨hidle, hempty⟩, registry, hregistry, heager, hlive⟩, handle, hhandle,
    hhome, hlisteners⟩ := hrun
  obtain ⟨hcurrent, hcalls⟩ :=
    current_of_isIdle hplay hidle hempty hregistry heager hlive hhandle hhome
  exact ⟨finish, handle, registry, hplay, hidle, hempty, hregistry, heager, hlive, hhandle,
    hlisteners, hcurrent (by simp [hlisteners]), hnews, hcalls⟩

end Overlay.Crew

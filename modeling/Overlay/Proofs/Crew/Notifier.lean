import Mathlib
import Overlay.Proofs.Crew.Run
import Overlay.Proofs.Engine.Passes

/-!
# The notifier's work

Whatever the others put into a registry's queue meanwhile, the notifier takes up the
deliveries in the order in which they were queued, each once (`taken_of_move`), and
calls all listeners of one before it takes up the next (`made_of_move`). A request to
refresh stays in the queue, or is taken up by a pass, until the pass refreshes the
handles (`asked_of_move`); several requests may share one pass. For a run after which
the notifier has nothing left to do this is `jobs_eq_deliveries`.
-/

namespace Overlay.Crew

variable {V : Type} {crew next finish : Crew V} {home : RegistryId} {id : HandleId}
  {worker : Worker} {move : Move V}

/-- The notices that the registry's notifier has taken from the queue and not begun. -/
def waiting (crew : Crew V) (home : RegistryId) : List (Notice V) :=
  (crew.view (.notifier home)).waiting

/-- The calls of the deliveries that the registry's notifier has begun. -/
def running (crew : Crew V) (home : RegistryId) : List (Callback V) :=
  (crew.view (.notifier home)).running

def taken (crew : Crew V) (home : RegistryId) (worker : Worker) (move : Move V) :
    List (Notice V) :=
  if worker = .notifier home then ((crew.view worker).job? move).toList else []

def made (crew : Crew V) (home : RegistryId) (worker : Worker) (move : Move V) :
    List (Callback V) :=
  if worker = .notifier home then ((crew.view worker).call? move).toList else []

def added (crew : Crew V) (home : RegistryId) (move : Move V) (next : Crew V) : List (Task V) :=
  if move.isWake then []
  else (next.engine.queue home).drop (crew.engine.queue home).length

/-- A refresh is asked for: the request is in the queue, or a pass has taken it up. -/
def Asked (crew : Crew V) (home : RegistryId) : Prop :=
  .refreshAll ∈ crew.engine.queue home ∨
    ∃ notices, .pass home notices ∈ crew.stack (.notifier home)

theorem not_asked (hidle : crew.stack (.notifier home) = []) (hempty : crew.engine.queue home = []) :
    ¬ crew.Asked home := by
  rintro (hqueue | ⟨notices, hpass⟩)
  · exact absurd hqueue (by simp [hempty])
  · exact absurd hpass (by simp [hidle])

variable [BEq V] {moves former latter : List (Worker × Move V)}

/-- The notices that the registry's notifier takes up, one in a move at most. -/
def jobs (crew : Crew V) (home : RegistryId) (moves : List (Worker × Move V)) : List (Notice V) :=
  crew.record (fun before worker move _ => before.taken home worker move) moves

/-- The calls of property listeners that the registry's notifier makes. -/
def calls (crew : Crew V) (home : RegistryId) (moves : List (Worker × Move V)) :
    List (Callback V) :=
  crew.record (fun before worker move _ => before.made home worker move) moves

/-- The tasks that are put into the registry's queue, by whomever. -/
def enqueued (crew : Crew V) (home : RegistryId) (moves : List (Worker × Move V)) :
    List (Task V) :=
  crew.record (fun before _ move next => before.added home move next) moves

/-- In the course of these moves a pass of the notifier begins to refresh the handles of
the registry, if that is open then. -/
def Sweeps (crew : Crew V) (home : RegistryId) (moves : List (Worker × Move V)) : Prop :=
  ∃ former latter before next below, moves = former ++ (.notifier home, .step) :: latter ∧
    crew.play? former = some before ∧ before.move? (.notifier home) .step = some next ∧
    before.stack (.notifier home) = .pass home [] :: below ∧
    ∀ registry, before.engine.registryAt? home = some registry → registry.closed = false →
      next.stack (.notifier home) = .refresh registry.handles :: below

-- ---------------------------------------------------------------------------
-- Moves
-- ---------------------------------------------------------------------------

/-- A queue grows at its end, but for what its notifier takes. -/
theorem queue_of_move (h : crew.move? worker move = some next) (hwake : move.isWake = false)
    (home : RegistryId) :
    next.engine.queue home = crew.engine.queue home ++ crew.added home move next := by
  obtain ⟨-, after, hturn, -, rfl⟩ := turn_of_move? h
  obtain ⟨tasks, hqueue, -⟩ := Engine.queue_of_turn hturn hwake home
  replace hqueue : (crew.leave worker move after).engine.queue home =
    crew.engine.queue home ++ tasks := hqueue
  rw [added, if_neg (by simp [hwake]), hqueue, List.drop_left]

/-- What is taken up was next in line, and what is queued goes to its end. -/
theorem taken_of_move (h : crew.move? worker move = some next) (home : RegistryId) :
    crew.taken home worker move ++ next.waiting home ++ next.engine.posted home =
      crew.waiting home ++ crew.engine.posted home ++
        Engine.deliveries (crew.added home move next) := by
  have hqueue := queue_of_move h
  obtain ⟨hpermits, after, hturn, -, rfl⟩ := turn_of_move? h
  have hwaiting : (crew.leave worker move after).waiting home =
      if .notifier home = worker then after.waiting else crew.waiting home := by
    rw [waiting, Engine.waiting, view, stack_leave]
    split <;> rfl
  rw [hwaiting, taken]
  cases hwake : move.isWake with
  | true =>
    have hadded : crew.added home move (crew.leave worker move after) = [] := if_pos hwake
    obtain ⟨other, rfl, rfl⟩ := eq_wake_of_permits hpermits hwake
    obtain ⟨hmoved, hothers⟩ := Engine.posted_of_wake hturn
    rw [hadded, Engine.deliveries_nil, List.append_nil]
    by_cases hhome : other = home
    · subst hhome
      have hidle : crew.waiting other = [] := Engine.waiting_of_idle (Engine.stack_of_wake hturn)
      rw [if_pos rfl, if_pos rfl, hidle]
      exact hmoved
    · rw [if_neg (by simpa using hhome), if_neg (by simpa using Ne.symm hhome)]
      exact congrArg (crew.waiting home ++ Engine.deliveries ·) (hothers home (Ne.symm hhome))
  | false =>
    rw [Engine.posted, hqueue hwake home, Engine.deliveries_append, ← List.append_assoc]
    congr 1
    by_cases hworker : worker = .notifier home
    · subst hworker
      rw [if_pos rfl, if_pos rfl, Engine.waiting_of_turn hturn hwake]
      rfl
    · rw [if_neg hworker, if_neg (Ne.symm hworker), List.nil_append]
      rfl

/-- The notifier calls the listeners of what it has taken up, one after the other, and
takes up the next when there are none left. A listener's own reads may have it make
deliveries in between, of handles whose readers announce their changes. -/
theorem made_of_move (h : crew.move? worker move = some next)
    (hgrounded : (crew.view (.notifier home)).Grounded) :
    ∃ fresh : List (Notice V), crew.made home worker move ++ next.running home =
      (crew.taken home worker move ++ fresh).flatMap Notice.callbacks ++ crew.running home ∧
      (∀ notice ∈ fresh, next.engine.isLazy notice.handle = true) ∧
      (crew.taken home worker move = [] ∨ crew.running home = []) := by
  obtain ⟨-, after, hturn, -, rfl⟩ := turn_of_move? h
  have hrunning : (crew.leave worker move after).running home =
      if .notifier home = worker then after.running else crew.running home := by
    rw [running, Engine.running, view, stack_leave]
    split <;> rfl
  rw [hrunning, made, taken]
  by_cases hworker : worker = .notifier home
  · subst hworker
    obtain ⟨fresh, hturned, hlazy⟩ := Engine.lazy_of_turn hturn
    rw [if_pos rfl, if_pos rfl, if_pos rfl]
    refine ⟨fresh, hturned, hlazy, ?_⟩
    cases hjob : (crew.view (.notifier home)).job? move with
    | none => exact .inl rfl
    | some notice => exact .inr (Engine.running_of_job hgrounded hturn hjob)
  · rw [if_neg hworker, if_neg (Ne.symm hworker), if_neg hworker]
    exact ⟨[], rfl, fun _ hmem => absurd hmem (by simp), .inl rfl⟩

theorem grounded_of_move (h : crew.move? worker move = some next)
    (hgrounded : (crew.view (.notifier home)).Grounded) :
    (next.view (.notifier home)).Grounded := by
  obtain ⟨-, after, hturn, -, rfl⟩ := turn_of_move? h
  by_cases hworker : worker = .notifier home
  · subst hworker
    have hafter := Engine.grounded_of_turn hgrounded hturn
    rw [Engine.Grounded, Engine.base, view, stack_leave, if_pos rfl]
    exact hafter
  · rw [Engine.Grounded, Engine.base, view, stack_leave, if_neg (Ne.symm hworker)]
    exact hgrounded

/-- Only the sweep that ends a pass forgets a request. -/
theorem asked_of_move (h : crew.move? worker move = some next) (hasked : crew.Asked home) :
    next.Asked home ∨ ∃ below, worker = .notifier home ∧ move = .step ∧
      crew.stack (.notifier home) = .pass home [] :: below ∧
      next.stack (.notifier home) = crew.engine.sweep home ++ below := by
  obtain ⟨hpermits, after, hturn, -, rfl⟩ := turn_of_move? h
  cases hwake : move.isWake with
  | true =>
    obtain ⟨other, rfl, rfl⟩ := eq_wake_of_permits hpermits hwake
    left
    rcases hasked with hqueue | ⟨notices, hpass⟩
    · by_cases hhome : other = home
      · subst hhome
        refine (Engine.asked_of_wake hturn hqueue).imp_right fun htaken => ?_
        rwa [stack_leave, if_pos rfl]
      · left
        show .refreshAll ∈ after.queue home
        rw [(Engine.posted_of_wake hturn).2 home (Ne.symm hhome)]
        exact hqueue
    · right
      rw [stack_leave]
      split
      · rename_i hsame
        have hidle : crew.stack (.notifier other) = [] := Engine.stack_of_wake hturn
        rw [← hsame] at hidle
        exact absurd hpass (by simp [hidle])
      · exact ⟨notices, hpass⟩
  | false =>
    rcases hasked with hqueue | ⟨notices, hpass⟩
    · obtain ⟨tasks, hgrown, -⟩ := Engine.queue_of_turn hturn hwake home
      refine .inl (.inl ?_)
      show .refreshAll ∈ after.queue home
      rw [hgrown]
      exact List.mem_append_left _ hqueue
    · by_cases hworker : worker = .notifier home
      · subst hworker
        rcases Engine.pass_of_turn hpass hwake hturn with ⟨left, hleft⟩ | ⟨below, hstep, hstack, hswept⟩
        · refine .inl (.inr ⟨left, ?_⟩)
          rw [stack_leave, if_pos rfl]
          exact hleft
        · refine .inr ⟨below, rfl, hstep, hstack, ?_⟩
          rw [stack_leave, if_pos rfl, hswept]
          rfl
      · refine .inl (.inr ⟨notices, ?_⟩)
        rw [stack_leave, if_neg (Ne.symm hworker)]
        exact hpass

-- ---------------------------------------------------------------------------
-- Runs
-- ---------------------------------------------------------------------------

theorem jobs_of_play? (hplay : crew.play? moves = some finish) (home : RegistryId) :
    crew.jobs home moves ++ finish.waiting home ++ finish.engine.posted home =
      crew.waiting home ++ crew.engine.posted home ++
        Engine.deliveries (crew.enqueued home moves) := by
  induction moves generalizing crew with
  | nil =>
    obtain rfl := Option.some.inj hplay
    exact (List.append_nil _).symm
  | cons entry rest ih =>
    obtain ⟨worker, move⟩ := entry
    obtain ⟨next, hnext, hrest⟩ := play?_cons_eq_some.mp hplay
    have hlater := ih hrest
    have htaken := taken_of_move hnext home
    simp only [List.append_assoc] at hlater htaken
    rw [jobs, enqueued, record_cons hnext, record_cons hnext, Engine.deliveries_append]
    simp only [List.append_assoc]
    calc crew.taken home worker move ++
          (next.jobs home rest ++ (finish.waiting home ++ finish.engine.posted home))
      _ = crew.taken home worker move ++ (next.waiting home ++ (next.engine.posted home ++
          Engine.deliveries (next.enqueued home rest))) := by rw [hlater]
      _ = (crew.taken home worker move ++ (next.waiting home ++ next.engine.posted home)) ++
          Engine.deliveries (next.enqueued home rest) := by simp only [List.append_assoc]
      _ = _ := by
        rw [htaken]
        simp only [List.append_assoc]
        rfl

/-- But for what listeners' own reads give rise to, the notifier makes the calls of the
deliveries that it takes up, one delivery after the other. -/
theorem calls_of_play? (hplay : crew.play? moves = some finish)
    (hgrounded : (crew.view (.notifier home)).Grounded) {p : HandleId → Bool}
    (hp : ∀ id, finish.engine.isLazy id = true → p id = false) :
    (crew.calls home moves ++ finish.running home).filter (·.concerns p) =
      (crew.running home).filter (·.concerns p) ++
        ((crew.jobs home moves).filter (p ·.handle)).flatMap Notice.callbacks := by
  induction moves generalizing crew with
  | nil =>
    obtain rfl := Option.some.inj hplay
    exact (List.append_nil _).symm
  | cons entry rest ih =>
    obtain ⟨worker, move⟩ := entry
    obtain ⟨next, hnext, hrest⟩ := play?_cons_eq_some.mp hplay
    obtain ⟨fresh, hmade, hlazy, hturns⟩ := made_of_move hnext hgrounded
    have hlater := ih hrest (grounded_of_move hnext hgrounded)
    have hfresh : fresh.filter (p ·.handle) = [] :=
      List.filter_eq_nil_iff.mpr fun notice hmem => by
        simp [hp _ ((retains_of_play? hrest).isLazy (hlazy notice hmem))]
    -- of what the move begins, only what was taken up counts
    have hfiltered : (crew.made home worker move ++ next.running home).filter (·.concerns p) =
        ((crew.taken home worker move).filter (p ·.handle)).flatMap Notice.callbacks ++
          (crew.running home).filter (·.concerns p) := by
      rw [hmade, List.filter_append, Engine.filter_flatMap_callbacks, List.filter_append, hfresh,
        List.append_nil]
    have hswap : ((crew.taken home worker move).filter (p ·.handle)).flatMap Notice.callbacks ++
          (crew.running home).filter (·.concerns p) =
        (crew.running home).filter (·.concerns p) ++
          ((crew.taken home worker move).filter (p ·.handle)).flatMap Notice.callbacks := by
      rcases hturns with hnone | hnone
      · simp [hnone]
      · simp [hnone]
    rw [calls, jobs, record_cons hnext, record_cons hnext, List.filter_append (crew.taken _ _ _),
      List.flatMap_append, ← List.append_assoc, ← hswap, ← hfiltered]
    simp only [List.append_assoc, List.filter_append] at hlater ⊢
    exact congrArg _ hlater

theorem swept_of_play? (hplay : crew.play? moves = some finish) (hasked : crew.Asked home)
    (hdone : ¬ finish.Asked home) : crew.Sweeps home moves := by
  induction moves generalizing crew with
  | nil =>
    obtain rfl := Option.some.inj hplay
    exact absurd hasked hdone
  | cons entry rest ih =>
    obtain ⟨worker, move⟩ := entry
    obtain ⟨next, hnext, hrest⟩ := play?_cons_eq_some.mp hplay
    rcases asked_of_move hnext hasked with hlater | ⟨below, rfl, rfl, hstack, hswept⟩
    · obtain ⟨former, latter, before, after, below, rfl, hbefore, hmove, hsweep⟩ :=
        ih hrest hlater
      exact ⟨(worker, move) :: former, latter, before, after, below, rfl,
        play?_cons_eq_some.mpr ⟨next, hnext, hbefore⟩, hmove, hsweep⟩
    · refine ⟨[], rest, crew, next, below, rfl, rfl, hnext, hstack, fun registry hregistry hopen => ?_⟩
      rw [hswept, Engine.sweep, hregistry]
      simp [hopen]

-- ---------------------------------------------------------------------------
-- When the notifier has nothing left to do
-- ---------------------------------------------------------------------------

theorem jobs_of_idle (hplay : crew.play? moves = some finish)
    (hstart : crew.stack (.notifier home) = []) (hidle : finish.stack (.notifier home) = [])
    (hempty : finish.engine.queue home = []) :
    crew.jobs home moves =
      Engine.deliveries (crew.engine.queue home ++ crew.enqueued home moves) := by
  have hnone : finish.waiting home = [] := Engine.waiting_of_idle hidle
  have hfirst : crew.waiting home = [] := Engine.waiting_of_idle hstart
  have hleft : finish.engine.posted home = [] := by
    rw [Engine.posted, hempty, Engine.deliveries_nil]
  have hjobs := jobs_of_play? hplay home
  rw [hnone, hfirst, hleft, List.append_nil, List.append_nil, List.nil_append] at hjobs
  rw [Engine.deliveries_append]
  exact hjobs

theorem calls_of_idle (hplay : crew.play? moves = some finish)
    (hstart : crew.stack (.notifier home) = []) (hidle : finish.stack (.notifier home) = [])
    {p : HandleId → Bool} (hp : ∀ id, finish.engine.isLazy id = true → p id = false) :
    (crew.calls home moves).filter (·.concerns p) =
      ((crew.jobs home moves).filter (p ·.handle)).flatMap Notice.callbacks := by
  have hnone : finish.running home = [] := Engine.running_of_idle hidle
  have hfirst : crew.running home = [] := Engine.running_of_idle hstart
  have hgrounded : (crew.view (.notifier home)).Grounded := by
    show ((crew.stack (.notifier home)).dropWhile _).length ≤ 1
    simp [hstart]
  have hcalls := calls_of_play? hplay hgrounded hp
  rw [hnone, hfirst, List.append_nil] at hcalls
  exact hcalls

/-- A notifier that has nothing left to do has taken up the deliveries that were in its
queue and those that were put there meanwhile, in their order and each once, and has
made their calls in this order; and since every moment at which the queue held a request
to refresh it has begun to refresh the handles, if the registry was open still. This is
so whatever the queue held at first, and whatever the others, its own work and the
listeners that it called put there, and when. -/
theorem jobs_eq_deliveries (hplay : crew.play? moves = some finish)
    (hstart : crew.stack (.notifier home) = []) (hidle : finish.stack (.notifier home) = [])
    (hempty : finish.engine.queue home = []) :
    crew.jobs home moves =
        Engine.deliveries (crew.engine.queue home ++ crew.enqueued home moves) ∧
      (crew.calls home moves).filter (·.concerns (!finish.engine.isLazy ·)) =
        ((crew.jobs home moves).filter (!finish.engine.isLazy ·.handle)).flatMap
          Notice.callbacks ∧
      ∀ former latter middle, moves = former ++ latter → crew.play? former = some middle →
        .refreshAll ∈ middle.engine.queue home → middle.Sweeps home latter := by
  refine ⟨jobs_of_idle hplay hstart hidle hempty, ?_, ?_⟩
  · exact calls_of_idle hplay hstart hidle fun id hlazy => by simp [hlazy]
  · rintro former latter middle rfl hformer hasked
    obtain ⟨split, hsplit, hlatter⟩ := play?_append_eq_some.mp hplay
    obtain rfl := Option.some.inj (hformer.symm.trans hsplit)
    exact swept_of_play? hlatter (.inl hasked) (not_asked hidle hempty)

/-- A handle of an eager registry, and one who listens to it. -/
def oneEager : List (Worker × Move Nat) :=
  Worker.does (.caller 0) [.call (.settable "leaf" .empty), .call (.hold [.node 0]),
    .call (.openRegistry 0 .fail "," true),
    .call (.request 0 "key" "number" 0 fun text => .ok (if text = "one" then 1 else 2)),
    .call (.listen 0 1), .step]

def setKey (text : String) : List (Move Nat) :=
  [.call (.edit 0 (.set "key" text)), .step, .step]

/-- Somebody sets the key twice, and somebody else reads it in between. So a delivery
is queued between two requests to refresh. -/
def twoChanges : List (Worker × Move Nat) :=
  Worker.does (.caller 0) (setKey "one") ++ (.caller 1, .call (.read 0)) ::
    Worker.does (.caller 0) (setKey "two")

/-- The first listener that the notifier calls reads the handle, and sets the key back.
Its news and its request are queued, and the sweep of the pass finds more news. -/
def threeJobs : List (Worker × Move Nat) :=
  Worker.does (.notifier 0) [.wake 0, .step, .step, .call (.read 0)] ++
    Worker.does (.notifier 0) (setKey "one") ++
    Worker.does (.notifier 0) [.resume, .step, .step, .step, .step, .wake 0, .step, .resume, .step,
      .wake 0, .step, .step, .resume, .step, .step, .step, .step]

theorem jobs_eq_deliveries_mixed : ∃ crew middle finish : Crew Nat,
    ({} : Crew Nat).play? oneEager = some crew ∧ crew.play? twoChanges = some middle ∧
      crew.play? (twoChanges ++ threeJobs) = some finish ∧
      crew.stack (.notifier 0) = [] ∧ finish.stack (.notifier 0) = [] ∧
      finish.engine.queue 0 = [] ∧ .refreshAll ∈ middle.engine.queue 0 ∧
      (crew.jobs 0 (twoChanges ++ threeJobs)).length = 3 ∧
      crew.jobs 0 (twoChanges ++ threeJobs) = Engine.deliveries
        (crew.engine.queue 0 ++ crew.enqueued 0 (twoChanges ++ threeJobs)) ∧
      middle.Sweeps 0 threeJobs := by
  have hrun : (({} : Crew Nat).play? oneEager).any (fun crew =>
      (crew.stack (.notifier 0)).isEmpty &&
        (crew.jobs 0 (twoChanges ++ threeJobs)).length = 3 &&
        (crew.play? (twoChanges ++ threeJobs)).any fun finish =>
          (finish.stack (.notifier 0)).isEmpty && (finish.engine.queue 0).isEmpty) = true := by
    cbv
  have hasked : ((({} : Crew Nat).play? oneEager).bind (·.play? twoChanges)).bind
      (fun middle => (middle.engine.queue 0).head?) = some .refreshAll := by
    cbv
  simp only [Option.any_eq_true, Bool.and_eq_true, decide_eq_true_eq, List.isEmpty_iff] at hrun
  obtain ⟨crew, hcrew, ⟨hstart, hlength⟩, finish, hplay, hidle, hempty⟩ := hrun
  rw [hcrew, Option.bind_some] at hasked
  obtain ⟨middle, hmiddle, hhead⟩ := Option.bind_eq_some_iff.mp hasked
  have hqueue := List.mem_of_head? hhead
  obtain ⟨hjobs, -, hsweeps⟩ := jobs_eq_deliveries hplay hstart hidle hempty
  exact ⟨crew, middle, finish, hcrew, hmiddle, hplay, hstart, hidle, hempty, hqueue, hlength, hjobs,
    hsweeps twoChanges threeJobs middle rfl hmiddle hqueue⟩

end Overlay.Crew

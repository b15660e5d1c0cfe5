import Overlay.Proofs.Engine.Listeners

/-!
# What listeners hear

A listener is told of a handle by the calls that a run makes (`told`), and is meant to
hear of the transitions that the handle makes while it is registered (`meant`). For
a handle that is not announced by a notifier, what has been called for and not been
made yet is running (`due`); it is taken from the front, and a transition is put
there (`due_of_unnotified`). So a listener hears of each transition once (`told_perm`), and
of all of them in order if nothing is due to it when the next one comes (`told_eq`).
-/

namespace Overlay

variable {V : Type}

/-- What the call tells this listener about this handle. -/
def Callback.tells? (listener : ListenerId) (id : HandleId) : Callback V → Option (Event V)
  | .property other handle event => if other = listener ∧ handle = id then some event else none
  | .node _ _ => none

theorem Callback.tells?_of_not_about {call : Callback V} {id : HandleId} (listener : ListenerId)
    (h : call.isAbout id = false) : call.tells? listener id = none := by
  cases call with
  | node _ _ => rfl
  | property other handle event =>
    have hne : handle ≠ id := by simpa [isAbout] using h
    simp [tells?, hne]

theorem filterMap_tells?_filter (calls : List (Callback V)) (listener : ListenerId)
    (id : HandleId) : (calls.filter (·.isAbout id)).filterMap (·.tells? listener id) =
      calls.filterMap (·.tells? listener id) := by
  induction calls with
  | nil => rfl
  | cons call calls ih =>
    cases habout : call.isAbout id with
    | true => rw [List.filter_cons_of_pos habout, List.filterMap_cons, List.filterMap_cons, ih]
    | false =>
      rw [List.filter_cons_of_neg (by simp [habout]), ih, List.filterMap_cons,
        Callback.tells?_of_not_about listener habout]

/-- Who is registered once is told once. -/
theorem Notice.filterMap_callbacks (notice : Notice V) (h : notice.listeners.Nodup)
    (listener : ListenerId) : notice.callbacks.filterMap (·.tells? listener notice.handle) =
      if listener ∈ notice.listeners then [notice.event] else [] := by
  obtain ⟨handle, event, listeners⟩ := notice
  induction listeners with
  | nil => rfl
  | cons first others ih =>
    obtain ⟨hfirst, hothers⟩ := List.nodup_cons.mp h
    have hrest := ih hothers
    simp only [Notice.callbacks, List.map_cons, List.filterMap_cons] at hrest ⊢
    rw [hrest]
    by_cases hlistener : first = listener
    · subst hlistener
      simp [Callback.tells?, hfirst]
    · simp [Callback.tells?, hlistener, Ne.symm hlistener]

namespace Engine

section
variable {α : Type} [BEq V] {see : Engine V → Move V → Engine V → List α} {engine next : Engine V}
  {move : Move V} {rest : List (Move V)}

/-- What is seen in the moves of a run, in their order. -/
def record (see : Engine V → Move V → Engine V → List α) (engine : Engine V) :
    List (Move V) → List α
  | [] => []
  | move :: rest =>
    match engine.move? move with
    | none => []
    | some next => see engine move next ++ next.record see rest

theorem record_cons (h : engine.move? move = some next) :
    engine.record see (move :: rest) = see engine move next ++ next.record see rest := by
  rw [record, h]

theorem record_append {earlier later : List (Move V)} {middle : Engine V}
    (hplay : engine.play? earlier = some middle) :
    engine.record see (earlier ++ later) = engine.record see earlier ++ middle.record see later := by
  induction earlier generalizing engine with
  | nil => exact congrArg (fun engine => record see engine later) (Option.some.inj hplay)
  | cons move rest ih =>
    obtain ⟨next, hnext, hrest⟩ := play?_cons_eq_some.mp hplay
    simp only [List.cons_append, record_cons hnext, ih hrest, List.append_assoc]

/-- Is every move of the run of this kind, in the engine that it is made in? -/
def every (kind : Engine V → Move V → Bool) (engine : Engine V) : List (Move V) → Bool
  | [] => true
  | move :: rest => kind engine move && (engine.move? move).all (·.every kind rest)

theorem every_cons {kind : Engine V → Move V → Bool} (hnext : engine.move? move = some next) :
    engine.every kind (move :: rest) = true ↔
      kind engine move = true ∧ next.every kind rest = true := by
  rw [every, hnext, Option.all_some, Bool.and_eq_true]

theorem every_of_mem {kind : Move V → Bool} {moves : List (Move V)}
    (h : ∀ move ∈ moves, kind move = true) : engine.every (fun _ => kind) moves = true := by
  induction moves generalizing engine with
  | nil => rfl
  | cons move rest ih =>
    have hrest (next : Engine V) : next.every (fun _ => kind) rest = true :=
      ih fun other hmem => h other (List.mem_cons_of_mem _ hmem)
    simp [every, h move List.mem_cons_self, hrest]

theorem every_mono {kind kind' : Engine V → Move V → Bool} {moves : List (Move V)}
    (hkind : ∀ engine move, kind engine move = true → kind' engine move = true)
    (h : engine.every kind moves = true) : engine.every kind' moves = true := by
  induction moves generalizing engine with
  | nil => rfl
  | cons move rest ih =>
    rw [every, Bool.and_eq_true] at h ⊢
    refine ⟨hkind engine move h.1, ?_⟩
    cases hnext : engine.move? move with
    | none => rfl
    | some next =>
      rw [hnext] at h
      exact ih h.2

theorem every_append {kind : Engine V → Move V → Bool} {earlier later : List (Move V)}
    {middle : Engine V} (hplay : engine.play? earlier = some middle)
    (h : engine.every kind (earlier ++ later) = true) :
    engine.every kind earlier = true ∧ middle.every kind later = true := by
  induction earlier generalizing engine with
  | nil =>
    obtain rfl := Option.some.inj hplay
    exact ⟨rfl, h⟩
  | cons move rest ih =>
    obtain ⟨next, hnext, hrest⟩ := play?_cons_eq_some.mp hplay
    obtain ⟨hkind, hevery⟩ := (every_cons hnext).mp h
    obtain ⟨hearlier, hlater⟩ := ih hrest hevery
    exact ⟨(every_cons hnext).mpr ⟨hkind, hearlier⟩, hlater⟩

theorem every_append_of {kind : Engine V → Move V → Bool} {earlier later : List (Move V)}
    {middle : Engine V} (hplay : engine.play? earlier = some middle)
    (hearlier : engine.every kind earlier = true) (hlater : middle.every kind later = true) :
    engine.every kind (earlier ++ later) = true := by
  induction earlier generalizing engine with
  | nil => exact Option.some.inj hplay ▸ hlater
  | cons move rest ih =>
    obtain ⟨next, hnext, hrest⟩ := play?_cons_eq_some.mp hplay
    obtain ⟨hkind, hevery⟩ := (every_cons hnext).mp hearlier
    exact (every_cons hnext).mpr ⟨hkind, ih hrest hevery⟩

/-- What moves of this kind keep holds after a run of such moves. -/
theorem every_induction {kind : Engine V → Move V → Bool} {good : Engine V → Prop}
    {moves : List (Move V)} {after : Engine V} (hplay : engine.play? moves = some after)
    (hevery : engine.every kind moves = true) (hstart : good engine)
    (hgood : ∀ {before move after}, good before → kind before move = true →
      before.move? move = some after → good after) : good after := by
  induction moves generalizing engine with
  | nil => exact Option.some.inj hplay ▸ hstart
  | cons move rest ih =>
    obtain ⟨next, hnext, hrest⟩ := play?_cons_eq_some.mp hplay
    obtain ⟨hkind, hlater⟩ := (every_cons hnext).mp hevery
    exact ih hrest hlater (hgood hstart hkind hnext)

end

/-- The news of this handle that listeners who are being told have yet to hear. -/
def due (engine : Engine V) (listener : ListenerId) (id : HandleId) : List (Event V) :=
  engine.running.filterMap (·.tells? listener id)

/-- What the listener is told of the handle in a move. -/
def tells? (engine : Engine V) (move : Move V) (listener : ListenerId) (id : HandleId) :
    Option (Event V) :=
  (engine.call? move).bind (·.tells? listener id)

variable [BEq V] {engine before after : Engine V} {id : HandleId} {listener : ListenerId}
  {move : Move V} {moves : List (Move V)}

/-- The transition that the listener is to hear of: those who are registered when
it is made are meant. -/
def meant (before after : Engine V) (listener : ListenerId) (id : HandleId) : List (Event V) :=
  if listener ∈ after.listeners id then (before.event? after id).toList else []

/-- What a listener is told of a handle in a run. -/
def told (engine : Engine V) (listener : ListenerId) (id : HandleId) (moves : List (Move V)) :
    List (Event V) :=
  engine.record (fun before move _ => (before.tells? move listener id).toList) moves

/-- What a listener is meant to hear of a handle in a run. -/
def toHear (engine : Engine V) (listener : ListenerId) (id : HandleId) (moves : List (Move V)) :
    List (Event V) :=
  engine.record (fun before _ after => before.meant after listener id) moves

/-- The transitions that a handle makes in a run. -/
def events (engine : Engine V) (id : HandleId) (moves : List (Move V)) : List (Event V) :=
  engine.record (fun before _ after => (before.event? after id).toList) moves

theorem meant_of_handles_eq (h : after.handles = before.handles) :
    before.meant after listener id = [] := by
  rw [meant, event?_of_cached_eq (cached?_congr h id), Option.toList_none, ite_self]

omit [BEq V] in
theorem due_of_running (h : engine.running = []) : engine.due listener id = [] := by
  rw [due, h, List.filterMap_nil]

omit [BEq V] in
theorem due_of_isIdle (hidle : engine.isIdle) : engine.due listener id = [] :=
  due_of_running (running_of_idle (List.isEmpty_iff.mp hidle))

omit [BEq V] in
/-- The call that a move makes is the next of those that are running. -/
theorem running_of_call? {call : Callback V} (h : engine.call? move = some call) :
    ∃ others, engine.running = call :: others := by
  unfold call? at h
  split at h
  · split at h
    · rename_i hstack
      obtain rfl := Option.some.inj h
      exact ⟨_, running_of_stack hstack⟩
    · exact absurd h (by simp)
  · exact absurd h (by simp)

omit [BEq V] in
theorem tells?_of_due_eq_nil (h : engine.due listener id = []) :
    engine.tells? move listener id = none := by
  cases hcall : engine.call? move with
  | none => rw [tells?, hcall, Option.bind_none]
  | some call =>
    obtain ⟨others, hrunning⟩ := running_of_call? hcall
    rw [due, hrunning] at h
    rw [tells?, hcall, Option.bind_some]
    exact List.filterMap_eq_nil_iff.mp h call List.mem_cons_self

theorem filterMap_news? (hnodup : (after.listeners id).Nodup) :
    ((before.news? after id).toList.flatMap Notice.callbacks).filterMap (·.tells? listener id) =
      before.meant after listener id := by
  rw [news?, meant]
  cases hevent : before.event? after id with
  | none => simp
  | some event =>
    rw [Option.bind_some]
    split
    · rename_i hempty
      simp [List.isEmpty_iff.mp hempty]
    · rw [Option.toList_some, List.flatMap_singleton]
      exact Notice.filterMap_callbacks ⟨id, event, after.listeners id⟩ hnodup listener

/-- What is due to a listener is taken from the front, and a transition that it is to
hear of is put there. -/
theorem due_of_unnotified (listener : ListenerId) (htidy : before.Tidy) (hafter : after.Tidy)
    (hbefore : before.isEager id = false) (hlazy : after.isEager id = false)
    (hturn : before.Turn move after) :
    (before.tells? move listener id).toList ++ after.due listener id =
      before.meant after listener id ++ before.due listener id := by
  have hjob : (before.job? move).toList.filter (·.handle = id) = [] := by
    refine List.filter_eq_nil_iff.mpr fun notice hmem => ?_
    have heager := htidy.job hturn (Option.mem_toList.mp hmem)
    simp only [decide_eq_true_eq]
    rintro rfl
    exact absurd heager (by simp [hbefore])
  have hrunning := congrArg (List.filterMap (·.tells? listener id)) (about_of_turn hturn id)
  rw [filterMap_tells?_filter, List.filterMap_append, List.filterMap_append,
    filterMap_tells?_filter, begun, hjob, hlazy] at hrunning
  rw [due, due, ← filterMap_news? (hafter.nodup id), tells?]
  cases hcall : before.call? move with
  | none => simpa [hcall] using hrunning
  | some call =>
    rw [hcall] at hrunning
    cases htells : call.tells? listener id with
    | none => simpa [htells] using hrunning
    | some event => simpa [htells] using hrunning

theorem due_of_turn (listener : ListenerId) (htidy : before.Tidy) (hafter : after.Tidy)
    (hbefore : before.isLazy id = true) (hlazy : after.isLazy id = true)
    (hturn : before.Turn move after) :
    (before.tells? move listener id).toList ++ after.due listener id =
      before.meant after listener id ++ before.due listener id :=
  due_of_unnotified listener htidy hafter (isEager_of_isLazy hbefore) (isEager_of_isLazy hlazy) hturn

-- ---------------------------------------------------------------------------
-- Runs
-- ---------------------------------------------------------------------------

omit [BEq V] in
open scoped List in
/-- What is due after a move is heard later, whenever it was put there. -/
theorem perm_of_due {told meant due laterTold laterMeant laterDue lastDue : List (Event V)}
    (hnow : told ++ laterDue = meant ++ due) (hlater : laterTold ++ lastDue ~ laterMeant ++ laterDue) :
    told ++ laterTold ++ lastDue ~ meant ++ laterMeant ++ due := by
  rw [List.append_assoc, List.append_assoc]
  calc told ++ (laterTold ++ lastDue)
    _ ~ told ++ (laterMeant ++ laterDue) := hlater.append_left _
    _ ~ told ++ (laterDue ++ laterMeant) := List.perm_append_comm.append_left _
    _ = meant ++ (due ++ laterMeant) := by rw [← List.append_assoc, hnow, List.append_assoc]
    _ ~ meant ++ (laterMeant ++ due) := List.perm_append_comm.append_left _

open scoped List in
/-- A listener is told of each transition that it is to hear of, and of each once. -/
theorem told_perm (listener : ListenerId) (htidy : before.Tidy) (hlazy : before.isLazy id = true)
    (hplay : before.play? moves = some after) :
    before.told listener id moves ++ after.due listener id ~
      before.toHear listener id moves ++ before.due listener id := by
  induction moves generalizing before with
  | nil =>
    obtain rfl := Option.some.inj hplay
    exact .refl _
  | cons move rest ih =>
    obtain ⟨next, hnext, hrest⟩ := play?_cons_eq_some.mp hplay
    have hnextTidy := htidy.play_move hnext
    have hnextLazy := (does_of_move? hnext).retains.isLazy hlazy
    have hdue := due_of_turn listener htidy hnextTidy hlazy hnextLazy
      (turn_of_move? hnext)
    have hlater := ih hnextTidy hnextLazy hrest
    rw [told, toHear, record_cons hnext, record_cons hnext]
    exact perm_of_due hdue hlater

/-- A listener is told of transitions in their order, if nothing is due to it whenever
there is one that it is to hear of. -/
theorem told_eq {kind : Engine V → Move V → Bool} (good : Engine V → Prop)
    (hgood : ∀ {before move after}, good before → kind before move = true →
      before.move? move = some after →
      good after ∧ (before.meant after listener id = [] ∨ before.due listener id = []))
    (htidy : before.Tidy) (hlazy : before.isLazy id = true) (hstart : good before)
    (hevery : before.every kind moves = true) (hplay : before.play? moves = some after) :
    before.told listener id moves ++ after.due listener id =
      before.due listener id ++ before.toHear listener id moves := by
  induction moves generalizing before with
  | nil =>
    obtain rfl := Option.some.inj hplay
    exact (List.append_nil _).symm
  | cons move rest ih =>
    obtain ⟨next, hnext, hrest⟩ := play?_cons_eq_some.mp hplay
    have hnextTidy := htidy.play_move hnext
    have hnextLazy := (does_of_move? hnext).retains.isLazy hlazy
    have hdue := due_of_turn listener htidy hnextTidy hlazy hnextLazy
      (turn_of_move? hnext)
    obtain ⟨hkind, hrestEvery⟩ := (every_cons hnext).mp hevery
    obtain ⟨hnextGood, hone⟩ := hgood hstart hkind hnext
    have hlater := ih hnextTidy hnextLazy hnextGood hrestEvery hrest
    rw [told, toHear, record_cons hnext, record_cons hnext, List.append_assoc]
    rw [told, toHear] at hlater
    rw [hlater, ← List.append_assoc, hdue]
    rcases hone with hnone | hnone
    · rw [hnone, List.nil_append, List.nil_append]
    · rw [hnone, List.append_nil, List.nil_append]

/-- A listener that stays registered is to hear of every transition. -/
theorem toHear_eq_events (hmem : listener ∈ before.listeners id)
    (hstays : .call (.unlisten id listener) ∉ moves) (hplay : before.play? moves = some after) :
    before.toHear listener id moves = before.events id moves := by
  induction moves generalizing before with
  | nil => rfl
  | cons move rest ih =>
    obtain ⟨next, hnext, hrest⟩ := play?_cons_eq_some.mp hplay
    obtain ⟨hmove, hstays⟩ := not_or.mp (fun h => hstays (List.mem_cons.mpr h))
    have hnextMem := mem_listeners_of_turn (turn_of_move? hnext) (Ne.symm hmove) hmem
    have hlater := ih hnextMem hstays hrest
    rw [toHear, events] at hlater
    rw [toHear, events, record_cons hnext, record_cons hnext, hlater, meant, if_pos hnextMem]

end Engine

end Overlay

import Overlay.Proofs.Engine.Hearing

/-!
# In which order

A transition of a handle that no notifier announces is delivered at once: the delivery
is the topmost work, and the engine goes on with nothing else before a listener is
called (`stack_of_news`, `move_of_deliver`). So whoever is first in line has always
heard of the last transition when the next one comes (`Prompt`), whatever listeners
do. If listeners do nothing, this goes for all of them (`Settled`).
-/

namespace Overlay

/-- The move removes the listener. -/
def Move.removes {V : Type} (id : HandleId) (listener : ListenerId) : Move V → Bool
  | .call (.unlisten handle other) => handle = id && other = listener
  | _ => false

def Move.isCall {V : Type} : Move V → Bool
  | .call _ => true
  | _ => false

namespace Engine

variable {V : Type} [BEq V] {engine before after : Engine V} {id : HandleId}
  {listener : ListenerId} {move : Move V}

/-- While a delivery is the topmost work, the engine goes on with it. -/
theorem move_of_deliver {notice : Notice V} {rest : List (Frame V)}
    (hstack : before.stack = .deliver notice :: rest) (hmove : before.move? move = some after) :
    move = .step ∧ after.handles = before.handles ∧
      (after.stack = rest ∨ ∃ listener listeners,
        after.stack = .callback (.property listener notice.handle notice.event) ::
          .deliver { notice with listeners } :: rest) := by
  have hidle : before.isIdle = false := by simp [isIdle, hstack]
  have hcallback : before.callback? = none := by simp [callback?, hstack]
  cases move with
  | call call => simp [move?, isWaiting, hidle, hcallback] at hmove
  | resume => simp [move?, hcallback] at hmove
  | wake id => simp [move?, hidle] at hmove
  | step =>
    obtain ⟨handle, event, listeners⟩ := notice
    simp only [move?, step, hstack] at hmove
    cases listeners with
    | nil =>
      obtain rfl := Option.some.inj hmove
      exact ⟨rfl, rfl, .inl rfl⟩
    | cons listener listeners =>
      obtain rfl := Option.some.inj hmove
      exact ⟨rfl, rfl, .inr ⟨listener, listeners, rfl⟩⟩

/-- The news of a transition is the topmost work. -/
theorem stack_of_news (hturn : before.Turn move after) (hlazy : after.isEager id = false)
    {notice : Notice V} (hnews : before.news? after id = some notice) :
    ∃ rest, after.stack = .deliver notice :: rest := by
  have hstill (hcached : after.cached? id = before.cached? id) :
      ∃ rest, after.stack = .deliver notice :: rest := by
    rw [news?_eq_none hcached] at hnews
    exact absurd hnews (by simp)
  have hread {middle : Engine V} {read : HandleId} (heq : after = middle.refreshHandle read)
      (hsame : ∀ id, middle.cached? id = before.cached? id) :
      ∃ rest, after.stack = .deliver notice :: rest := by
    subst heq
    by_cases hid : id = read
    · subst hid
      rw [news?_refreshHandle (hsame id)] at hnews
      rw [isEager_refreshHandle] at hlazy
      refine ⟨middle.stack, ?_⟩
      rw [stack_refreshHandle, hlazy, hnews]
      rfl
    · exact hstill (((retains_refreshHandle middle read).2 id hid).trans (hsame id))
  cases hturn with
  | calm h _ _ _ => exact hstill (cached?_congr h.handles id)
  | read h => exact hread rfl (cached?_congr h.handles)
  | request hfresh _ => exact hread rfl (cached?_enroll hfresh)
  | openRegistry _ => exact hstill (cached?_congr handles_openRegistry id)
  | closeRegistry => exact hstill (cached?_congr handles_closeRegistry id)
  | unlisten => exact hstill ((spares_modifyListeners _).cached id)
  | listen _ => exact hread rfl fun _ => cached?_listen _ _ _
  | refresh _ => exact hread rfl fun _ => rfl
  | _ => exact hstill rfl

-- ---------------------------------------------------------------------------
-- The first in line
-- ---------------------------------------------------------------------------

/-- Nothing is due to the listener, or it is the next to be called. -/
def Prompt (engine : Engine V) (listener : ListenerId) (id : HandleId) : Prop :=
  engine.due listener id = [] ∨ ∃ event listeners rest,
    engine.stack = .deliver ⟨id, event, listener :: listeners⟩ :: rest ∧
      engine.due listener id = [event]

theorem Prompt.play_move (h : before.Prompt listener id) (htidy : before.Tidy)
    (hlazy : before.isLazy id = true) (hfirst : (after.listeners id).head? = some listener)
    (hmove : before.move? move = some after) : after.Prompt listener id ∧
      (before.meant after listener id = [] ∨ before.due listener id = []) := by
  have hturn := turn_of_move? hmove
  have hafter := (does_of_move? hmove).retains.isLazy hlazy
  have hdue := due_of_turn listener htidy (htidy.play_move hmove) hlazy hafter hturn
  rcases h with hnone | ⟨event, listeners, rest, hstack, hone⟩
  · refine ⟨?_, .inr hnone⟩
    rw [tells?_of_due_eq_nil hnone, hnone, Option.toList_none, List.nil_append,
      List.append_nil] at hdue
    obtain ⟨others, hlisteners⟩ := List.head?_eq_some_iff.mp hfirst
    cases hevent : before.event? after id with
    | none =>
      left
      rw [hdue, meant, hevent, Option.toList_none, ite_self]
    | some event =>
      right
      have hnews : before.news? after id = some ⟨id, event, listener :: others⟩ := by
        simp [news?, hevent, hlisteners]
      obtain ⟨rest, hstack⟩ := stack_of_news hturn (isEager_of_isLazy hafter) hnews
      refine ⟨event, others, rest, hstack, ?_⟩
      simp [hdue, meant, hevent, hlisteners]
  · obtain ⟨rfl, hhandles, -⟩ := move_of_deliver hstack hmove
    have hmeant : before.meant after listener id = [] := meant_of_handles_eq hhandles
    refine ⟨.inl ?_, .inl hmeant⟩
    have htells : before.tells? .step listener id = some event := by
      simp [tells?, call?, hstack, Callback.tells?]
    rw [htells, hmeant, hone] at hdue
    exact (List.cons.inj hdue).2

/-- Who is first in line, and is not removed, is told of transitions in their order. -/
theorem told_eq_of_first {moves : List (Move V)} (htidy : before.Tidy)
    (hlazy : before.isLazy id = true) (hfirst : (before.listeners id).head? = some listener)
    (hnone : before.due listener id = []) (hstays : .call (.unlisten id listener) ∉ moves)
    (hplay : before.play? moves = some after) :
    before.told listener id moves ++ after.due listener id = before.events id moves := by
  let good (engine : Engine V) : Prop :=
    engine.Tidy ∧ engine.isLazy id = true ∧ engine.Prompt listener id ∧
      (engine.listeners id).head? = some listener
  have hevery : before.every (fun _ move => !move.removes id listener) moves = true := by
    refine every_of_mem fun move hmem => ?_
    cases hremoves : move.removes id listener with
    | false => rfl
    | true =>
      unfold Move.removes at hremoves
      split at hremoves
      · obtain ⟨rfl, rfl⟩ : _ ∧ _ := by simpa using hremoves
        exact absurd hmem hstays
      · exact absurd hremoves (by simp)
  have htold : before.told listener id moves ++ after.due listener id =
      before.due listener id ++ before.toHear listener id moves := by
    refine told_eq good ?_ htidy hlazy ⟨htidy, hlazy, .inl hnone, hfirst⟩ hevery hplay
    intro before move after ⟨htidy, hlazy, hprompt, hfirst⟩ hkind hmove
    have hkept : move ≠ .call (.unlisten id listener) := by
      rintro rfl
      simp [Move.removes] at hkind
    have hnext := head_listeners_of_turn (turn_of_move? hmove) hkept hfirst
    obtain ⟨hprompt, hone⟩ := hprompt.play_move htidy hlazy hnext hmove
    exact ⟨⟨htidy.play_move hmove, (does_of_move? hmove).retains.isLazy hlazy, hprompt, hnext⟩, hone⟩
  rw [htold, hnone, List.nil_append]
  exact toHear_eq_events (List.mem_of_head? hfirst) hstays hplay

-- ---------------------------------------------------------------------------
-- Listeners that do nothing
-- ---------------------------------------------------------------------------

/-- A property listener is being called. -/
def isTelling (engine : Engine V) : Bool :=
  engine.stack.any fun
    | .callback (.property _ _ _) => true
    | _ => false

/-- Do property listeners start no operations in this run? -/
def isQuiet (engine : Engine V) (moves : List (Move V)) : Bool :=
  engine.every (fun engine move => !(move.isCall && engine.isTelling)) moves

/-- One delivery is being made at most, with nothing above it but a call. -/
def Settled (engine : Engine V) : Prop :=
  ∃ rest, rest.flatMap Frame.callbacks = [] ∧
    (engine.stack = rest ∨ ∃ notice, engine.stack = .deliver notice :: rest ∨
      ∃ listener handle event, engine.stack =
        .callback (.property listener handle event) :: .deliver notice :: rest)

omit [BEq V] in
theorem settled_of_running (h : engine.running = []) : engine.Settled :=
  ⟨engine.stack, h, .inl rfl⟩

theorem settled_refreshHandle (h : engine.running = []) (id : HandleId) :
    (engine.refreshHandle id).Settled := by
  have hstack := stack_refreshHandle engine id
  split at hstack
  · refine settled_of_running ?_
    rw [running, hstack]
    exact h
  · cases hnotice : engine.notice? id with
    | none =>
      refine settled_of_running ?_
      rw [running, hstack, hnotice]
      exact h
    | some notice =>
      refine ⟨engine.stack, h, .inr ⟨notice, .inl ?_⟩⟩
      rw [hstack, hnotice]
      rfl

/-- While nothing is being delivered, one delivery is begun at most. -/
theorem settled_of_turn (h : before.running = []) (hturn : before.Turn move after) :
    after.Settled := by
  cases hturn with
  | calm hcalm _ _ _ => exact settled_of_running (hcalm.running.trans h)
  | read hcalm => exact settled_refreshHandle (hcalm.running.trans h) _
  | request _ _ =>
    refine settled_refreshHandle ?_ _
    exact h
  | openRegistry _ =>
    refine settled_of_running ?_
    rw [running, stack_openRegistry]
    exact h
  | closeRegistry =>
    refine settled_of_running ?_
    rw [running, stack_closeRegistry]
    exact h
  | unlisten => exact settled_of_running h
  | listen hstack =>
    refine settled_refreshHandle ?_ _
    exact (running_of_stack hstack).symm.trans h
  | refresh hstack =>
    refine settled_refreshHandle ?_ _
    exact (running_of_stack hstack).symm.trans h
  | skip hstack _ => exact settled_of_running ((running_of_stack hstack).symm.trans h)
  | call hstack =>
    rw [running_of_stack hstack] at h
    exact absurd h (by simp [Frame.callbacks, Notice.callbacks])
  | @next id notice notices rest hstack =>
    refine ⟨.pass id notices :: rest, ?_, .inr ⟨notice, .inl rfl⟩⟩
    exact (running_of_stack hstack).symm.trans h
  | sweep hstack =>
    refine settled_of_running ?_
    rw [running_of_stack hstack] at h
    rw [running, List.flatMap_append, (List.append_eq_nil_iff.mp h).2, List.append_nil]
    unfold Engine.sweep
    split
    · split <;> rfl
    · rfl
  | deliver _ _ => exact ⟨[], rfl, .inr ⟨_, .inl rfl⟩⟩
  | pass _ _ => exact settled_of_running rfl

theorem Settled.play_move (h : before.Settled)
    (hquiet : (!(move.isCall && before.isTelling)) = true)
    (hmove : before.move? move = some after) :
    after.Settled ∧ (after.handles = before.handles ∨ before.running = []) := by
  obtain ⟨rest, hrest, hstack | ⟨notice, hstack | ⟨called, handle, event, hstack⟩⟩⟩ := h
  · have hrunning : before.running = [] := by rw [running, hstack, hrest]
    exact ⟨settled_of_turn hrunning (turn_of_move? hmove), .inr hrunning⟩
  · obtain ⟨-, hhandles, hnext⟩ := move_of_deliver hstack hmove
    refine ⟨⟨rest, hrest, ?_⟩, .inl hhandles⟩
    rcases hnext with hnext | ⟨listener, listeners, hnext⟩
    · exact .inl hnext
    · exact .inr ⟨_, .inr ⟨_, _, _, hnext⟩⟩
  · -- the listener that is being called does nothing but return
    have hidle : before.isIdle = false := by simp [isIdle, hstack]
    cases move with
    | call call => exact absurd hquiet (by simp [Move.isCall, isTelling, hstack])
    | step => simp [move?, step, hstack, run] at hmove
    | wake id => simp [move?, hidle] at hmove
    | resume =>
      obtain ⟨-, hresume⟩ := Option.ite_none_right_eq_some.mp hmove
      obtain rfl := Option.some.inj hresume
      have hnext : before.resume = { before with stack := .deliver notice :: rest } := by
        rw [resume, hstack]
      rw [hnext]
      exact ⟨⟨rest, hrest, .inr ⟨notice, .inl rfl⟩⟩, .inl rfl⟩

end Engine

end Overlay

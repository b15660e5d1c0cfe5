import Mathlib
import Overlay.Proofs.Engine.Order
import Overlay.Proofs.Engine.Shifts

/-!
# Listeners of lazy registries

In a lazy registry whoever reads a handle tells its listeners. If the listeners do
nothing themselves, each of them hears exactly the transitions that the handle makes
while it is registered (`told_eq_shifts`).

A listener may also change the tree and read the handle again. Each listener still
hears of each transition once, and the first in line hears of them in order. The
others need not (`told_perm_events`): the second transition is delivered to all of
them while the first delivery has yet to get to those behind the one that made it.
-/

namespace Overlay.Engine

variable {V : Type} [BEq V] {before start finish : Engine V} {id : HandleId}
  {listener : ListenerId} {earlier later : List (Move V)} {handle : Handle V} {type : V → Prop}

theorem settled_of_play? (hplay : ({} : Engine V).play? earlier = some before)
    (hquiet : ({} : Engine V).isQuiet earlier = true) : before.Settled :=
  every_induction hplay hquiet (settled_of_running rfl)
    fun hsettled hkind hmove => (Settled.play_move hsettled hkind hmove).1

theorem Holding.play {content : Cached V} (h : before.Holding id type content)
    (hequality : Equality type) (hplay : before.play? later = some finish) :
    ∃ last, finish.Holding id type last := by
  obtain ⟨last, hlast, -⟩ := h.announced_from hequality hplay h.value (hequality.refl h.value)
  exact ⟨last, hlast⟩

/-- A resolution that fails announces no value and changes none. -/
theorem Holding.shift_of_failure {content : Cached V} (h : before.Holding id type content)
    (hequality : Equality type) (hdoes : before.Does start) {error : PropertyError}
    (hfailure : before.resolution? start id = some (.error error)) :
    before.shift start id = [.failed error] ∧
      (start.cached? id).map (·.value) = (before.cached? id).map (·.value) := by
  obtain ⟨new, hnew, hshift, hcases⟩ := h.move hequality hdoes
  have hevent : before.event? start id = some (.failed error) := by
    rw [event?, hfailure, Option.bind_some]
  refine ⟨by rw [hshift, hevent, Option.toList_some], ?_⟩
  rcases hcases with ⟨hnone, -⟩ | ⟨_, -, hsame⟩ | ⟨hchanged, -⟩
  · exact absurd (hnone.symm.trans hevent) (by simp)
  · rw [hnew.cached, h.cached, Option.map_some, Option.map_some, hsame]
  · exact absurd (hchanged.symm.trans hevent) (by simp)

/-- Where property listeners start no operations, a listener of a lazy registry's
handle is told, from the move on that registers it and while it is not removed, of
each change of the value that the handle holds from one move to the next and of
each resolution at a new version that fails, in order and of nothing else. So what
it is told of first differs from what the handle held when it was registered, what
it is told of next differs from that, and so on to what the handle holds at last; and
a resolution that fails tells of no value. -/
theorem told_eq_shifts {move : Move V} (hearlier : ({} : Engine V).play? earlier = some before)
    (hmove : before.move? move = some start) (hlater : start.play? later = some finish)
    (hidle : finish.isIdle) (hquiet : ({} : Engine V).isQuiet (earlier ++ move :: later) = true)
    (hlazy : before.isLazy id = true) (hhandle : before.handleAt? id = some handle)
    (htyped : handle.Typed type) (hequality : Equality type)
    (hnew : listener ∉ before.listeners id) (hregistered : listener ∈ start.listeners id)
    (hstays : .call (.unlisten id listener) ∉ later) :
    before.told listener id (move :: later) = before.shifts id (move :: later) ∧
      (∃ first last, before.cached? id = some first ∧ finish.cached? id = some last ∧
        (first.value :: announced (before.told listener id (move :: later))).IsChain
          (fun a b => (a != b) = true) ∧
        ((announced (before.told listener id (move :: later))).getLast?.getD first.value ==
          last.value) = true) ∧
      ∀ former turn latter middle next error, move :: later = former ++ turn :: latter →
        before.play? former = some middle → middle.move? turn = some next →
        middle.resolution? next id = some (.error error) →
        middle.shift next id = [.failed error] ∧
          (next.cached? id).map (·.value) = (middle.cached? id).map (·.value) := by
  have hplay : before.play? (move :: later) = some finish :=
    play?_cons_eq_some.mpr ⟨start, hmove, hlater⟩
  obtain ⟨hbeforeQuiet, hafterQuiet⟩ := every_append hearlier hquiet
  have htidy := tidy_of_play? hearlier
  have hsettled := settled_of_play? hearlier hbeforeQuiet
  obtain ⟨first, hfirst⟩ := holding_of_play? hearlier hhandle htyped
  -- a registration is not done in the middle of a delivery
  have hnone : before.due listener id = [] := by
    obtain ⟨below, hstack⟩ := stack_of_registered (turn_of_move? hmove) hnew hregistered
    obtain ⟨rest, hrest, heq | ⟨_, heq | ⟨_, _, _, heq⟩⟩⟩ := hsettled
    · refine due_of_running ?_
      rw [running, heq, hrest]
    · exact absurd (hstack.symm.trans heq) (by simp)
    · exact absurd (hstack.symm.trans heq) (by simp)
  have htold : before.told listener id (move :: later) = before.events id (move :: later) := by
    have horder : before.told listener id (move :: later) ++ finish.due listener id =
        before.due listener id ++ before.toHear listener id (move :: later) := by
      refine told_eq Settled (fun hsettled hkind hmove => ?_) htidy hlazy hsettled hafterQuiet hplay
      obtain ⟨hnext, hone⟩ := hsettled.play_move hkind hmove
      exact ⟨hnext, hone.imp meant_of_handles_eq due_of_running⟩
    rw [due_of_isIdle hidle, hnone, List.append_nil, List.nil_append] at horder
    have hheard := toHear_eq_events hregistered hstays hlater
    rw [horder, toHear, events, record_cons hmove, record_cons hmove, meant, if_pos hregistered]
    exact congrArg _ hheard
  have hshifts := hfirst.shifts_eq hequality hplay
  obtain ⟨last, hlast, hchain, hheld⟩ :=
    hfirst.announced_from hequality hplay hfirst.value (hequality.refl hfirst.value)
  refine ⟨htold.trans hshifts.symm, ⟨first, last, hfirst.cached, hlast.cached, ?_⟩, ?_⟩
  · rw [htold]
    exact ⟨hchain, hheld⟩
  · intro former turn latter middle next error _ hformer hturn hfailure
    obtain ⟨content, hcontent⟩ := hfirst.play hequality hformer
    exact hcontent.shift_of_failure hequality (does_of_move? hturn) hfailure

/-- A handle of a lazy registry, and one who listens to it. -/
def oneListener : List (Move Nat) :=
  [.call (.settable "leaf" .empty), .call (.hold [.node 0]),
    .call (.openRegistry 0 .fail "," false),
    .call (.request 0 "key" "number" 0 fun text => .ok (if text = "one" then 1 else 2)),
    .call (.listen 0 1), .step]

/-- The key is set, and the handle read. -/
def setAndRead (text : String) : List (Move Nat) :=
  [.call (.edit 0 (.set "key" text)), .step, .call (.read 0)]

/-- Two listeners are called, and do nothing. -/
def tellTwo : List (Move Nat) := [.step, .resume, .step, .resume, .step]

theorem equality_nat : Equality fun _ : Nat => True where
  refl _ := beq_self_eq_true _
  symm _ _ h := by simpa using (eq_of_beq h).symm
  trans _ _ _ h h' := by simpa using (eq_of_beq h).trans (eq_of_beq h')

theorem told_eq_shifts_second : ∃ before start finish : Engine Nat,
    ({} : Engine Nat).play? (oneListener ++ [.call (.listen 0 2)]) = some before ∧
      before.move? .step = some start ∧
      start.play? (setAndRead "one" ++ tellTwo) = some finish ∧ finish.isIdle ∧
      2 ∉ before.listeners 0 ∧ 2 ∈ start.listeners 0 ∧
      before.told 2 0 (.step :: (setAndRead "one" ++ tellTwo)) =
        before.shifts 0 (.step :: (setAndRead "one" ++ tellTwo)) := by
  have hrun : (({} : Engine Nat).play? (oneListener ++ [.call (.listen 0 2)])).any (fun before =>
      before.isLazy 0 && 2 ∉ before.listeners 0 && (before.move? .step).any fun start =>
        2 ∈ start.listeners 0 && (start.play? (setAndRead "one" ++ tellTwo)).any (·.isIdle)) =
      true := by
    cbv
  simp only [Option.any_eq_true, Bool.and_eq_true, decide_eq_true_eq] at hrun
  obtain ⟨before, hearlier, ⟨hlazy, hnew⟩, start, hmove, hregistered, finish, hlater, hidle⟩ := hrun
  obtain ⟨handle, -, hhandle, -⟩ := isLazy_iff.mp hlazy
  have htold := told_eq_shifts hearlier hmove hlater hidle (by cbv) hlazy hhandle
    ⟨trivial, fun _ => trivial⟩ equality_nat hnew hregistered (by simp [setAndRead, tellTwo])
  exact ⟨before, start, finish, hearlier, hmove, hlater, hidle, hnew, hregistered, htold.1⟩

/-- A listener of a lazy registry's handle, to whom nothing is due at first and who is
not removed, is told of each transition of the handle and of each once, whatever
listeners do while they are being called. Who is first in line is told of them in
order, and what it is told of last is what the handle holds. -/
theorem told_perm_events (hearlier : ({} : Engine V).play? earlier = some before)
    (hlater : before.play? later = some finish) (hidle : finish.isIdle)
    (hlazy : before.isLazy id = true) (hhandle : before.handleAt? id = some handle)
    (htyped : handle.Typed type) (hequality : Equality type)
    (hmem : listener ∈ before.listeners id) (hnone : before.due listener id = [])
    (hstays : .call (.unlisten id listener) ∉ later) :
    (before.told listener id later).Perm (before.events id later) ∧
      ((before.listeners id).head? = some listener →
        before.told listener id later = before.events id later ∧
          ∃ first last, before.cached? id = some first ∧ finish.cached? id = some last ∧
            ((announced (before.told listener id later)).getLast?.getD first.value ==
              last.value) = true) := by
  have htidy := tidy_of_play? hearlier
  obtain ⟨first, hfirst⟩ := holding_of_play? hearlier hhandle htyped
  refine ⟨?_, fun hhead => ?_⟩
  · have hperm := told_perm listener htidy hlazy hlater
    rw [due_of_isIdle hidle, hnone, List.append_nil, List.append_nil,
      toHear_eq_events hmem hstays hlater] at hperm
    exact hperm
  · have htold := told_eq_of_first htidy hlazy hhead hnone hstays hlater
    rw [due_of_isIdle hidle, List.append_nil] at htold
    obtain ⟨last, hlast, -, hheld⟩ :=
      hfirst.announced_from hequality hlater hfirst.value (hequality.refl hfirst.value)
    exact ⟨htold, first, last, hfirst.cached, hlast.cached, htold ▸ hheld⟩

/-- The listener that is told first of the one value sets the key to another, and reads
the handle, before the one behind it has been told. -/
def crossing : List (Move Nat) :=
  setAndRead "one" ++ .step :: setAndRead "two" ++ tellTwo ++ [.resume, .step, .resume, .step]

theorem told_perm_events_crossing : ∃ before finish : Engine Nat,
    ({} : Engine Nat).play? (oneListener ++ [.call (.listen 0 2), .step]) = some before ∧
      before.play? crossing = some finish ∧ finish.isIdle ∧
      (before.told 2 0 crossing).Perm (before.events 0 crossing) ∧
      before.told 1 0 crossing = before.events 0 crossing := by
  have hrun : (({} : Engine Nat).play? (oneListener ++ [.call (.listen 0 2), .step])).any
      (fun before => before.isIdle && before.isLazy 0 && before.listeners 0 = [1, 2] &&
        (before.play? crossing).any (·.isIdle)) = true := by
    cbv
  simp only [Option.any_eq_true, Bool.and_eq_true, decide_eq_true_eq] at hrun
  obtain ⟨before, hearlier, ⟨⟨hstart, hlazy⟩, hlisteners⟩, finish, hlater, hidle⟩ := hrun
  obtain ⟨handle, -, hhandle, -⟩ := isLazy_iff.mp hlazy
  have hsecond := told_perm_events hearlier hlater hidle hlazy hhandle
    ⟨trivial, fun _ => trivial⟩ equality_nat (by rw [hlisteners]; decide : 2 ∈ before.listeners 0)
    (due_of_isIdle hstart) (by simp [crossing, setAndRead, tellTwo])
  have hfirst := told_perm_events hearlier hlater hidle hlazy hhandle
    ⟨trivial, fun _ => trivial⟩ equality_nat (by rw [hlisteners]; decide : 1 ∈ before.listeners 0)
    (due_of_isIdle hstart) (by simp [crossing, setAndRead, tellTwo])
  exact ⟨before, finish, hearlier, hlater, hidle, hsecond.1, (hfirst.2 (by rw [hlisteners]; rfl)).1⟩

/-- Who is not first in line may be told of transitions out of order, and of a value at
last that the handle does not hold. -/
theorem told_out_of_order : ∃ before finish : Engine Nat,
    ({} : Engine Nat).play? (oneListener ++ [.call (.listen 0 2), .step]) = some before ∧
      before.play? crossing = some finish ∧ before.isIdle ∧ finish.isIdle ∧
      before.isLazy 0 = true ∧ 2 ∈ before.listeners 0 ∧ 2 ∈ finish.listeners 0 ∧
      announced (before.events 0 crossing) = [1, 2] ∧
      announced (before.told 2 0 crossing) = [2, 1] ∧
      (finish.cached? 0).map (·.value) = some 2 := by
  have hrun : (({} : Engine Nat).play? (oneListener ++ [.call (.listen 0 2), .step])).any
      (fun before => before.isIdle && before.isLazy 0 && 2 ∈ before.listeners 0 &&
        announced (before.events 0 crossing) = [1, 2] &&
        announced (before.told 2 0 crossing) = [2, 1] &&
        (before.play? crossing).any fun finish => finish.isIdle && 2 ∈ finish.listeners 0 &&
          (finish.cached? 0).map (·.value) = some 2) = true := by
    cbv
  simp only [Option.any_eq_true, Bool.and_eq_true, decide_eq_true_eq] at hrun
  obtain ⟨before, hearlier, ⟨⟨⟨⟨hstart, hlazy⟩, hmem⟩, hevents⟩, htold⟩, finish, hlater,
    ⟨hidle, hstays⟩, hheld⟩ := hrun
  exact ⟨before, finish, hearlier, hlater, hstart, hidle, hlazy, hmem, hstays, hevents, htold,
    hheld⟩

end Overlay.Engine

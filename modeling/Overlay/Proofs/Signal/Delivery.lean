import Mathlib
import Overlay.Proofs.Signal.Receivers
import Overlay.Signal

/-!
# Delivery of signals

Receivers come and go and take what there is, and anyone may trigger the signal at any time, in
two steps between which other things happen (`Signal.Step`). For each receiver the signals it has
taken and those that wait for it are together those that were sent since it subscribed
(`Signal.Run.taken`), and that is at most one (`Signal.Keeps`). So what a receiver finds is known
from what has happened (`Signal.Run.found_eq`), and who subscribes first and looks at the flag
then cannot miss the signal (`Signal.no_signal_missed`).
-/

namespace Overlay.Signal

-- ---------------------------------------------------------------------------
-- Runs
-- ---------------------------------------------------------------------------

/-- What happens to a signal, and what comes out. -/
inductive Event
  | subscribe (id : ReceiverId)
  | unsubscribe (id : ReceiverId)
  | receive (id : ReceiverId) (found : Received Unit)
  /-- Somebody triggers the signal: sets the flag and learns whether it was set before. -/
  | raise (before : Bool)
  /-- Whoever has set the flag sends the signal. -/
  | send
  | read (flag : Bool)
  | count (receivers : Nat)
  /-- The owner lets go of the signal. -/
  | close
deriving DecidableEq, Repr

namespace Event

def isRaise : Event → Bool
  | raise _ => true
  | _ => false

/-- A receiver may take the signal, nothing else changes. -/
def isLook : Event → Bool
  | receive _ _ | read _ | count _ => true
  | _ => false

def subscribed? : Event → Option ReceiverId
  | subscribe id => some id
  | _ => none

/-- The receiver takes the signal. -/
def takes (id : ReceiverId) : Event := receive id (.value ())

/-- The receivers that have subscribed and are still there. -/
def live (events : List Event) : List ReceiverId :=
  (events.filterMap subscribed?).filter fun id => unsubscribe id ∉ events

/-- What a receiver finds, by what has happened since it subscribed. -/
def answer (id : ReceiverId) (events : List Event) : Received Unit :=
  if send ∈ events ∧ takes id ∉ events then .value ()
  else if close ∈ events then .closed else .empty

end Event

/-- A signal that many hold. -/
structure Scene where
  signal : Signal := {}
  /-- Somebody has set the flag and is about to send the signal. -/
  sending : Bool := false

/-- Nobody can use a signal that its owner has let go of, and nobody can let go of it in use. -/
inductive Step : Scene → Event → Scene → Prop
  | subscribe {signal : Signal} {sending : Bool} (hopen : signal.closed = false) :
      Step ⟨signal, sending⟩ (.subscribe signal.subscribe.1) ⟨signal.subscribe.2, sending⟩
  | unsubscribe {signal : Signal} {sending : Bool} {id : ReceiverId}
      (hlive : id ∈ signal.channel.ids) :
      Step ⟨signal, sending⟩ (.unsubscribe id) ⟨signal.unsubscribe id, sending⟩
  | receive {signal after : Signal} {sending : Bool} {id : ReceiverId} {found : Received Unit}
      (hfound : signal.receive? id = some (found, after)) :
      Step ⟨signal, sending⟩ (.receive id found) ⟨after, sending⟩
  | raise {signal : Signal} {sending : Bool} (hopen : signal.closed = false) :
      Step ⟨signal, sending⟩ (.raise signal.raise.1) ⟨signal.raise.2, sending || !signal.raise.1⟩
  | send {signal : Signal} : Step ⟨signal, true⟩ .send ⟨signal.send, false⟩
  | read {signal : Signal} {sending : Bool} (hopen : signal.closed = false) :
      Step ⟨signal, sending⟩ (.read signal.triggered) ⟨signal, sending⟩
  | count {signal : Signal} {sending : Bool} (hopen : signal.closed = false) :
      Step ⟨signal, sending⟩ (.count signal.receiverCount) ⟨signal, sending⟩
  | close {signal : Signal} (hopen : signal.closed = false) :
      Step ⟨signal, false⟩ .close ⟨signal.close, false⟩

inductive Run : Scene → List Event → Scene → Prop
  | nil {scene : Scene} : Run scene [] scene
  | cons {scene next last : Scene} {event : Event} {events : List Event} :
      Step scene event next → Run next events last → Run scene (event :: events) last

section
variable {scene next last : Scene} {events former latter : List Event} {event : Event}

theorem Run.split (h : Run scene (former ++ latter) last) :
    ∃ between, Run scene former between ∧ Run between latter last := by
  induction former generalizing scene with
  | nil => exact ⟨scene, .nil, h⟩
  | cons event former ih =>
    cases h with
    | cons hstep hrest =>
      obtain ⟨between, hformer, hlatter⟩ := ih hrest
      exact ⟨between, .cons hstep hformer, hlatter⟩

theorem Run.split_cons (h : Run scene (former ++ event :: latter) last) :
    ∃ before after, Run scene former before ∧ Step before event after ∧ Run after latter last := by
  obtain ⟨before, hformer, hrest⟩ := h.split
  cases hrest with
  | cons hstep hlatter => exact ⟨before, _, hformer, hstep, hlatter⟩

/-- Triggering at one go is setting the flag and then sending the signal, if it is the first. -/
theorem run_trigger (signal : Signal) (hopen : signal.closed = false) :
    Run ⟨signal, false⟩ (if signal.triggered then [.raise true] else [.raise false, .send])
      ⟨signal.trigger, false⟩ := by
  have hraise : Step ⟨signal, false⟩ (.raise signal.triggered)
      ⟨signal.raise.2, !signal.triggered⟩ := .raise hopen
  cases hflag : signal.triggered with
  | true =>
    have hsame : signal.trigger = signal.raise.2 := by simp [trigger, raise, hflag]
    rw [hflag] at hraise
    rw [hsame, if_pos rfl]
    exact .cons hraise .nil
  | false =>
    have hsend : signal.trigger = signal.raise.2.send := by simp [trigger, raise, hflag]
    rw [hflag] at hraise
    rw [hsend, if_neg Bool.false_ne_true]
    exact .cons hraise (.cons .send .nil)

-- ---------------------------------------------------------------------------
-- What a run keeps
-- ---------------------------------------------------------------------------

namespace Event

variable {id other : ReceiverId}

theorem live_subscribe (hnew : unsubscribe id ∉ events) :
    live (events ++ [subscribe id]) = live events ++ [id] := by
  simp [live, List.filterMap_append, subscribed?, hnew]

theorem live_unsubscribe :
    live (events ++ [unsubscribe id]) = (live events).filter (· ≠ id) := by
  have hnone : [unsubscribe id].filterMap subscribed? = [] := rfl
  rw [live, live, List.filterMap_append, hnone, List.append_nil, List.filter_filter]
  refine List.filter_congr fun other _ => ?_
  simp [and_comm]

theorem live_append (hsubscribe : event.subscribed? = none)
    (hunsubscribe : ∀ id, event ≠ unsubscribe id) :
    live (events ++ [event]) = live events := by
  have hmem (id : ReceiverId) : unsubscribe id ∈ events ++ [event] ↔ unsubscribe id ∈ events := by
    simp [(hunsubscribe id).symm]
  simp only [live, hmem, List.filterMap_append, List.filterMap_cons, hsubscribe, List.filterMap_nil,
    List.append_nil]

theorem of_mem_live (h : id ∈ live events) : subscribe id ∈ events ∧ unsubscribe id ∉ events := by
  obtain ⟨hmem, hstays⟩ := List.mem_filter.mp h
  obtain ⟨event, hevent, hid⟩ := List.mem_filterMap.mp hmem
  cases event with
  | subscribe other =>
    obtain rfl := Option.some.inj hid
    exact ⟨hevent, by simpa using hstays⟩
  | _ => exact absurd hid (by simp [subscribed?])

end Event

/-- What has happened accounts for the scene. -/
structure Keeps (events : List Event) (scene : Scene) : Prop where
  flag : scene.signal.triggered = events.any Event.isRaise
  /-- The signal is sent once, by whoever has set the flag. -/
  sends : events.count .send + scene.sending.toNat = scene.signal.triggered.toNat
  sent : scene.signal.channel.sent.length ≤ events.count .send
  capacity : scene.signal.channel.capacity = 1
  closed : scene.signal.closed = true ↔ .close ∈ events
  ids : scene.signal.channel.ids = Event.live events
  known : ∀ id, .subscribe id ∈ events ∨ .unsubscribe id ∈ events → id < scene.signal.channel.next
  behind : ∀ id position, scene.signal.channel.position? id = some position →
    position ≤ scene.signal.channel.sent.length

theorem keeps_start : Keeps [] {} where
  flag := rfl
  sends := rfl
  sent := Nat.le_refl _
  capacity := rfl
  closed := by simp [closed]
  ids := rfl
  known := by simp
  behind := by simp [Broadcast.position?]

theorem Keeps.kept (h : Keeps events scene) :
    scene.signal.channel.sent.length ≤ scene.signal.channel.capacity := by
  have hsends := h.sends
  have hsent := h.sent
  have hle : scene.signal.triggered.toNat ≤ 1 := Bool.toNat_le _
  rw [h.capacity]
  omega

theorem Keeps.next_not_mem_ids (h : Keeps events scene) :
    scene.signal.channel.next ∉ scene.signal.channel.ids := by
  intro hmem
  exact Nat.lt_irrefl _ (h.known _ (.inl (Event.of_mem_live (h.ids ▸ hmem)).1))

variable {id : ReceiverId} {found : Received Unit}

/-- A receiver finds the signal if that waits for it. -/
theorem Keeps.receive (h : Keeps events scene) {after : Signal}
    (hfound : scene.signal.receive? id = some (found, after)) :
    ∃ position, scene.signal.channel.position? id = some position ∧
      (position < scene.signal.channel.sent.length ∧ found = .value () ∧
          after = { scene.signal with channel := scene.signal.channel.advance id (position + 1) } ∨
        scene.signal.channel.sent.length ≤ position ∧
          found = (if scene.signal.closed then .closed else .empty) ∧ after = scene.signal) := by
  obtain ⟨⟨found, channel⟩, hreceive, heq⟩ := Option.map_eq_some_iff.mp hfound
  obtain ⟨rfl, rfl⟩ := Prod.mk.inj heq
  obtain ⟨position, hposition, -⟩ := Option.map_eq_some_iff.mp hreceive
  refine ⟨position, hposition, ?_⟩
  rcases Broadcast.receive?_of_kept h.kept hposition with ⟨value, hvalue, hlt⟩ | ⟨hnone, hle⟩
  · obtain ⟨rfl, rfl⟩ := Prod.mk.inj (Option.some.inj (hreceive.symm.trans hvalue))
    exact .inl ⟨hlt, rfl, rfl⟩
  · obtain ⟨rfl, rfl⟩ := Prod.mk.inj (Option.some.inj (hreceive.symm.trans hnone))
    exact .inr ⟨hle, rfl, rfl⟩

/-- Whatever is neither the signal nor a change of its receivers leaves the scene as it is. -/
theorem Keeps.look (h : Keeps events scene) (hlook : event.isLook = true) :
    Keeps (events ++ [event]) scene := by
  cases event with
  | receive id found | read flag | count receivers =>
    exact {
      flag := by simpa [Event.isRaise] using h.flag
      sends := by simpa using h.sends
      sent := by simpa using h.sent
      capacity := h.capacity
      closed := by simpa using h.closed
      ids := h.ids.trans (Event.live_append rfl (by simp)).symm
      known := fun id hmem => h.known id (by simpa using hmem)
      behind := h.behind }
  | _ => exact nomatch hlook

theorem Keeps.step (h : Keeps events scene) (hstep : Step scene event next) :
    Keeps (events ++ [event]) next := by
  cases hstep with
  | @subscribe signal sending hopen =>
    have hids : signal.channel.ids = Event.live events := h.ids
    have hfresh : signal.channel.next ∉ signal.channel.ids := h.next_not_mem_ids
    have hnew : Event.unsubscribe signal.channel.next ∉ events := fun hmem =>
      Nat.lt_irrefl _ (h.known _ (.inr hmem))
    exact {
      flag := by simpa [subscribe, Event.isRaise] using h.flag
      sends := by simpa [subscribe] using h.sends
      sent := by simpa [subscribe, Broadcast.subscribe] using h.sent
      capacity := h.capacity
      closed := h.closed.trans (by simp)
      ids := by
        rw [show signal.subscribe.1 = signal.channel.next from rfl, Event.live_subscribe hnew,
          ← hids]
        exact List.map_append
      known := fun id hmem => by
        have hcases : (.subscribe id ∈ events ∨ .unsubscribe id ∈ events) ∨
            id = signal.channel.next := by
          simpa [subscribe, Broadcast.subscribe, or_right_comm] using hmem
        exact Nat.lt_succ_iff_lt_or_eq.mpr (hcases.imp_left (h.known id))
      behind := fun id position hposition => by
        have hsplit := (Broadcast.position?_subscribe hfresh).symm.trans hposition
        split at hsplit
        · exact (Option.some.inj hsplit).ge
        · exact h.behind id position hsplit }
  | @unsubscribe signal sending id hlive =>
    have hids : signal.channel.ids = Event.live events := h.ids
    exact {
      flag := by simpa [unsubscribe, Event.isRaise] using h.flag
      sends := by simpa [unsubscribe] using h.sends
      sent := by simpa [unsubscribe, Broadcast.unsubscribe] using h.sent
      capacity := h.capacity
      closed := h.closed.trans (by simp)
      ids := by
        rw [Event.live_unsubscribe, ← hids]
        exact Broadcast.ids_unsubscribe
      known := fun other hmem => by
        have hcases : (.subscribe other ∈ events ∨ .unsubscribe other ∈ events) ∨ other = id := by
          simpa [or_assoc] using hmem
        rcases hcases with hmem | rfl
        · exact h.known other hmem
        · exact h.known other (.inl (Event.of_mem_live (hids ▸ hlive)).1)
      behind := fun other position hposition => by
        have hsplit := Broadcast.position?_unsubscribe.symm.trans hposition
        split at hsplit
        · exact absurd hsplit (by simp)
        · exact h.behind other position hsplit }
  | @receive signal after sending id found hfound =>
    have hlook : Keeps (events ++ [.receive id found]) ⟨signal, sending⟩ := h.look rfl
    obtain ⟨position, hposition, ⟨hlt, rfl, rfl⟩ | ⟨-, -, rfl⟩⟩ := h.receive hfound
    · exact { hlook with
        ids := Broadcast.ids_advance.trans hlook.ids
        behind := fun other found hother => by
          have hsplit := Broadcast.position?_advance.symm.trans hother
          split at hsplit
          · obtain ⟨_, -, rfl⟩ := Option.map_eq_some_iff.mp hsplit
            exact hlt
          · exact h.behind other found hsplit }
    · exact hlook
  | @raise signal sending hopen =>
    have hsends : events.count .send + sending.toNat = signal.triggered.toNat := h.sends
    exact {
      flag := by simp [raise, Event.isRaise]
      sends := by
        cases hflag : signal.triggered <;> cases sending <;> simp_all [raise]
      sent := by simpa [raise] using h.sent
      capacity := h.capacity
      closed := h.closed.trans (by simp)
      ids := h.ids.trans (Event.live_append rfl (by simp)).symm
      known := fun id hmem => h.known id (by simpa using hmem)
      behind := h.behind }
  | @send signal =>
    have hsame := Broadcast.send_eq signal.channel ()
    have hcount : (events ++ [Event.send]).count .send = events.count .send + 1 := by simp
    exact {
      flag := by simpa [send, Event.isRaise] using h.flag
      sends := by simpa [send] using h.sends
      sent := by
        rw [hcount]
        exact (Broadcast.length_sent_send_le signal.channel ()).trans (Nat.succ_le_succ h.sent)
      capacity := (congrArg Broadcast.capacity hsame :).trans h.capacity
      closed := by
        have hclosed : signal.send.closed = signal.closed := (congrArg Broadcast.closed hsame :)
        rw [hclosed, h.closed]
        simp
      ids := by
        rw [Event.live_append rfl (by simp), ← h.ids]
        exact (congrArg Broadcast.ids hsame :)
      known := fun id hmem => by
        have hnext : signal.send.channel.next = signal.channel.next :=
          (congrArg Broadcast.next hsame :)
        rw [hnext]
        exact h.known id (by simpa using hmem)
      behind := fun id position hposition => by
        have hbefore := Broadcast.position?_send.symm.trans hposition
        rw [show signal.send.channel = signal.channel.send () from rfl,
          Broadcast.length_sent_send () hbefore]
        exact Nat.le_succ_of_le (h.behind id position hbefore) }
  | @read signal sending hopen => exact h.look rfl
  | @count signal sending hopen => exact h.look rfl
  | @close signal hopen =>
    exact {
      flag := by simpa [close, Event.isRaise] using h.flag
      sends := by simpa [close] using h.sends
      sent := by simpa [close, Broadcast.close] using h.sent
      capacity := h.capacity
      closed := by simp [Signal.closed, close, Broadcast.close]
      ids := h.ids.trans (Event.live_append rfl (by simp)).symm
      known := fun id hmem => h.known id (by simpa using hmem)
      behind := h.behind }

theorem Run.keeps (hrun : Run scene latter last) (h : Keeps former scene) :
    Keeps (former ++ latter) last := by
  induction hrun generalizing former with
  | nil => rwa [List.append_nil]
  | cons hstep _ ih =>
    have hnext := ih (h.step hstep)
    rwa [List.append_assoc, List.singleton_append] at hnext

/-- What a receiver takes and what then waits for it is what waited for it and what is sent. -/
theorem Keeps.taken_step (h : Keeps events scene) (hstep : Step scene event next)
    (hlive : id ∈ scene.signal.channel.ids) (hstays : event ≠ .unsubscribe id) :
    id ∈ next.signal.channel.ids ∧
      [event].count (.takes id) + next.signal.channel.pending id =
        [event].count .send + scene.signal.channel.pending id := by
  obtain ⟨position, hposition⟩ := Broadcast.mem_ids_iff.mp hlive
  -- the receiver is where it was, and nothing is sent or taken by it
  have hunmoved (hsame : next.signal.channel.position? id = scene.signal.channel.position? id)
      (hsent : next.signal.channel.sent = scene.signal.channel.sent)
      (hsend : event ≠ .send) (htakes : event ≠ .takes id) :
      id ∈ next.signal.channel.ids ∧
        [event].count (.takes id) + next.signal.channel.pending id =
          [event].count .send + scene.signal.channel.pending id := by
    refine ⟨Broadcast.mem_ids_iff.mpr ⟨position, hsame.trans hposition⟩, ?_⟩
    rw [Broadcast.pending, Broadcast.pending, hsame, hsent]
    simp [hsend, htakes]
  cases hstep with
  | @subscribe signal sending hopen =>
    have hother : id ≠ signal.channel.next := fun heq => h.next_not_mem_ids (heq ▸ hlive)
    refine hunmoved ?_ rfl (by simp) (by simp [Event.takes])
    exact (Broadcast.position?_subscribe h.next_not_mem_ids).trans (if_neg hother)
  | @unsubscribe signal sending other hother =>
    have hne : id ≠ other := fun heq => hstays (heq ▸ rfl)
    refine hunmoved ?_ rfl (by simp) (by simp [Event.takes])
    exact Broadcast.position?_unsubscribe.trans (if_neg hne)
  | @receive signal after sending other found hfound =>
    obtain ⟨place, hplace, ⟨hlt, rfl, rfl⟩ | ⟨-, rfl, rfl⟩⟩ := h.receive hfound
    · by_cases hsame : id = other
      · subst hsame
        obtain rfl := Option.some.inj (hposition.symm.trans hplace)
        have hnext : (signal.channel.advance id (position + 1)).position? id =
            some (position + 1) := by
          rw [Broadcast.position?_advance, if_pos rfl, hposition]
          rfl
        have hbefore : signal.channel.pending id = signal.channel.sent.length - position :=
          Broadcast.pending_eq hposition
        have hlt : position < signal.channel.sent.length := hlt
        have htaken : [Event.receive id (.value ())].count (.takes id) = 1 := by simp [Event.takes]
        have hsent : [Event.receive id (.value ())].count .send = 0 := by simp
        have hpending : (signal.channel.advance id (position + 1)).pending id =
            signal.channel.sent.length - (position + 1) := Broadcast.pending_eq hnext
        refine ⟨Broadcast.mem_ids_iff.mpr ⟨_, hnext⟩, ?_⟩
        rw [hpending, htaken, hsent, hbefore]
        omega
      · refine hunmoved ?_ rfl (by simp) (by simp [Event.takes, Ne.symm hsame])
        exact Broadcast.position?_advance.trans (if_neg hsame)
    · refine hunmoved rfl rfl (by simp) ?_
      simp only [Event.takes, ne_eq, Event.receive.injEq, not_and]
      split <;> simp
  | @send signal =>
    have hnext : (signal.channel.send ()).position? id = some position :=
      Broadcast.position?_send.trans hposition
    have hlength := Broadcast.length_sent_send () hposition
    have hpending : (signal.channel.send ()).pending id =
        signal.channel.sent.length + 1 - position := hlength ▸ Broadcast.pending_eq hnext
    have hbehind : position ≤ signal.channel.sent.length := h.behind id position hposition
    have hbefore : signal.channel.pending id = signal.channel.sent.length - position :=
      Broadcast.pending_eq hposition
    have htaken : [Event.send].count (.takes id) = 0 := by simp [Event.takes]
    have hsent : [Event.send].count .send = 1 := by simp
    refine ⟨Broadcast.mem_ids_iff.mpr ⟨_, hnext⟩, ?_⟩
    rw [show signal.send.channel = signal.channel.send () from rfl, hpending, htaken, hsent,
      hbefore]
    omega
  | raise | read | count | close => exact hunmoved rfl rfl (by simp) (by simp [Event.takes])

theorem Run.taken (hrun : Run scene latter last) (h : Keeps former scene)
    (hlive : id ∈ scene.signal.channel.ids) (hstays : .unsubscribe id ∉ latter) :
    id ∈ last.signal.channel.ids ∧
      latter.count (.takes id) + last.signal.channel.pending id =
        latter.count .send + scene.signal.channel.pending id := by
  induction hrun generalizing former with
  | nil => exact ⟨hlive, by simp⟩
  | @cons scene next last event events hstep _ ih =>
    obtain ⟨hevent, hevents⟩ := not_or.mp (mt List.mem_cons.mpr hstays)
    obtain ⟨hnext, hone⟩ := h.taken_step hstep hlive (Ne.symm hevent)
    obtain ⟨hlast, hrest⟩ := ih (h.step hstep) hnext hevents
    refine ⟨hlast, ?_⟩
    rw [← List.singleton_append, List.count_append, List.count_append]
    omega

-- ---------------------------------------------------------------------------
-- What comes out of a run
-- ---------------------------------------------------------------------------

theorem Event.any_isRaise_iff : events.any isRaise = true ↔ ∃ before, raise before ∈ events := by
  rw [List.any_eq_true]
  constructor
  · rintro ⟨event, hmem, hraise⟩
    cases event with
    | raise before => exact ⟨before, hmem⟩
    | _ => exact nomatch hraise
  · rintro ⟨before, hmem⟩
    exact ⟨.raise before, hmem, rfl⟩

theorem Keeps.triggered_iff (h : Keeps events scene) :
    scene.signal.triggered = true ↔ ∃ before, .raise before ∈ events := by
  rw [h.flag, Event.any_isRaise_iff]

theorem Keeps.count_send_le (h : Keeps events scene) : events.count .send ≤ 1 := by
  have hsends := h.sends
  have hle : scene.signal.triggered.toNat ≤ 1 := Bool.toNat_le _
  omega

/-- Once the signal has been triggered it is sent, unless that is still to be done. -/
theorem Keeps.count_send_eq_one (h : Keeps events scene) (hidle : scene.sending = false)
    (hraised : ∃ before, .raise before ∈ events) : events.count .send = 1 := by
  have hsends := h.sends
  rw [hidle, h.triggered_iff.mpr hraised] at hsends
  exact hsends

theorem Keeps.raised_of_send (h : Keeps events scene) (hsend : .send ∈ events) :
    ∃ before, .raise before ∈ events := by
  have hsends := h.sends
  have hcount : 0 < events.count .send := List.count_pos_iff.mpr hsend
  refine h.triggered_iff.mp ?_
  cases hflag : scene.signal.triggered with
  | true => rfl
  | false =>
    rw [hflag] at hsends
    exact absurd hsends (by simp; omega)

/-- A new receiver starts with nothing. -/
theorem Run.subscribed (h : Run {} (former ++ .subscribe id :: latter) last) :
    .close ∉ former ∧ ∃ start, Keeps (former ++ [.subscribe id]) start ∧ Run start latter last ∧
      id ∈ start.signal.channel.ids ∧ start.signal.channel.pending id = 0 := by
  obtain ⟨before, start, hformer, hstep, hlatter⟩ := h.split_cons
  have hbefore : Keeps former before := hformer.keeps keeps_start
  have hkeeps := hbefore.step hstep
  cases hstep with
  | @subscribe signal sending hopen =>
    have hposition : signal.subscribe.2.channel.position? signal.subscribe.1 =
        some signal.channel.sent.length :=
      (Broadcast.position?_subscribe hbefore.next_not_mem_ids).trans (if_pos rfl)
    refine ⟨fun hclose => ?_, _, hkeeps, hlatter, Broadcast.mem_ids_iff.mpr ⟨_, hposition⟩, ?_⟩
    · exact absurd (hbefore.closed.mpr hclose) (by simp [hopen])
    · exact (Broadcast.pending_eq hposition).trans (Nat.sub_self _)

theorem Run.found_eq {earlier later : List Event}
    (h : Run {} (former ++ .subscribe id :: (earlier ++ .receive id found :: later)) last) :
    found = Event.answer id earlier := by
  obtain ⟨hopen, start, hkeeps, hlatter, hlive, hnothing⟩ := h.subscribed
  obtain ⟨scene, after, hearlier, hstep, -⟩ := hlatter.split_cons
  have hscene := hearlier.keeps hkeeps
  cases hstep with
  | @receive signal after sending id found hfound =>
    obtain ⟨position, hposition, hcases⟩ := hscene.receive hfound
    have hids := Broadcast.mem_ids_iff.mpr ⟨position, hposition⟩
    have hstays : .unsubscribe id ∉ earlier := fun hmem =>
      (Event.of_mem_live (hscene.ids ▸ hids)).2 (List.mem_append_right _ hmem)
    have htaken : earlier.count (.takes id) + signal.channel.pending id =
        earlier.count .send + 0 := hnothing ▸ (hearlier.taken hkeeps hlive hstays).2
    have hpending : signal.channel.pending id = signal.channel.sent.length - position :=
      Broadcast.pending_eq hposition
    have hsent : earlier.count .send ≤ 1 := by
      have hall := hscene.count_send_le
      rw [List.count_append] at hall
      omega
    rcases hcases with ⟨hlt, rfl, -⟩ | ⟨hle, rfl, -⟩
    · have hlt : position < signal.channel.sent.length := hlt
      have hsend : .send ∈ earlier := List.count_pos_iff.mp (by omega)
      have htakes : .takes id ∉ earlier := List.count_eq_zero.mp (by omega)
      rw [Event.answer, if_pos ⟨hsend, htakes⟩]
    · have hle : signal.channel.sent.length ≤ position := hle
      have hnot : ¬ (.send ∈ earlier ∧ .takes id ∉ earlier) := fun ⟨hsend, htakes⟩ => by
        have hone : 0 < earlier.count .send := List.count_pos_iff.mpr hsend
        have hnone : earlier.count (.takes id) = 0 := List.count_eq_zero.mpr htakes
        omega
      have hclosed : signal.closed = true ↔ .close ∈ earlier := by
        rw [show signal.closed = true ↔ _ from hscene.closed]
        simp [hopen]
      rw [Event.answer, if_neg hnot]
      exact if_congr hclosed rfl rfl

theorem Run.read_iff {flag : Bool} (h : Run {} (former ++ .read flag :: latter) last) :
    flag = true ↔ ∃ before, .raise before ∈ former := by
  obtain ⟨scene, after, hformer, hstep, -⟩ := h.split_cons
  cases hstep with
  | read hopen => exact (hformer.keeps keeps_start).triggered_iff

theorem Run.raise_iff {before : Bool} (h : Run {} (former ++ .raise before :: latter) last) :
    before = true ↔ ∃ earlier, .raise earlier ∈ former := by
  obtain ⟨scene, after, hformer, hstep, -⟩ := h.split_cons
  cases hstep with
  | raise hopen => exact (hformer.keeps keeps_start).triggered_iff

theorem Run.count_send_le (h : Run {} events last) : events.count .send ≤ 1 :=
  (h.keeps keeps_start).count_send_le

theorem Run.send_once (h : Run {} (former ++ .send :: latter) last) :
    (∃ before, .raise before ∈ former) ∧ .send ∉ former ++ latter := by
  have hcount := h.count_send_le
  rw [List.count_append, List.count_cons_self] at hcount
  obtain ⟨scene, after, hformer, hstep, -⟩ := h.split_cons
  constructor
  · have hkeeps := (hformer.keeps keeps_start).step hstep
    have hmem : Event.send ∈ former ++ [Event.send] := List.mem_append_right _ List.mem_cons_self
    obtain ⟨before, hbefore⟩ := hkeeps.raised_of_send hmem
    exact ⟨before, by simpa using hbefore⟩
  · rw [← List.count_eq_zero, List.count_append]
    omega

theorem Run.count_eq {receivers : Nat} (h : Run {} (former ++ .count receivers :: latter) last) :
    receivers = (Event.live former).length := by
  obtain ⟨scene, after, hformer, hstep, -⟩ := h.split_cons
  cases hstep with
  | @count signal sending hopen =>
    have hids : signal.channel.ids = Event.live former := (hformer.keeps keeps_start).ids
    rw [← hids]
    exact (List.length_map _).symm

/-- What is taken has been sent since. -/
theorem Run.sent_of_takes {earlier later : List Event}
    (h : Run {} (former ++ .subscribe id :: (earlier ++ .takes id :: later)) last) :
    .send ∈ earlier := by
  have hfound := h.found_eq
  by_contra hnone
  rw [Event.answer, if_neg fun hboth => hnone hboth.1] at hfound
  split at hfound <;> exact nomatch hfound

/-- Who subscribes after the signal has been sent does not get it. -/
theorem Run.not_taken_late (h : Run {} (former ++ .subscribe id :: latter) last)
    (hsent : .send ∈ former) : .takes id ∉ latter := by
  intro hmem
  obtain ⟨earlier, later, rfl⟩ := List.append_of_mem hmem
  have hcount := h.count_send_le
  have hformer : 0 < former.count .send := List.count_pos_iff.mpr hsent
  have hearlier : 0 < earlier.count .send := List.count_pos_iff.mpr h.sent_of_takes
  simp only [List.count_append, List.count_cons] at hcount
  omega

/-- The signal is taken, or it waits for a receiver that stays. -/
theorem Run.taken_or_pending (h : Run {} (former ++ .subscribe id :: latter) last)
    (hstays : .unsubscribe id ∉ latter) :
    latter.count (.takes id) + last.signal.channel.pending id = latter.count .send := by
  obtain ⟨-, start, hkeeps, hlatter, hlive, hnothing⟩ := h.subscribed
  rw [(hlatter.taken hkeeps hlive hstays).2, hnothing, Nat.add_zero]

/-- Who subscribes and then looks at the flag finds it set or gets the signal. -/
theorem Run.seen_or_taken {middle : List Event} {flag : Bool}
    (h : Run {} (former ++ .subscribe id :: (middle ++ .read flag :: latter)) last)
    (hstays : .unsubscribe id ∉ middle ++ latter) (hidle : last.sending = false)
    (hraised : ∃ before, .raise before ∈ latter) :
    flag = true ∨ latter.count (.takes id) + last.signal.channel.pending id = 1 := by
  rw [or_iff_not_imp_left]
  intro hflag
  have hsplit : former ++ .subscribe id :: (middle ++ .read flag :: latter) =
      (former ++ .subscribe id :: middle) ++ .read flag :: latter := by simp
  -- as long as the flag is not set nothing is sent
  have hquiet : .send ∉ former ++ .subscribe id :: middle := by
    obtain ⟨scene, after, hformer, -, -⟩ := (hsplit ▸ h).split_cons
    intro hmem
    exact hflag ((hsplit ▸ h).read_iff.mpr ((hformer.keeps keeps_start).raised_of_send hmem))
  obtain ⟨hformer, hmiddle⟩ : .send ∉ former ∧ .send ∉ middle := by simpa using hquiet
  have htakes : .takes id ∉ middle := fun hmem => by
    obtain ⟨earlier, later, rfl⟩ := List.append_of_mem hmem
    rw [List.append_assoc, List.cons_append] at h
    exact hmiddle (List.mem_append_left _ h.sent_of_takes)
  obtain ⟨before, hbefore⟩ := hraised
  have hone := (h.keeps keeps_start).count_send_eq_one hidle ⟨before, by simp [hbefore]⟩
  have htaken := h.taken_or_pending (by simpa using hstays)
  have hsends : (middle ++ .read flag :: latter).count .send = 1 := by
    rwa [List.nil_append, List.count_append, List.count_eq_zero.mpr hformer, Nat.zero_add,
      List.count_cons_of_ne (by simp)] at hone
  have htakes : (middle ++ .read flag :: latter).count (.takes id) = latter.count (.takes id) := by
    rw [List.count_append, List.count_eq_zero.mpr htakes, Nat.zero_add,
      List.count_cons_of_ne (by simp [Event.takes])]
  rw [← htakes, htaken, hsends]

/-- Whoever is there finds the signal if that waits for it. -/
theorem Keeps.receive_live (h : Keeps events scene) (hlive : id ∈ Event.live events) :
    ∃ after, scene.signal.receive? id =
      some (if 0 < scene.signal.channel.pending id then .value ()
        else if scene.signal.closed then .closed else .empty, after) := by
  obtain ⟨position, hposition⟩ := Broadcast.mem_ids_iff.mp (h.ids ▸ hlive)
  obtain ⟨found, after, hfound⟩ : ∃ found after, scene.signal.receive? id = some (found, after) :=
    ⟨_, _, by rw [receive?, Broadcast.receive?, hposition]; rfl⟩
  refine ⟨after, hfound.trans ?_⟩
  obtain ⟨place, hplace, hcases⟩ := h.receive hfound
  rw [Broadcast.pending_eq hplace]
  rcases hcases with ⟨hlt, rfl, -⟩ | ⟨hle, rfl, -⟩
  · rw [if_pos (Nat.sub_pos_of_lt hlt)]
  · have hnothing : ¬ 0 < scene.signal.channel.sent.length - place := by omega
    rw [if_neg hnothing]

/-- The signal reaches everyone who subscribes before it is sent, once, and nobody else. Whoever
subscribes and then finds the flag not set is not too late. -/
theorem no_signal_missed (h : Run {} events last) :
    (∀ (former latter : List Event) (flag : Bool), events = former ++ .read flag :: latter →
        (flag = true ↔ ∃ before, Event.raise before ∈ former)) ∧
      (∀ (former latter : List Event) (before : Bool), events = former ++ .raise before :: latter →
        (before = true ↔ ∃ earlier, Event.raise earlier ∈ former)) ∧
      (∀ former latter : List Event, events = former ++ .send :: latter →
        (∃ before, Event.raise before ∈ former) ∧ Event.send ∉ former ++ latter) ∧
      (last.sending = false → (∃ before, Event.raise before ∈ events) → Event.send ∈ events) ∧
      (∀ (former latter : List Event) (receivers : Nat),
        events = former ++ .count receivers :: latter →
        receivers = (Event.live former).length) ∧
      (∀ (former latter : List Event) (id : ReceiverId),
        events = former ++ .subscribe id :: latter →
        (∀ (earlier later : List Event) (found : Received Unit),
          latter = earlier ++ .receive id found :: later → found = Event.answer id earlier) ∧
        (Event.send ∈ former → Event.takes id ∉ latter) ∧
        (Event.unsubscribe id ∉ latter →
          latter.count (.takes id) + last.signal.channel.pending id = latter.count .send)) ∧
      (∀ id ∈ Event.live events, ∃ after, last.signal.receive? id =
        some (if 0 < last.signal.channel.pending id then .value ()
          else if last.signal.closed then .closed else .empty, after)) ∧
      ∀ (former middle latter : List Event) (id : ReceiverId) (flag : Bool),
        events = former ++ .subscribe id :: (middle ++ .read flag :: latter) →
        Event.unsubscribe id ∉ middle ++ latter → last.sending = false →
        (∃ before, Event.raise before ∈ latter) →
        flag = true ∨ latter.count (.takes id) + last.signal.channel.pending id = 1 := by
  refine ⟨?_, ?_, ?_, fun hidle hraised => ?_, ?_, ?_,
    fun id hlive => (h.keeps keeps_start).receive_live hlive, ?_⟩
  · rintro former latter flag rfl
    exact h.read_iff
  · rintro former latter before rfl
    exact h.raise_iff
  · rintro former latter rfl
    exact h.send_once
  · have hone : events.count .send = 1 :=
      (h.keeps keeps_start).count_send_eq_one hidle hraised
    exact List.count_pos_iff.mp (hone ▸ Nat.one_pos)
  · rintro former latter receivers rfl
    exact h.count_eq
  · rintro former latter id rfl
    refine ⟨?_, h.not_taken_late, h.taken_or_pending⟩
    rintro earlier later found rfl
    exact h.found_eq
  · rintro former middle latter id flag rfl hstays hidle hraised
    exact h.seen_or_taken hstays hidle hraised

/-- A receiver subscribes between the two halves of triggering, and takes the signal when the owner
has let go of it. -/
theorem no_signal_missed_between :
    ∃ last, Run {} [.subscribe 0, .read false, .raise false, .subscribe 1, .send, .raise true,
        .receive 0 (.value ()), .close, .receive 0 .closed, .receive 1 (.value ())] last ∧
      last.signal.channel.pending 1 = 0 := by
  obtain ⟨last, hrun⟩ : ∃ last, Run {} [.subscribe 0, .read false, .raise false, .subscribe 1,
      .send, .raise true, .receive 0 (.value ()), .close, .receive 0 .closed,
      .receive 1 (.value ())] last :=
    ⟨_, .cons (.subscribe rfl) <| .cons (.read rfl) <| .cons (.raise rfl) <|
      .cons (.subscribe rfl) <| .cons .send <| .cons (.raise rfl) <| .cons (.receive rfl) <|
      .cons (.close rfl) <| .cons (.receive rfl) <| .cons (.receive rfl) .nil⟩
  obtain ⟨-, -, -, -, -, hdelivery, -, -⟩ := no_signal_missed hrun
  have htaken := (hdelivery [.subscribe 0, .read false, .raise false] _ 1 rfl).2.2 (by decide)
  exact ⟨last, hrun, by simpa [Event.takes] using htaken⟩

end

end Overlay.Signal

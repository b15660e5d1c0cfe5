import Mathlib
import Overlay.Broadcast

/-!
# Receivers of a channel

A receiver moves on when it takes a value, and no other does. Nothing else that happens to a channel
moves a receiver that stays, so what is sent waits for it (`Broadcast.length_sent_send`), and while
the channel keeps all values it finds the next one or none (`Broadcast.receive?_of_kept`).
-/

namespace Overlay.Broadcast

variable {V : Type} {channel : Broadcast V} {id other : ReceiverId} {position : Nat} {value : V}

/-- The live receivers. -/
def ids (channel : Broadcast V) : List ReceiverId := channel.receivers.map (·.1)

/-- How many values wait for a receiver. -/
def pending (channel : Broadcast V) (id : ReceiverId) : Nat :=
  ((channel.position? id).map fun position => channel.sent.length - position).getD 0

theorem mem_ids_iff : id ∈ channel.ids ↔ ∃ position, channel.position? id = some position := by
  rw [← Option.isSome_iff_exists, ids, position?]
  induction channel.receivers with
  | nil => simp
  | cons receiver rest ih =>
    rw [List.map_cons, List.mem_cons, ih]
    by_cases h : id = receiver.1
    · simp [h]
    · rw [List.lookup_cons, beq_eq_false_iff_ne.mpr h]
      exact or_iff_right h

theorem pending_eq (h : channel.position? id = some position) :
    channel.pending id = channel.sent.length - position := by
  rw [pending, h]
  rfl

theorem position?_subscribe (hfresh : channel.next ∉ channel.ids) :
    channel.subscribe.2.position? id =
      if id = channel.next then some channel.sent.length else channel.position? id := by
  have hlookup : channel.subscribe.2.position? id =
      (channel.position? id).or (List.lookup id [(channel.next, channel.sent.length)]) :=
    List.lookup_append
  rw [hlookup]
  by_cases h : id = channel.next
  · have hnone : channel.position? id = none := by
      cases hposition : channel.position? id with
      | none => rfl
      | some position => exact absurd (mem_ids_iff.mpr ⟨position, h ▸ hposition⟩) hfresh
    rw [hnone, if_pos h, Option.none_or, h, List.lookup_cons_self]
  · rw [if_neg h, List.lookup_cons, beq_eq_false_iff_ne.mpr h]
    exact Option.or_none

theorem position?_unsubscribe :
    (channel.unsubscribe id).position? other =
      if other = id then none else channel.position? other := by
  rw [position?, position?, unsubscribe]
  induction channel.receivers with
  | nil => simp
  | cons receiver rest ih =>
    by_cases hreceiver : receiver.1 = id
    · rw [List.filter_cons_of_neg (by simp [hreceiver]), ih]
      by_cases h : other = id
      · rw [if_pos h, if_pos h]
      · rw [if_neg h, if_neg h, List.lookup_cons, hreceiver, beq_eq_false_iff_ne.mpr h]
    · rw [List.filter_cons_of_pos (by simp [hreceiver])]
      by_cases h : other = receiver.1
      · rw [h, if_neg hreceiver, List.lookup_cons_self, List.lookup_cons_self]
      · rw [List.lookup_cons, List.lookup_cons, beq_eq_false_iff_ne.mpr h]
        exact ih

theorem ids_unsubscribe : (channel.unsubscribe id).ids = channel.ids.filter (· ≠ id) := by
  rw [ids, ids, unsubscribe, List.filter_map]
  rfl

theorem position?_advance :
    (channel.advance id position).position? other =
      if other = id then (channel.position? other).map fun _ => position
      else channel.position? other := by
  rw [position?, position?, advance]
  induction channel.receivers with
  | nil => simp
  | cons receiver rest ih =>
    have hfirst : (if receiver.1 = id then (id, position) else receiver).1 = receiver.1 := by
      split <;> simp [*]
    rw [List.map_cons, List.lookup_cons, List.lookup_cons, hfirst]
    by_cases h : other = receiver.1
    · by_cases hreceiver : receiver.1 = id <;> simp [h, hreceiver]
    · rw [beq_eq_false_iff_ne.mpr h]
      exact ih

theorem ids_advance : (channel.advance id position).ids = channel.ids := by
  rw [ids, ids, advance, List.map_map]
  refine List.map_congr_left fun receiver _ => ?_
  by_cases h : receiver.1 = id <;> simp [h]

/-- Sending a value changes nothing else. -/
theorem send_eq (channel : Broadcast V) (value : V) :
    channel.send value = { channel with sent := (channel.send value).sent } := by
  unfold send
  split <;> rfl

theorem position?_send : (channel.send value).position? id = channel.position? id :=
  congrArg (·.position? id) (send_eq channel value)

theorem length_sent_send_le (channel : Broadcast V) (value : V) :
    (channel.send value).sent.length ≤ channel.sent.length + 1 := by
  unfold send
  split <;> simp

/-- What is sent waits for whoever is there. -/
theorem length_sent_send (value : V) (h : channel.position? id = some position) :
    (channel.send value).sent.length = channel.sent.length + 1 := by
  have hsome : channel.receivers.isEmpty = false := by
    cases hreceivers : channel.receivers with
    | nil => simp [position?, hreceivers] at h
    | cons receiver rest => rfl
  rw [send, hsome, if_neg Bool.false_ne_true, List.length_append, List.length_singleton]

/-- As long as all values are kept nobody misses one. -/
theorem receive?_of_kept (hkept : channel.sent.length ≤ channel.capacity)
    (h : channel.position? id = some position) :
    (∃ value, channel.receive? id = some (.value value, channel.advance id (position + 1)) ∧
        position < channel.sent.length) ∨
      channel.receive? id = some (if channel.closed then .closed else .empty, channel) ∧
        channel.sent.length ≤ position := by
  have hreceive : channel.receive? id = some (channel.take id position) := by rw [receive?, h]; rfl
  have hnear : ¬ position < channel.dropped := by
    rw [dropped]
    omega
  rw [hreceive, take, if_neg hnear]
  cases hvalue : channel.sent[position]? with
  | some value =>
    obtain ⟨hlt, -⟩ := List.getElem?_eq_some_iff.mp hvalue
    exact .inl ⟨value, rfl, hlt⟩
  | none => exact .inr ⟨rfl, List.getElem?_eq_none_iff.mp hvalue⟩

end Overlay.Broadcast

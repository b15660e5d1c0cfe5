/-!
# Broadcast channels

Each receiver takes the values that were sent since it subscribed, in their
order. A channel keeps so many values and no more: a receiver that is further
behind is told once how many it has missed, and goes on with the oldest that is
kept. What is sent to nobody is lost. In a closed channel the receivers still
take what waits for them.
-/

namespace Overlay

abbrev ReceiverId := Nat

/-- What a receiver finds. -/
inductive Received (V : Type)
  | value (value : V)
  /-- So many values were missed. -/
  | lagged (missed : Nat)
  | empty
  | closed
deriving DecidableEq, Repr

structure Broadcast (V : Type) where
  /-- How many values are kept. -/
  capacity : Nat
  /-- All values so far, also those that are no longer kept. -/
  sent : List V := []
  closed : Bool := false
  /-- The live receivers, each with the number of values that are behind it. -/
  receivers : List (ReceiverId × Nat) := []
  /-- The number of the next receiver. -/
  next : ReceiverId := 0
deriving DecidableEq, Repr

namespace Broadcast

variable {V : Type}

def subscribe (channel : Broadcast V) : ReceiverId × Broadcast V :=
  (channel.next,
    { channel with
      receivers := channel.receivers ++ [(channel.next, channel.sent.length)],
      next := channel.next + 1 })

def unsubscribe (channel : Broadcast V) (id : ReceiverId) : Broadcast V :=
  { channel with receivers := channel.receivers.filter (·.1 ≠ id) }

def send (channel : Broadcast V) (value : V) : Broadcast V :=
  if channel.receivers.isEmpty then channel else { channel with sent := channel.sent ++ [value] }

def close (channel : Broadcast V) : Broadcast V := { channel with closed := true }

/-- How many values are no longer kept. -/
def dropped (channel : Broadcast V) : Nat := channel.sent.length - channel.capacity

/-- Put so many values behind a receiver. -/
def advance (channel : Broadcast V) (id : ReceiverId) (position : Nat) : Broadcast V :=
  { channel with
    receivers := channel.receivers.map fun r => if r.1 = id then (id, position) else r }

/-- Take what waits for a receiver that has so many values behind it. -/
def take (channel : Broadcast V) (id : ReceiverId) (position : Nat) : Received V × Broadcast V :=
  if position < channel.dropped then
    (.lagged (channel.dropped - position), channel.advance id channel.dropped)
  else
    match channel.sent[position]? with
    | some value => (.value value, channel.advance id (position + 1))
    | none => (if channel.closed then .closed else .empty, channel)

/-- How many values are behind a receiver. -/
def position? (channel : Broadcast V) (id : ReceiverId) : Option Nat := channel.receivers.lookup id

/-- What a receiver finds, if it is there. -/
def receive? (channel : Broadcast V) (id : ReceiverId) : Option (Received V × Broadcast V) :=
  (channel.position? id).map (channel.take id)

def receiverCount (channel : Broadcast V) : Nat := channel.receivers.length

end Broadcast

end Overlay

import Overlay.Broadcast
import Overlay.Value.Describe

/-!
# Signals

A signal is given once, to everyone who has subscribed by then; giving it again
does nothing. Whoever subscribes later finds only the flag that it was given.
When its owner lets go of it, receivers with nothing left to take learn that it
is closed.
-/

namespace Overlay

def Received.label : Received Unit → String
  | .value () => "signal"
  | .lagged _ => "lagged"
  | .empty => "empty"
  | .closed => "closed"

structure Signal where
  triggered : Bool := false
  channel : Broadcast Unit := { capacity := 1 }
deriving DecidableEq, Repr

namespace Signal

/-- Has its owner let go of it? -/
def closed (signal : Signal) : Bool := signal.channel.closed

def subscribe (signal : Signal) : ReceiverId × Signal :=
  let (id, channel) := signal.channel.subscribe
  (id, { signal with channel := channel })

def unsubscribe (signal : Signal) (id : ReceiverId) : Signal :=
  { signal with channel := signal.channel.unsubscribe id }

/-- Set the flag and tell whether it was set before. -/
def raise (signal : Signal) : Bool × Signal :=
  (signal.triggered, { signal with triggered := true })

def send (signal : Signal) : Signal := { signal with channel := signal.channel.send () }

/-- Whoever is the first to set the flag gives the signal. -/
def trigger (signal : Signal) : Signal :=
  let (before, signal) := signal.raise
  if before then signal else signal.send

def close (signal : Signal) : Signal := { signal with channel := signal.channel.close }

def receive? (signal : Signal) (id : ReceiverId) : Option (Received Unit × Signal) :=
  (signal.channel.receive? id).map fun (received, channel) =>
    (received, { signal with channel := channel })

def receiverCount (signal : Signal) : Nat := signal.channel.receiverCount

def describe (signal : Signal) : String :=
  describeFields "Shutdown"
    [("triggered", toString signal.triggered), ("receivers", toString signal.receiverCount)]

end Signal

end Overlay

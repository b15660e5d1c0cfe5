import Overlay.Poll.Source

/-!
# Pollers

A poller takes what its source answers over into one settable leaf. A failed
poll leaves everything as it was; a successful one ends the initial phase and
keeps the checkpoint, if it came with one.
-/

namespace Overlay.Poll

structure Poller where
  source : String
  /-- The number of the leaf that the answers go into. -/
  target : Nat
  checkpoint : Option String := none
  initialized : Bool := false
deriving DecidableEq, Repr

namespace Poller

def request (poller : Poller) : Request := ⟨!poller.initialized, poller.checkpoint⟩

/-- The poller after an answer with this checkpoint has been applied. -/
def settle (poller : Poller) (checkpoint : Option String) : Poller :=
  { poller with checkpoint := checkpoint.or poller.checkpoint, initialized := true }

end Poller

end Overlay.Poll

import Overlay.Edit

/-!
# Sources

What a source of configuration is asked for, and what it can answer. A source
may hand out a checkpoint; it gets the last one back with the next request and
can then answer with what changed since.
-/

namespace Overlay.Poll

inductive FileFault
  | missing
  | notText
deriving DecidableEq, Repr

def FileFault.message : FileFault → String
  | .missing => "No such file or directory (os error 2)"
  | .notText => "stream did not contain valid UTF-8"

inductive PollError
  | source (words : String)
  | io (words : String)
  | file (fault : FileFault)
  /-- The shutdown came before the first poll succeeded. -/
  | interrupted
  | notRunning
  | zeroPeriod
deriving DecidableEq, Repr

def PollError.message : PollError → String
  | .source words => "source error: " ++ words
  | .io words => "I/O error: " ++ words
  | .file fault => "I/O error: " ++ fault.message
  | .interrupted => "initial poll interrupted by shutdown"
  | .notRunning => "poller is not running"
  | .zeroPeriod => "polling period must be non-zero"

structure Response where
  content : Update
  checkpoint : Option String := none
deriving DecidableEq

abbrev Answer := Except PollError Response

/-- What a source is asked: is this the first poll, as far as it knows, and
where did it stop last time? -/
structure Request where
  initial : Bool
  checkpoint : Option String
deriving DecidableEq, Repr

end Overlay.Poll

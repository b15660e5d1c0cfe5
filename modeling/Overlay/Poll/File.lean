import Overlay.Poll.KeyValue
import Overlay.Poll.Source
import Overlay.Value.Describe

/-!
# Files

A file of keys and values as a source. It has no checkpoints: each answer is all
that the file holds.
-/

namespace Overlay.Poll

structure FileSource where
  path : String
  /-- How often a watcher looks at the file where files cannot announce a change. -/
  intervalMs : Nat := 2000
deriving DecidableEq, Repr

namespace FileSource

/-- The entries in a file's bytes. There are none when the file does not exist. -/
def read (source : FileSource) (file : Option ByteArray) : Except PollError Entries :=
  match file with
  | none => .error (.file .missing)
  | some bytes =>
    match String.fromUTF8? bytes with
    | none => .error (.file .notText)
    | some text =>
      (parseKeyValues text).mapError fun fault => .source (source.path ++ ": " ++ fault.message)

def answer (source : FileSource) (file : Option ByteArray) : Answer :=
  (source.read file).map fun entries => ⟨.snapshot entries, none⟩

def describe (source : FileSource) : String :=
  describeFields "FileWatchSource"
    [("path", Text.quoted source.path), ("poll_interval", describeMillis source.intervalMs)]

end FileSource

end Overlay.Poll

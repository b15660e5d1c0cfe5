import Overlay.Entries
import Overlay.Text.Blank
import Overlay.Text.Pieces

/-!
# Lines of keys and values

Text with an entry `key=value` on each line. Blank lines and lines that start
with `#` are skipped. Keys and values are trimmed, and the last value of a key
counts.
-/

namespace Overlay.Poll

/-- A line, counted from 1, without a `=`. -/
structure LineFault where
  line : Nat
deriving DecidableEq, Repr

def LineFault.message (fault : LineFault) : String := s!"line {fault.line}: expected key=value"

/-- The lines of a text, without the line feeds and a carriage return before
them. A line feed at the very end starts no line. -/
def lines (text : List Char) : List (List Char) :=
  let found := Text.pieces ['\n'] text
  let ended := found.dropLast.map fun line =>
    if line.getLast? = some '\r' then line.dropLast else line
  match found.getLast? with
  | some [] | none => ended
  | some last => ended ++ [last]

/-- What stands on a line: nothing, or an entry, if it is well formed. -/
def readLine (line : List Char) : Option (Option (String × String)) :=
  match Text.trim line with
  | [] => some none
  | '#' :: _ => some none
  | text =>
    (Text.cut '=' text).map fun (key, value) =>
      some (String.ofList (Text.trim key), String.ofList (Text.trim value))

/-- Read the lines from the one with this number on into the entries so far. -/
def readLines : Nat → Entries → List (List Char) → Except LineFault Entries
  | _, entries, [] => .ok entries
  | number, entries, line :: rest =>
    match readLine line with
    | none => .error ⟨number⟩
    | some none => readLines (number + 1) entries rest
    | some (some (key, value)) => readLines (number + 1) (entries.insert key value) rest

/-- The entries of a text. -/
def parseKeyValues (text : String) : Except LineFault Entries :=
  readLines 1 .empty (lines text.toList)

end Overlay.Poll

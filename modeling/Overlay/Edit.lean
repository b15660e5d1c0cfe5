import Overlay.Entries

/-!
# Edits

The ways to change the entries of a leaf. An edit reports whether it changed
anything. It judges entry by entry while it works, so a list of pairs that sets
a key to another value and back counts as a change (`runMany`), although the
entries end up as they were.
-/

namespace Overlay

/-- New content for a leaf, as a source of configuration delivers it. -/
inductive Update
  /-- These entries in place of the old ones. -/
  | snapshot (entries : Entries)
  /-- First remove, then set; a key in both ends up set. -/
  | delta (removals : List String) (upserts : Entries)
  | unchanged
deriving DecidableEq

inductive Edit
  | set (key value : String)
  | clear (key : String)
  | setMany (pairs : List (String × String))
  | update (content : Update)
deriving DecidableEq

namespace Edit

/-- Set one key; a change when the key held something else or nothing. -/
def runSet (entries : Entries) (key value : String) : Entries × Bool :=
  if entries.get? key = some value then (entries, false) else (entries.insert key value, true)

/-- Remove one key; a change when it was there. -/
def runClear (entries : Entries) (key : String) : Entries × Bool :=
  (entries.erase key, (entries.get? key).isSome)

def runMany (start : Entries × Bool) (pairs : List (String × String)) : Entries × Bool :=
  pairs.foldl (fun (entries, changed) (key, value) =>
    let (next, differs) := runSet entries key value
    (next, changed || differs)) start

def runRemovals (start : Entries × Bool) (keys : List String) : Entries × Bool :=
  keys.foldl (fun (entries, changed) key =>
    let (next, present) := runClear entries key
    (next, changed || present)) start

/-- The new entries, and whether the edit counts as a change. -/
def run (entries : Entries) : Edit → Entries × Bool
  | .set key value => runSet entries key value
  | .clear key => runClear entries key
  | .setMany pairs => runMany (entries, false) pairs
  | .update (.snapshot next) => (next, entries != next)
  | .update (.delta removals upserts) =>
    runMany (runRemovals (entries, false) removals) upserts.toList
  | .update .unchanged => (entries, false)

end Edit

end Overlay

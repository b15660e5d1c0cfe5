import Overlay.Entries
import Overlay.Template.Expand

/-!
# Configuration trees

A tree is one layer of configuration. A leaf holds entries. A composite lays
named children over each other; the first child that defines a key wins, and
towards its own parent a composite is a single layer again. All questions asked
of a configuration are answered here, by recursion on the tree.
-/

namespace Overlay

inductive Tree
  | leaf (name : String) (entries : Entries)
  | composite (name : String) (children : List (String × Tree))

/-- Where a lookup was satisfied: the raw value, the name of the leaf that holds
it, and the number of composite levels above that leaf. -/
structure Resolution where
  value : String
  source : String
  depth : Nat
deriving DecidableEq, Repr

/-- A step of a depth-first walk. -/
inductive Visit
  | enter (child node : String)
  | entry (key value : String)
  | leave (child : String)
deriving DecidableEq, Repr

/-- What is called on a depth-first walk: ahead of a child, for an entry of a leaf, and behind a
child. -/
structure Visitor (σ : Type) where
  enter (name : String) (child : Tree) (state : σ) : σ
  entry (key value : String) (state : σ) : σ
  leave (name : String) (state : σ) : σ

inductive LookupError
  | notFound (key config : String)
deriving DecidableEq, Repr

def LookupError.message : LookupError → String
  | .notFound key config => s!"property '{key}' not found in config '{config}'"

/-- Insert into an ascending list of keys that has no repetition. -/
def insertKey (key : String) : List String → List String
  | [] => [key]
  | k :: rest =>
    if key < k then key :: k :: rest
    else if k < key then k :: insertKey key rest
    else k :: rest

theorem mem_insertKey {key other : String} {keys : List String} :
    other ∈ insertKey key keys ↔ other = key ∨ other ∈ keys := by
  induction keys with
  | nil => simp [insertKey]
  | cons k rest ih => grind [insertKey]

theorem insertKey_sorted (key : String) {keys : List String} (h : keys.Pairwise (· < ·)) :
    (insertKey key keys).Pairwise (· < ·) := by
  induction keys with
  | nil => simp [insertKey]
  | cons k rest ih =>
    have ⟨hhead, htail⟩ := List.pairwise_cons.mp h
    have := ih htail
    unfold insertKey
    split
    · exact List.pairwise_cons.mpr ⟨by grind, h⟩
    · split
      · exact List.pairwise_cons.mpr ⟨by grind [mem_insertKey], this⟩
      · exact h

/-- The members of both lists, ascending when the second one is. -/
def mergeKeys (keys into : List String) : List String := keys.foldr insertKey into

theorem mem_mergeKeys {key : String} {keys into : List String} :
    key ∈ mergeKeys keys into ↔ key ∈ keys ∨ key ∈ into := by
  induction keys with
  | nil => simp [mergeKeys]
  | cons k rest ih =>
    have : mergeKeys (k :: rest) into = insertKey k (mergeKeys rest into) := rfl
    rw [this, mem_insertKey, ih, List.mem_cons, or_assoc]

theorem mergeKeys_sorted {keys into : List String} (h : into.Pairwise (· < ·)) :
    (mergeKeys keys into).Pairwise (· < ·) := by
  induction keys with
  | nil => exact h
  | cons k rest ih => exact insertKey_sorted k ih

namespace Tree

def name : Tree → String
  | leaf name _ => name
  | composite name _ => name

mutual

/-- The raw value of a key: that of the first child which has one. -/
def get? (key : String) : Tree → Option String
  | leaf _ entries => entries.get? key
  | composite _ children => getFirst? key children

def getFirst? (key : String) : List (String × Tree) → Option String
  | [] => none
  | (_, child) :: rest => (child.get? key).or (getFirst? key rest)

end

mutual

/-- Like `get?`, with the leaf that answered. -/
def resolve? (key : String) : Tree → Option Resolution
  | leaf name entries => (entries.get? key).map fun value => ⟨value, name, 0⟩
  | composite _ children =>
    (resolveFirst? key children).map fun found => { found with depth := found.depth + 1 }

def resolveFirst? (key : String) : List (String × Tree) → Option Resolution
  | [] => none
  | (_, child) :: rest => (child.resolve? key).or (resolveFirst? key rest)

end

mutual

/-- The keys that some leaf defines, ascending. -/
def keys : Tree → List String
  | leaf _ entries => entries.keys
  | composite _ children => keysIn children

def keysIn : List (String × Tree) → List String
  | [] => []
  | (_, child) :: rest => mergeKeys child.keys (keysIn rest)

end

mutual

def isEmpty : Tree → Bool
  | leaf _ entries => entries.isEmpty
  | composite _ children => allEmpty children

def allEmpty : List (String × Tree) → Bool
  | [] => true
  | (_, child) :: rest => child.isEmpty && allEmpty rest

end

mutual

/-- The depth-first walk: children in order, the entries of a leaf by key. -/
def walk : Tree → List Visit
  | leaf _ entries => entries.toList.map fun pair => .entry pair.1 pair.2
  | composite _ children => walkIn children

def walkIn : List (String × Tree) → List Visit
  | [] => []
  | (name, child) :: rest =>
    .enter name child.name :: child.walk ++ .leave name :: walkIn rest

end

mutual

/-- Take a visitor along the walk. -/
def accept {σ : Type} (visitor : Visitor σ) : Tree → σ → σ
  | leaf _ entries, state =>
    entries.toList.foldl (fun state pair => visitor.entry pair.1 pair.2 state) state
  | composite _ children, state => acceptIn visitor children state

def acceptIn {σ : Type} (visitor : Visitor σ) : List (String × Tree) → σ → σ
  | [], state => state
  | (name, child) :: rest, state =>
    acceptIn visitor rest
      (visitor.leave name (child.accept visitor (visitor.enter name child state)))

end

/-- How far a search for the definitions of a key has come. -/
structure Search where
  depth : Nat := 0
  found : List Resolution := []

/-- A leaf answers for itself at depth 0. What a composite answers comes from its children, and
they are visited next. -/
def Search.visitor (key : String) : Visitor Search where
  enter _ child search :=
    let depth := search.depth + 1
    match child.resolve? key with
    | some answer =>
      if answer.depth = 0 then { depth, found := search.found ++ [{ answer with depth }] }
      else { search with depth }
    | none => { search with depth }
  entry _ _ search := search
  leave _ search := { search with depth := search.depth - 1 }

/-- All layers below a composite that define a key, shadowed ones included. -/
def explain (key : String) (tree : Tree) : List Resolution :=
  (tree.accept (Search.visitor key) {}).found

def contains (key : String) (tree : Tree) : Bool := (tree.get? key).isSome

/-- The raw value of a key the caller cannot do without. -/
def require (key : String) (tree : Tree) : Except LookupError String :=
  match tree.get? key with
  | some value => .ok value
  | none => .error (.notFound key tree.name)

mutual

theorem mem_keys_iff (key : String) : (tree : Tree) → (key ∈ tree.keys ↔ (tree.get? key).isSome)
  | leaf _ entries => entries.mem_keys_iff key
  | composite _ children => mem_keysIn_iff key children

theorem mem_keysIn_iff (key : String) :
    (children : List (String × Tree)) → (key ∈ keysIn children ↔ (getFirst? key children).isSome)
  | [] => by simp [keysIn, getFirst?]
  | (_, child) :: rest => by
    simp only [keysIn, getFirst?, mem_mergeKeys, mem_keys_iff key child, mem_keysIn_iff key rest,
      Option.isSome_or, Bool.or_eq_true]

end

/-- Placeholders in a tree's values refer to the tree. -/
def lookup (tree : Tree) : Template.Lookup where
  find := fun key => tree.get? key
  keys := tree.keys
  mem_keys := fun key h => (mem_keys_iff key tree).mpr h

end Tree

end Overlay

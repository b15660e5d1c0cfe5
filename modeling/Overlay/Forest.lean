import Overlay.Edit
import Overlay.Tree

/-!
# Forests

Nodes are shared: one leaf may lie under many composites, and a composite under
others. A forest holds every node once and refers to it by number; the tree
below a node is read off by following the numbers (`Forest.tree`).

A node counts its changes in `version` and knows who wants to hear of them. For
each of its children a composite subscribes a link of its own, so that it hears
once for every way in which it holds a changed node. Telling subscribers is not
done here: an operation leaves the forest with the change made, and the caller
passes the word on.
-/

namespace Overlay

abbrev NodeId := Nat
abbrev LinkId := Nat
abbrev RegistryId := Nat
abbrev ObserverId := Nat

/-- Whom a node tells about its changes. -/
inductive Subscriber
  /-- The entry of a composite's child list that holds the node. -/
  | link (parent : NodeId) (id : LinkId)
  /-- A registry whose notifier is to look at its properties again. -/
  | registry (id : RegistryId)
  /-- A piece of the caller's code. -/
  | observer (id : ObserverId)
deriving DecidableEq, Repr

structure Child where
  name : String
  node : NodeId
  link : LinkId
deriving DecidableEq, Repr

inductive Content
  /-- Entries that never change. -/
  | fixed (entries : Entries)
  | settable (entries : Entries)
  | composite (children : List Child)

structure Node where
  name : String
  content : Content
  version : Nat := 0
  subscribers : List Subscriber := []
  /-- Nobody can get at this node any more. A composite then follows its children no longer. -/
  gone : Bool := false

/-- A leaf of this name whose entries never change. -/
def Node.fixed (name : String) (entries : Entries) : Node := { name, content := .fixed entries }

def Node.settable (name : String) (entries : Entries := .empty) : Node :=
  { name, content := .settable entries }

def Node.composite (name : String) : Node := { name, content := .composite [] }

def Node.children (node : Node) : List Child :=
  match node.content with
  | .composite children => children
  | _ => []

/-- Add at the end, unless it is in the list already. -/
def Node.subscribe (subscriber : Subscriber) (node : Node) : Node :=
  if subscriber ∈ node.subscribers then node
  else { node with subscribers := node.subscribers ++ [subscriber] }

def Node.unsubscribe (subscriber : Subscriber) (node : Node) : Node :=
  { node with subscribers := node.subscribers.filter (· ≠ subscriber) }

inductive StructureError
  | alreadyExists (name parent : String)
deriving DecidableEq, Repr

def StructureError.message : StructureError → String
  | .alreadyExists name parent => s!"config '{name}' already exists in '{parent}'"

/-- Where a new child goes. Children in front win over those behind them. -/
inductive Place
  | first
  | last
deriving DecidableEq, Repr

def Place.insert {α : Type} (a : α) (items : List α) : Place → List α
  | .first => a :: items
  | .last => items ++ [a]

structure Forest where
  nodes : List Node := []
  /-- The number of links made so far; the next one gets this number. -/
  links : Nat := 0

namespace Forest

def node? (forest : Forest) (id : NodeId) : Option Node := forest.nodes[id]?

def modify (forest : Forest) (id : NodeId) (f : Node → Node) : Forest :=
  { forest with nodes := forest.nodes.modify id f }

/-- A new node, and its number. -/
def plant (forest : Forest) (node : Node) : NodeId × Forest :=
  (forest.nodes.length, { forest with nodes := forest.nodes ++ [node] })

def name (forest : Forest) (id : NodeId) : String := ((forest.node? id).map (·.name)).getD ""

def version (forest : Forest) (id : NodeId) : Nat := ((forest.node? id).map (·.version)).getD 0

def children (forest : Forest) (id : NodeId) : List Child :=
  ((forest.node? id).map (·.children)).getD []

def subscribers (forest : Forest) (id : NodeId) : List Subscriber :=
  ((forest.node? id).map (·.subscribers)).getD []

def entries (forest : Forest) (id : NodeId) : Entries :=
  match forest.node? id with
  | some { content := .fixed entries, .. } | some { content := .settable entries, .. } => entries
  | _ => .empty

/-- The tree below a node, to a depth of `fuel` nodes. -/
def unfold (forest : Forest) : Nat → NodeId → Tree
  | 0, id => .leaf (forest.name id) .empty
  | fuel + 1, id =>
    match forest.node? id with
    | none => .leaf "" .empty
    | some node =>
      match node.content with
      | .fixed entries | .settable entries => .leaf node.name entries
      | .composite children =>
        .composite node.name (children.map fun child => (child.name, forest.unfold fuel child.node))

/-- The tree below a node. No downward path is longer than there are nodes. -/
def tree (forest : Forest) (id : NodeId) : Tree := forest.unfold forest.nodes.length id

/-- Run an edit on a settable leaf: the new entries and one more version when the
edit changed something. The flag says whether it did. -/
def edit (forest : Forest) (id : NodeId) (edit : Edit) : Bool × Forest :=
  match forest.node? id with
  | some { content := .settable entries, .. } =>
    let (next, changed) := edit.run entries
    if changed then
      (true, forest.modify id fun node =>
        { node with content := .settable next, version := node.version + 1 })
    else (false, forest)
  | _ => (false, forest)

/-- One more version. -/
def bump (forest : Forest) (id : NodeId) : Forest :=
  forest.modify id fun node => { node with version := node.version + 1 }

def subscribe (forest : Forest) (id : NodeId) (subscriber : Subscriber) : Forest :=
  forest.modify id (·.subscribe subscriber)

def unsubscribe (forest : Forest) (id : NodeId) (subscriber : Subscriber) : Forest :=
  forest.modify id (·.unsubscribe subscriber)

def setChildren (forest : Forest) (id : NodeId) (children : List Child) : Forest :=
  forest.modify id fun node => { node with content := .composite children }

/-- Put a child into a composite and link the two. Names may repeat. -/
def attach (forest : Forest) (parent : NodeId) (place : Place) (name : String) (node : NodeId) :
    Forest :=
  let child : Child := ⟨name, node, forest.links⟩
  let forest := { forest with links := forest.links + 1 }
  let forest := forest.setChildren parent (place.insert child (forest.children parent))
  forest.subscribe node (.link parent child.link)

/-- Take the first child of this name out of a composite and cut its link. -/
def detach (forest : Forest) (parent : NodeId) (name : String) : Option (Child × Forest) := do
  let children := forest.children parent
  let child ← children.find? (·.name = name)
  let forest := forest.setChildren parent (children.eraseP (·.name = name))
  return (child, forest.unsubscribe child.node (.link parent child.link))

/-- Everything below these nodes down to a depth, themselves included. -/
def reach (forest : Forest) : Nat → List NodeId → List NodeId
  | 0, ids => ids
  | depth + 1, ids =>
    ids ++ forest.reach depth ((ids.flatMap fun id => (forest.children id).map (·.node)).eraseDups)

/-- Mark every node that lies below none of the roots as gone, for good. -/
def prune (forest : Forest) (roots : List NodeId) : Forest :=
  let kept := forest.reach forest.nodes.length roots
  { forest with
    nodes := forest.nodes.mapIdx fun id node => { node with gone := node.gone || !kept.contains id } }

def gone (forest : Forest) (id : NodeId) : Bool := ((forest.node? id).map (·.gone)).getD true

end Forest

end Overlay

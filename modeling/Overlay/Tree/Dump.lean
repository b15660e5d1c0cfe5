import Overlay.Tree

/-!
# Dumps

A dump renders a walk as nested objects: one object per child, holding the
child's entries. When a child's name is taken in its parent's object, the child
is stored under the name with the smallest free number from 2 on, so that
shadowed layers stay visible. A walk need not be balanced: objects still open at
its end are closed under the name `?`.
-/

namespace Overlay

inductive Dump
  | text (value : String)
  | object (members : List (String × Dump))

namespace Dump

/-- Set a member, in the place of one that has the name already. -/
def setMember (name : String) (value : Dump) : List (String × Dump) → List (String × Dump)
  | [] => [(name, value)]
  | member :: rest =>
    if member.1 = name then (name, value) :: rest else member :: setMember name value rest

/-- The names under which a member called `name` may be stored, in order of
preference; there are more of them than taken names. -/
def candidates (name : String) (taken : List String) : List String :=
  name :: (List.range (taken.length + 1)).map fun i => name ++ "#" ++ toString (i + 2)

/-- The first candidate that is not taken. -/
def freeName (name : String) (taken : List String) : String :=
  ((candidates name taken).find? (· ∉ taken)).getD name

/-- The members collected so far for each open object, the innermost first. -/
abbrev Builder := List (List (String × Dump))

namespace Builder

def start : Builder := [[]]

/-- Close the innermost object under a name of its parent. Without a parent the
object is dropped. -/
def close (name : String) : Builder → Builder
  | [] => []
  | [_] => []
  | members :: parent :: outer =>
    setMember (freeName name (parent.map (·.1))) (.object members) parent :: outer

def visit (builder : Builder) : Visit → Builder
  | .enter _ _ => [] :: builder
  | .entry key value =>
    match builder with
    | [] => []
    | members :: outer => setMember key (.text value) members :: outer
  | .leave name => close name builder

/-- Close what is still open and return the outermost object. -/
def finish : Builder → Dump
  | [] => .object []
  | [members] => .object members
  | members :: parent :: outer =>
    finish (setMember (freeName "?" (parent.map (·.1))) (.object members) parent :: outer)
termination_by builder => builder.length

end Builder

/-- The rendering of a walk. -/
def ofVisits (visits : List Visit) : Dump := (visits.foldl Builder.visit Builder.start).finish

end Dump

def Tree.dump (tree : Tree) : Dump := Dump.ofVisits tree.walk

end Overlay

import Overlay.Proofs.Forest.Paths

/-!
# Routes

A route says at which position of each child list to go on. A child that a
composite holds twice is met on two routes, and so is one that two children of a
composite share: routes, unlike the nodes they pass, tell the ways apart in which
a composite holds a node. In an acyclic forest they are finite in number and no
longer than there are nodes.
-/

namespace Overlay.Forest

variable {forest : Forest} {id target : NodeId} {route : List Nat}

/-- The node to which a route leads. -/
def follow (forest : Forest) : NodeId → List Nat → Option NodeId
  | id, [] => some id
  | id, position :: rest =>
    (forest.children id)[position]?.bind fun child => forest.follow child.node rest

theorem follow_congr {before after : Forest}
    (h : ∀ id, after.children id = before.children id) (id : NodeId) (route : List Nat) :
    after.follow id route = before.follow id route := by
  induction route generalizing id with
  | nil => rfl
  | cons position rest ih => simp only [follow, h, ih]

theorem follow_append (first second : List Nat) :
    forest.follow id (first ++ second) =
      (forest.follow id first).bind fun node => forest.follow node second := by
  induction first generalizing id with
  | nil => rfl
  | cons position rest ih => simp [follow, ih, Option.bind_assoc]

/-- A route passes a downward path of as many nodes. -/
theorem exists_path_of_follow (h : forest.follow id route = some target) :
    ∃ path, forest.Path id path target ∧ path.length = route.length := by
  induction route generalizing id with
  | nil => exact ⟨[], Option.some.inj h, rfl⟩
  | cons position rest ih =>
    obtain ⟨child, hchild, hrest⟩ := Option.bind_eq_some_iff.mp h
    obtain ⟨path, hpath, hlen⟩ := ih hrest
    refine ⟨child.node :: path, ⟨⟨child, List.mem_of_getElem? hchild, rfl⟩, hpath⟩, ?_⟩
    simp [hlen]

theorem exists_follow_of_path {path : List NodeId} (h : forest.Path id path target) :
    ∃ route, forest.follow id route = some target := by
  induction path generalizing id with
  | nil => exact ⟨[], congrArg some h⟩
  | cons next rest ih =>
    obtain ⟨⟨child, hchild, rfl⟩, hrest⟩ := h
    obtain ⟨position, hposition⟩ := List.mem_iff_getElem?.mp hchild
    obtain ⟨route, hroute⟩ := ih hrest
    exact ⟨position :: route, by simp [follow, hposition, hroute]⟩

/-- Routes lead to what lies below. -/
theorem reaches_iff_follow :
    forest.Reaches id target ↔ ∃ route, forest.follow id route = some target := by
  constructor
  · intro h
    obtain ⟨path, hpath, -⟩ := h.exists_nodup_path
    exact exists_follow_of_path hpath
  · rintro ⟨route, hroute⟩
    obtain ⟨path, hpath, -⟩ := exists_path_of_follow hroute
    exact hpath.reaches

end Overlay.Forest

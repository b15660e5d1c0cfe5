import Mathlib.Data.List.Basic
import Overlay.Tree

/-!
# One tree, five answers

Lookup, resolution, the search for definitions, the keys and the emptiness of a
tree are recursions of their own. A route is a list of positions in child lists;
the routes to the leaves, in the order of the walk (`Tree.routes`), are what all
of them can be read from: `explain_eq` for the search, and with it the others.
-/

namespace Overlay.Tree

variable {key : String}

-- ---------------------------------------------------------------------------
-- Routes
-- ---------------------------------------------------------------------------

def children : Tree → List (String × Tree)
  | leaf _ _ => []
  | composite _ children => children

def entries : Tree → Entries
  | leaf _ entries => entries
  | composite _ _ => .empty

/-- The tree to which a route leads. -/
def at? (tree : Tree) : List Nat → Option Tree
  | [] => some tree
  | position :: rest => tree.children[position]?.bind fun child => child.2.at? rest

/-- What the leaf at the end of a route says about a key. -/
def definition? (key : String) (depth : Nat) (tree : Tree) (route : List Nat) : Option Resolution :=
  (tree.at? route).bind fun leaf =>
    (leaf.entries.get? key).map fun value => ⟨value, leaf.name, depth + route.length⟩

mutual

/-- The routes to the leaves, in the order of the walk. -/
def routes : Tree → List (List Nat)
  | leaf _ _ => [[]]
  | composite _ children => routesFrom 0 children

def routesFrom (position : Nat) : List (String × Tree) → List (List Nat)
  | [] => []
  | (_, child) :: rest => child.routes.map (position :: ·) ++ routesFrom (position + 1) rest

end

/-- A route into one of these children starts with the position of the child. -/
theorem exists_of_mem_routesFrom {position : Nat} {children : List (String × Tree)}
    {route : List Nat} (h : route ∈ routesFrom position children) :
    ∃ next rest, route = next :: rest ∧ position ≤ next := by
  induction children generalizing position with
  | nil => simp [routesFrom] at h
  | cons child rest ih =>
    rw [routesFrom, List.mem_append, List.mem_map] at h
    rcases h with ⟨tail, -, rfl⟩ | h
    · exact ⟨position, tail, rfl, Nat.le_refl _⟩
    · obtain ⟨next, tail, rfl, hle⟩ := ih h
      exact ⟨next, tail, rfl, Nat.le_of_succ_le hle⟩

mutual

/-- The walk comes to the leaves in ascending order of their routes. -/
theorem routes_sorted : (tree : Tree) → tree.routes.Pairwise (· < ·)
  | leaf _ _ => List.pairwise_singleton _ _
  | composite _ children => routesFrom_sorted 0 children

theorem routesFrom_sorted (position : Nat) :
    (children : List (String × Tree)) → (routesFrom position children).Pairwise (· < ·)
  | [] => .nil
  | (_, child) :: rest => by
    refine List.pairwise_append.mpr ⟨?_, routesFrom_sorted (position + 1) rest, ?_⟩
    · rw [List.pairwise_map]
      exact (routes_sorted child).imp fun h => List.Lex.cons h
    · intro route hroute other hother
      obtain ⟨tail, -, rfl⟩ := List.mem_map.mp hroute
      obtain ⟨next, tail, rfl, hle⟩ := exists_of_mem_routesFrom hother
      exact List.Lex.rel hle

end

mutual

/-- The walk comes to every leaf. -/
theorem mem_routes {name : String} {entries : Entries} : (tree : Tree) → (route : List Nat) →
    tree.at? route = some (leaf name entries) → route ∈ tree.routes
  | leaf _ _, [], _ => List.mem_singleton.mpr rfl
  | leaf _ _, _ :: _, h => by simp [at?, children] at h
  | composite _ _, [], h => by simp [at?] at h
  | composite _ children, position :: rest, h => by
    simpa [routes] using mem_routesFrom 0 children position rest h

theorem mem_routesFrom {name : String} {entries : Entries} (first : Nat) :
    (children : List (String × Tree)) → (offset : Nat) → (route : List Nat) →
    (children[offset]?.bind fun child => child.2.at? route) = some (leaf name entries) →
    (first + offset) :: route ∈ routesFrom first children
  | [], _, _, h => by simp at h
  | (_, child) :: rest, 0, route, h =>
    List.mem_append_left _ (List.mem_map_of_mem (mem_routes child route h))
  | (_, child) :: rest, offset + 1, route, h => by
    refine List.mem_append_right _ ?_
    have hmem := mem_routesFrom (first + 1) rest offset route (by simpa using h)
    rwa [Nat.add_right_comm] at hmem

end

theorem mem_routes_of_definition? {depth : Nat} {tree : Tree} {route : List Nat}
    (h : (tree.definition? key depth route).isSome) : route ∈ tree.routes := by
  obtain ⟨answer, hanswer⟩ := Option.isSome_iff_exists.mp h
  obtain ⟨found, hfound, hheld⟩ := Option.bind_eq_some_iff.mp hanswer
  cases found with
  | leaf name entries => exact mem_routes tree route hfound
  | composite name children => simp [entries] at hheld

-- ---------------------------------------------------------------------------
-- The search
-- ---------------------------------------------------------------------------

mutual

/-- Every definition of a key at or below a tree that has `depth` composite levels above it. -/
def definitions (key : String) (depth : Nat) : Tree → List Resolution
  | leaf name entries => ((entries.get? key).map fun value => ⟨value, name, depth⟩).toList
  | composite _ children => definitionsIn key (depth + 1) children

def definitionsIn (key : String) (depth : Nat) : List (String × Tree) → List Resolution
  | [] => []
  | (_, child) :: rest => child.definitions key depth ++ definitionsIn key depth rest

end

/-- Ahead of a child the search adds what the child itself says, which only a leaf does. -/
theorem enter_search (name : String) (child : Tree) (search : Search) :
    (Search.visitor key).enter name child search =
      { depth := search.depth + 1
        found := search.found ++
          match child with
          | leaf _ _ => child.definitions key (search.depth + 1)
          | composite _ _ => [] } := by
  cases child with
  | leaf name entries =>
    simp only [Search.visitor, resolve?, definitions]
    cases entries.get? key <;> simp
  | composite name children =>
    simp only [Search.visitor, resolve?]
    cases resolveFirst? key children <;> simp

mutual

/-- What the walk through a tree adds to a search lies below the tree. -/
theorem accept_search (search : Search) : (tree : Tree) →
    tree.accept (Search.visitor key) search =
      { search with
        found := search.found ++ definitionsIn key (search.depth + 1) tree.children }
  | leaf _ entries => by
    have hentries : ∀ pairs : List (String × String),
        pairs.foldl (fun state pair => (Search.visitor key).entry pair.1 pair.2 state) search =
          search := by
      intro pairs
      induction pairs with
      | nil => rfl
      | cons pair rest ih => exact ih
    simp [accept, hentries, children, definitionsIn]
  | composite _ children => acceptIn_search search children

theorem acceptIn_search (search : Search) : (children : List (String × Tree)) →
    acceptIn (Search.visitor key) children search =
      { search with found := search.found ++ definitionsIn key (search.depth + 1) children }
  | [] => by simp [acceptIn, definitionsIn]
  | (name, child) :: rest => by
    rw [acceptIn, enter_search, accept_search _ child, acceptIn_search _ rest]
    cases child with
    | leaf _ entries => simp [Search.visitor, children, definitionsIn]
    | composite _ below => simp [Search.visitor, children, definitionsIn, definitions]

end

-- ---------------------------------------------------------------------------
-- Definitions by route
-- ---------------------------------------------------------------------------

theorem definition?_cons (depth : Nat) (tree : Tree) (position : Nat) (route : List Nat) :
    tree.definition? key depth (position :: route) =
      tree.children[position]?.bind fun child => child.2.definition? key (depth + 1) route := by
  simp only [definition?, at?, Option.bind_assoc, List.length_cons, Nat.add_assoc, Nat.add_comm 1]

mutual

/-- The definitions come in the order of the routes to them. -/
theorem definitions_eq (depth : Nat) : (tree : Tree) →
    tree.definitions key depth = tree.routes.filterMap (tree.definition? key depth)
  | leaf name entries => by
    cases h : entries.get? key <;>
      simp [definitions, routes, definition?, at?, Tree.entries, h, Tree.name]
  | composite name children => definitionsIn_eq depth name [] children

theorem definitionsIn_eq (depth : Nat) (name : String) (before : List (String × Tree)) :
    (children : List (String × Tree)) →
    definitionsIn key (depth + 1) children =
      (routesFrom before.length children).filterMap
        ((composite name (before ++ children)).definition? key depth)
  | [] => rfl
  | child :: rest => by
    have hrest := definitionsIn_eq depth name (before ++ [child]) rest
    have hchild : child.2.routes.filterMap (fun route =>
        (composite name (before ++ child :: rest)).definition? key depth (before.length :: route)) =
        child.2.definitions key (depth + 1) := by
      simp [definition?_cons, children, definitions_eq (depth + 1) child.2]
    simp only [List.length_append, List.length_singleton, List.append_assoc,
      List.singleton_append] at hrest
    simp only [definitionsIn, routesFrom, List.filterMap_append, List.filterMap_map, hrest]
    exact congrArg (· ++ _) hchild.symm

end

/-- The search finds the definition at the end of each route to a leaf that has one. -/
theorem explain_eq (name : String) (children : List (String × Tree)) :
    (composite name children).explain key =
      (composite name children).routes.filterMap
        ((composite name children).definition? key 0) := by
  have hbelow : (composite name children).explain key =
      (composite name children).definitions key 0 := by
    simp [explain, accept_search, definitions, Tree.children]
  exact hbelow.trans (definitions_eq 0 _)

mutual

/-- The winning definition is what the tree resolves to. -/
theorem head?_definitions (depth : Nat) : (tree : Tree) →
    (tree.definitions key depth).head? =
      (tree.resolve? key).map fun answer => { answer with depth := depth + answer.depth }
  | leaf _ entries => by
    cases h : entries.get? key <;> simp [definitions, resolve?, h]
  | composite _ children => by
    simp [definitions, resolve?, head?_definitionsIn (depth + 1) children, Function.comp_def,
      Nat.add_assoc, Nat.add_comm 1]

theorem head?_definitionsIn (depth : Nat) : (children : List (String × Tree)) →
    (definitionsIn key depth children).head? =
      (resolveFirst? key children).map fun answer => { answer with depth := depth + answer.depth }
  | [] => rfl
  | (_, child) :: rest => by
    simp only [definitionsIn, resolveFirst?, List.head?_append, head?_definitions depth child,
      head?_definitionsIn depth rest]
    cases child.resolve? key <;> rfl

end

theorem resolve?_eq_head? (name : String) (children : List (String × Tree)) :
    (composite name children).resolve? key = ((composite name children).explain key).head? := by
  simp [explain_eq, ← definitions_eq, head?_definitions]

mutual

/-- Both lookups stop at the same leaf. -/
theorem get?_eq : (tree : Tree) → tree.get? key = (tree.resolve? key).map (·.value)
  | leaf _ entries => by simp [get?, resolve?, Function.comp_def]
  | composite _ children => by
    simp [get?, resolve?, getFirst?_eq children, Function.comp_def]

theorem getFirst?_eq : (children : List (String × Tree)) →
    getFirst? key children = (resolveFirst? key children).map (·.value)
  | [] => rfl
  | (_, child) :: rest => by
    simp only [getFirst?, resolveFirst?, get?_eq child, getFirst?_eq rest]
    cases child.resolve? key <;> rfl

end

-- ---------------------------------------------------------------------------
-- Keys
-- ---------------------------------------------------------------------------

theorem keysIn_sorted (children : List (String × Tree)) : (keysIn children).Pairwise (· < ·) := by
  induction children with
  | nil => exact .nil
  | cons child rest ih => exact mergeKeys_sorted ih

theorem keys_sorted (tree : Tree) : tree.keys.Pairwise (· < ·) := by
  cases tree with
  | leaf name entries => exact entries.keys_sorted
  | composite name children => exact keysIn_sorted children

theorem mergeKeys_eq_nil {keys into : List String} :
    mergeKeys keys into = [] ↔ keys = [] ∧ into = [] := by
  simp only [List.eq_nil_iff_forall_not_mem, mem_mergeKeys, not_or, forall_and]

mutual

theorem isEmpty_iff : (tree : Tree) → (tree.isEmpty = true ↔ tree.keys = [])
  | leaf _ entries => by simp [isEmpty, keys, Entries.isEmpty, Entries.keys]
  | composite _ children => allEmpty_iff children

theorem allEmpty_iff : (children : List (String × Tree)) →
    (allEmpty children = true ↔ keysIn children = [])
  | [] => by simp [allEmpty, keysIn]
  | (_, child) :: rest => by
    simp [allEmpty, keysIn, mergeKeys_eq_nil, isEmpty_iff child, allEmpty_iff rest]

end

-- ---------------------------------------------------------------------------
-- The recorded walk
-- ---------------------------------------------------------------------------

/-- The visitor that writes the walk down. -/
def recorder : Visitor (List Visit) where
  enter name child visits := visits ++ [.enter name child.name]
  entry key value visits := visits ++ [.entry key value]
  leave name visits := visits ++ [.leave name]

mutual

theorem accept_recorder (visits : List Visit) : (tree : Tree) →
    tree.accept recorder visits = visits ++ tree.walk
  | leaf _ entries => by
    simp only [accept, walk]
    induction entries.toList generalizing visits with
    | nil => simp
    | cons pair rest ih =>
      simp only [List.foldl_cons, ih]
      simp [recorder]
  | composite _ children => acceptIn_recorder visits children

theorem acceptIn_recorder (visits : List Visit) : (children : List (String × Tree)) →
    acceptIn recorder children visits = visits ++ walkIn children
  | [] => by simp [acceptIn, walkIn]
  | (name, child) :: rest => by
    simp only [acceptIn, walkIn, acceptIn_recorder _ rest, accept_recorder _ child]
    simp [recorder]

end

end Overlay.Tree

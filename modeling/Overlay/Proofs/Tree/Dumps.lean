import Mathlib
import Overlay.Proofs.Tree.Answers
import Overlay.Tree.Dump

/-!
# Dumps by recursion

A dump is collected along a walk, with the objects that are still open on a stack. Said by
recursion on the tree (`Tree.members`), it gives each child a member of its own: a walk through a
tree puts its members into the innermost object and leaves the others alone
(`foldl_visit_walk`). So no member takes the place of another, and the texts of a dump are the
definitions of the tree (`textsIn_members`).
-/

namespace Overlay

namespace Dump

variable {name : String} {taken : List String} {value : Dump} {members : List (String × Dump)}

-- ---------------------------------------------------------------------------
-- Free names
-- ---------------------------------------------------------------------------

def numbered (name : String) (number : Nat) : String := name ++ "#" ++ toString number

/-- The name under which a member called `name` is stored where these names are taken. -/
inductive Slot (taken : List String) (name : String) : String → Prop
  | own (hfree : name ∉ taken) : Slot taken name name
  | numbered {number : Nat} (htaken : name ∈ taken) (hnumber : 2 ≤ number)
      (hfree : numbered name number ∉ taken)
      (hleast : ∀ less, 2 ≤ less → less < number → numbered name less ∈ taken) :
    Slot taken name (numbered name number)

theorem Slot.not_mem {slot : String} (h : Slot taken name slot) : slot ∉ taken := by
  cases h with
  | own hfree => exact hfree
  | numbered _ _ hfree => exact hfree

theorem numbered_injective (name : String) : Function.Injective (numbered name) := by
  intro number other h
  have hchars := congrArg String.toList h
  simp only [numbered, String.toList_append] at hchars
  have hdigits := congrArg (fun digits => Nat.ofDigitChars 10 digits 0)
    (List.append_cancel_left hchars)
  simpa [Nat.toString_eq_ofList_toDigits] using hdigits

/-- Of more numbers than there are taken names one is free. -/
theorem exists_numbered_not_mem (name : String) (taken : List String) :
    ∃ index < taken.length + 1, numbered name (index + 2) ∉ taken := by
  by_contra hnone
  simp only [not_exists, not_and, not_not] at hnone
  have hinjective : Function.Injective fun index => numbered name (index + 2) :=
    (numbered_injective name).comp (add_left_injective 2)
  have hnodup : ((List.range (taken.length + 1)).map fun index => numbered name (index + 2)).Nodup :=
    List.nodup_range.map hinjective
  have hsubset : ((List.range (taken.length + 1)).map fun index => numbered name (index + 2)) ⊆
      taken := by
    intro slot hslot
    obtain ⟨index, hindex, rfl⟩ := List.mem_map.mp hslot
    exact hnone index (List.mem_range.mp hindex)
  have hlength := (List.subperm_of_subset hnodup hsubset).length_le
  simp at hlength

theorem slot_freeName (taken : List String) (name : String) :
    Slot taken name (freeName name taken) := by
  by_cases htaken : name ∈ taken
  · obtain ⟨index, hindex, hfree⟩ := exists_numbered_not_mem name taken
    cases hfind : (List.range (taken.length + 1)).find?
        (fun index => decide (numbered name (index + 2) ∉ taken)) with
    | none =>
      have hnone := List.find?_range_eq_none.mp hfind index hindex
      exact absurd hfree (by simpa using hnone)
    | some found =>
      obtain ⟨hfound, -, hless⟩ := List.find?_range_eq_some.mp hfind
      -- the candidates after the name itself are the numbered names from 2 on
      have hname : freeName name taken = numbered name (found + 2) := by
        have hnumbered : ((List.range (taken.length + 1)).map
            fun index => numbered name (index + 2)).find? (fun slot => decide (slot ∉ taken)) =
            some (numbered name (found + 2)) :=
          List.find?_map.trans (congrArg (Option.map _) hfind)
        rw [freeName, candidates, List.find?_cons_of_neg (by simpa using htaken)]
        exact congrArg (·.getD name) hnumbered
      rw [hname]
      refine .numbered htaken (Nat.le_add_left 2 found) (by simpa using hfound) ?_
      intro less hle hlt
      have htaken := hless (less - 2) (by omega)
      rw [Nat.sub_add_cancel hle] at htaken
      simpa using htaken
  · have hname : freeName name taken = name := by
      rw [freeName, candidates, List.find?_cons_of_pos (by simpa using htaken), Option.getD_some]
    rw [hname]
    exact .own htaken

theorem setMember_of_not_mem (h : name ∉ members.map (·.1)) :
    setMember name value members = members ++ [(name, value)] := by
  induction members with
  | nil => rfl
  | cons member rest ih =>
    simp only [List.map_cons, List.mem_cons, not_or] at h
    rw [setMember, if_neg (Ne.symm h.1), ih h.2]
    rfl

theorem close_eq (name : String) (members parent : List (String × Dump)) (outer : Builder) :
    Builder.close name (members :: parent :: outer) =
      (parent ++ [(freeName name (parent.map (·.1)), .object members)]) :: outer := by
  rw [Builder.close, setMember_of_not_mem (slot_freeName _ name).not_mem]

end Dump

namespace Tree

open Dump (Builder)

variable {key : String} {taken : List String}

-- ---------------------------------------------------------------------------
-- The recursion
-- ---------------------------------------------------------------------------

mutual

def members : Tree → List (String × Dump)
  | leaf _ entries => entries.toList.map fun pair => (pair.1, .text pair.2)
  | composite _ children => membersIn [] children

/-- A member for each child, where these names are taken. -/
def membersIn (taken : List String) : List (String × Tree) → List (String × Dump)
  | [] => []
  | (name, child) :: rest =>
    let slot := Dump.freeName name taken
    (slot, .object child.members) :: membersIn (taken ++ [slot]) rest

end

theorem foldl_visit_entries (before pairs : List (String × String)) (outer : Builder)
    (h : (before ++ pairs).Pairwise (·.1 < ·.1)) :
    (pairs.map fun pair => Visit.entry pair.1 pair.2).foldl Builder.visit
        ((before.map fun pair => (pair.1, .text pair.2)) :: outer) =
      ((before ++ pairs).map fun pair => (pair.1, .text pair.2)) :: outer := by
  induction pairs generalizing before with
  | nil => simp
  | cons pair rest ih =>
    -- keys are in order, so none of those written before is met again
    have hnew : pair.1 ∉ (before.map fun pair => (pair.1, Dump.text pair.2)).map (·.1) := by
      simp only [List.map_map, List.mem_map, Function.comp_apply, not_exists, not_and]
      rintro other hother hsame
      have hless := (List.pairwise_append.mp h).2.2 other hother pair List.mem_cons_self
      exact String.lt_irrefl _ (hsame ▸ hless)
    rw [List.append_cons] at h ⊢
    rw [← ih (before ++ [pair]) h]
    simp [Builder.visit, Dump.setMember_of_not_mem hnew]

mutual

theorem foldl_visit_walk (outer : Builder) : (tree : Tree) →
    tree.walk.foldl Builder.visit ([] :: outer) = tree.members :: outer
  | leaf _ entries => foldl_visit_entries [] entries.toList outer entries.sorted
  | composite _ children => foldl_visit_walkIn [] outer children

theorem foldl_visit_walkIn (parent : List (String × Dump)) (outer : Builder) :
    (children : List (String × Tree)) →
    (walkIn children).foldl Builder.visit (parent :: outer) =
      (parent ++ membersIn (parent.map (·.1)) children) :: outer
  | [] => by simp [walkIn, membersIn]
  | (name, child) :: rest => by
    rw [walkIn, List.cons_append, List.foldl_cons, List.foldl_append, List.foldl_cons]
    show (walkIn rest).foldl Builder.visit (Builder.close name
      (child.walk.foldl Builder.visit ([] :: parent :: outer))) = _
    rw [foldl_visit_walk (parent :: outer) child, Dump.close_eq, foldl_visit_walkIn _ outer rest]
    simp [membersIn]

end

theorem dump_eq (tree : Tree) : tree.dump = .object tree.members := by
  rw [dump, Dump.ofVisits, Builder.start, foldl_visit_walk [] tree, Builder.finish]

-- ---------------------------------------------------------------------------
-- Members
-- ---------------------------------------------------------------------------

theorem length_membersIn (taken : List String) (children : List (String × Tree)) :
    (membersIn taken children).length = children.length := by
  induction children generalizing taken with
  | nil => rfl
  | cons child rest ih => simp [membersIn, ih]

/-- Each child has the member at its place, under a name that is free there. -/
theorem getElem?_membersIn (taken : List String) (children : List (String × Tree)) (index : Nat) :
    (membersIn taken children)[index]? = children[index]?.map fun child =>
      (Dump.freeName child.1 (taken ++ ((membersIn taken children).take index).map (·.1)),
        .object child.2.members) := by
  induction children generalizing taken index with
  | nil => simp [membersIn]
  | cons child rest ih =>
    cases index with
    | zero => simp [membersIn]
    | succ index => simp [membersIn, ih]

theorem nodup_membersIn (htaken : taken.Nodup) (children : List (String × Tree)) :
    (taken ++ (membersIn taken children).map (·.1)).Nodup := by
  induction children generalizing taken with
  | nil => simpa [membersIn] using htaken
  | cons child rest ih =>
    have hfree : Dump.freeName child.1 taken ∉ taken := (Dump.slot_freeName taken child.1).not_mem
    have hmore : (taken ++ [Dump.freeName child.1 taken]).Nodup := by
      rw [← List.concat_eq_append]
      exact htaken.concat hfree
    simpa [membersIn] using ih hmore

theorem nodup_members (tree : Tree) : (tree.members.map (·.1)).Nodup := by
  cases tree with
  | leaf name entries =>
    rw [members, List.map_map]
    exact entries.keys_sorted.imp fun hless => String.ne_of_lt hless
  | composite name children => exact nodup_membersIn List.nodup_nil children

end Tree

-- ---------------------------------------------------------------------------
-- Texts
-- ---------------------------------------------------------------------------

namespace Dump

mutual

/-- The texts under a key in a member of this name, however deep. -/
def textsOf (key name : String) : Dump → List String
  | text value => if name = key then [value] else []
  | object members => textsIn key members

def textsIn (key : String) : List (String × Dump) → List String
  | [] => []
  | (name, value) :: rest => value.textsOf key name ++ textsIn key rest

end

def texts (key : String) : Dump → List String
  | text _ => []
  | object members => textsIn key members

theorem textsIn_pairs {key : String} {pairs : List (String × String)}
    (h : pairs.Pairwise (·.1 < ·.1)) :
    textsIn key (pairs.map fun pair => (pair.1, .text pair.2)) = (pairs.lookup key).toList := by
  induction pairs with
  | nil => rfl
  | cons pair rest ih =>
    obtain ⟨hhead, hrest⟩ := List.pairwise_cons.mp h
    rw [List.map_cons, textsIn, ih hrest, textsOf]
    by_cases hkey : pair.1 = key
    · have hnone : rest.lookup key = none := by
        rw [List.lookup_eq_none_iff]
        intro other hother
        simpa [hkey] using String.ne_of_lt (hhead other hother)
      rw [if_pos hkey, hnone, List.lookup, hkey, beq_self_eq_true]
      rfl
    · have hne : (key == pair.1) = false := by simpa using Ne.symm hkey
      rw [if_neg hkey, List.lookup, hne, List.nil_append]

end Dump

namespace Tree

variable {key : String}

mutual

/-- The texts under a key are the values of its definitions, in the order of the walk. -/
theorem textsIn_members (depth : Nat) : (tree : Tree) →
    Dump.textsIn key tree.members = (tree.definitions key depth).map (·.value)
  | leaf _ entries => by
    rw [members, Dump.textsIn_pairs entries.sorted, definitions, Entries.get?]
    cases entries.toList.lookup key <;> rfl
  | composite _ children => textsIn_membersIn (depth + 1) [] children

theorem textsIn_membersIn (depth : Nat) (taken : List String) :
    (children : List (String × Tree)) →
    Dump.textsIn key (membersIn taken children) =
      (definitionsIn key depth children).map (·.value)
  | [] => rfl
  | (name, child) :: rest => by
    rw [membersIn, Dump.textsIn, Dump.textsOf, textsIn_members depth child,
      textsIn_membersIn depth _ rest, definitionsIn, List.map_append]

end

theorem texts_dump (name : String) (children : List (String × Tree)) :
    (composite name children).dump.texts key =
      ((composite name children).explain key).map (·.value) := by
  rw [dump_eq, Dump.texts, textsIn_members 0, definitions_eq, explain_eq]

end Tree

end Overlay

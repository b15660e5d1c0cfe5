import Mathlib.Data.Nat.Count
import Overlay.Proofs.Engine.Work

/-!
# Some of the handles

Handles are told apart by their numbers, which are given out in the order in which handles are
made. When only some of them are made, these have lower numbers (`place`). What is left of an
engine when the others have never been there is `only` what concerns the kept ones: their
handles, their part of every list of handles, and the work and the tasks that are about them or
about no handle at all.
-/

namespace Overlay

variable {V : Type} (keep : HandleId → Bool)

/-- The number of a handle among those that are kept. -/
def place (id : HandleId) : HandleId := Nat.count (keep · = true) id

/-- The items at the places that are kept. -/
def pick {α : Type} : (Nat → Bool) → List α → List α
  | _, [] => []
  | keep, a :: rest => if keep 0 then a :: pick (fun i => keep (i + 1)) rest
    else pick (fun i => keep (i + 1)) rest

def placed (ids : List HandleId) : List HandleId := (ids.filter keep).map (place keep)

def Notice.only? (notice : Notice V) : Option (Notice V) :=
  if keep notice.handle then some { notice with handle := place keep notice.handle } else none

def Task.only? : Task V → Option (Task V)
  | .refreshAll => some .refreshAll
  | .deliver notice => (notice.only? keep).map .deliver

def Callback.only? : Callback V → Option (Callback V)
  | .node observer changed => some (.node observer changed)
  | .property listener handle event =>
    if keep handle then some (.property listener (place keep handle) event) else none

/-- The work, if it is about a kept handle or about none. -/
def Frame.only? : Frame V → Option (Frame V)
  | .tell node subscribers => some (.tell node subscribers)
  | .deliver notice => (notice.only? keep).map .deliver
  | .callback call => (call.only? keep).map .callback
  | .listen handle listener =>
    if keep handle then some (.listen (place keep handle) listener) else none
  | .refresh handles => some (.refresh (placed keep handles))
  | .pass registry notices => some (.pass registry (notices.filterMap (·.only? keep)))
  | .settle poller checkpoint changed => some (.settle poller checkpoint changed)
  | .keep node => some (.keep node)

def Registry.only (registry : Registry V) : Registry V :=
  { registry with
    handles := placed keep registry.handles
    queue := registry.queue.filterMap (·.only? keep) }

-- ---------------------------------------------------------------------------
-- Places
-- ---------------------------------------------------------------------------

variable {keep} {id other : HandleId}

theorem place_zero : place keep 0 = 0 := Nat.count_zero _

/-- Numbers from the second on, seen from the second on. -/
theorem place_succ : place keep (id + 1) =
    place (fun i => keep (i + 1)) id + if keep 0 then 1 else 0 := by
  simp [place, Nat.count_succ']

theorem place_inj (hid : keep id = true) (hother : keep other = true) :
    place keep id = place keep other ↔ id = other :=
  ⟨fun h => Nat.count_injective hid hother h, fun h => h ▸ rfl⟩

variable {α : Type} {items : List α} {a : α} {f : α → α}

theorem length_pick : (pick keep items).length = place keep items.length := by
  induction items generalizing keep with
  | nil => exact (place_zero).symm
  | cons a rest ih =>
    rw [List.length_cons, place_succ, pick]
    split
    · simp [ih]
    · simp [ih]

theorem getElem?_pick (hkeep : keep id = true) :
    (pick keep items)[place keep id]? = items[id]? := by
  induction items generalizing keep id with
  | nil => simp [pick]
  | cons a rest ih =>
    cases id with
    | zero => simp [pick, hkeep, place_zero]
    | succ id =>
      rw [place_succ, pick, List.getElem?_cons_succ]
      split
      · exact ih hkeep
      · exact ih hkeep

theorem pick_concat : pick keep (items ++ [a]) =
    pick keep items ++ if keep items.length then [a] else [] := by
  induction items generalizing keep with
  | nil => cases hkeep : keep 0 <;> simp [pick, hkeep]
  | cons b rest ih =>
    simp only [List.cons_append, pick, List.length_cons, ih]
    split
    · simp
    · rfl

theorem pick_modify (hkeep : keep id = true) :
    pick keep (items.modify id f) = (pick keep items).modify (place keep id) f := by
  induction items generalizing keep id with
  | nil => simp [pick]
  | cons a rest ih =>
    cases id with
    | zero => simp [pick, hkeep, place_zero]
    | succ id =>
      have hrest := @ih (fun i => keep (i + 1)) id hkeep
      rw [place_succ, List.modify_succ_cons, pick, pick]
      split
      · rw [hrest, List.modify_succ_cons]
      · exact hrest

theorem pick_modify_of_not (hkeep : keep id = false) :
    pick keep (items.modify id f) = pick keep items := by
  induction items generalizing keep id with
  | nil => simp [pick]
  | cons a rest ih =>
    cases id with
    | zero => simp [pick, hkeep]
    | succ id =>
      have hrest := @ih (fun i => keep (i + 1)) id hkeep
      simp only [List.modify_succ_cons, pick, hrest]

theorem exists_of_mem_pick (hmem : a ∈ pick keep items) :
    ∃ i, keep i = true ∧ items[i]? = some a := by
  induction items generalizing keep with
  | nil => simp [pick] at hmem
  | cons b rest ih =>
    have hrest (hmem : a ∈ pick (fun i => keep (i + 1)) rest) :
        ∃ i, keep i = true ∧ (b :: rest)[i]? = some a := by
      obtain ⟨i, hkeep, hitem⟩ := ih hmem
      exact ⟨i + 1, hkeep, hitem⟩
    rw [pick] at hmem
    split at hmem
    · rename_i hkeep
      rcases List.mem_cons.mp hmem with rfl | hmem
      · exact ⟨0, hkeep, rfl⟩
      · exact hrest hmem
    · exact hrest hmem

theorem placed_cons {ids : List HandleId} : placed keep (id :: ids) =
    if keep id then place keep id :: placed keep ids else placed keep ids := by
  cases hkeep : keep id <;> simp [placed, hkeep]

end Overlay

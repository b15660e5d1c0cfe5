/-!
# Entries

What one leaf of a configuration tree holds: values by key. Entries are kept in
strictly ascending key order, so two collections are equal exactly when every
key looks the same in both (`Entries.ext_get?`), and listing them needs no sort.
-/

namespace Overlay

/-- Insert into an ascending list, replacing the value of a key already there. -/
def insertPair (key value : String) : List (String × String) → List (String × String)
  | [] => [(key, value)]
  | pair :: rest =>
    if key < pair.1 then (key, value) :: pair :: rest
    else if pair.1 < key then pair :: insertPair key value rest
    else (key, value) :: rest

theorem mem_insertPair {key value : String} {pairs : List (String × String)}
    {p : String × String} (h : p ∈ insertPair key value pairs) :
    p = (key, value) ∨ p ∈ pairs := by
  induction pairs with
  | nil => simpa [insertPair] using h
  | cons pair rest ih => grind [insertPair]

theorem insertPair_sorted (key value : String) {pairs : List (String × String)}
    (h : pairs.Pairwise (·.1 < ·.1)) : (insertPair key value pairs).Pairwise (·.1 < ·.1) := by
  induction pairs with
  | nil => simp [insertPair]
  | cons pair rest ih =>
    have ⟨hhead, htail⟩ := List.pairwise_cons.mp h
    unfold insertPair
    split
    · refine List.pairwise_cons.mpr ⟨?_, h⟩
      grind
    · split
      · refine List.pairwise_cons.mpr ⟨fun p hp => ?_, ih htail⟩
        rcases mem_insertPair hp with rfl | hp
        · assumption
        · exact hhead p hp
      · have : pair.1 = key := by grind
        exact List.pairwise_cons.mpr ⟨fun p hp => this ▸ hhead p hp, htail⟩

/-- Values by key, ascending, each key once. -/
@[ext]
structure Entries where
  toList : List (String × String) := []
  sorted : toList.Pairwise (·.1 < ·.1) := by exact .nil

namespace Entries

instance : DecidableEq Entries := fun a b =>
  if h : a.toList = b.toList then .isTrue (Entries.ext h)
  else .isFalse (fun e => h (e ▸ rfl))

instance : Inhabited Entries := ⟨{}⟩

def empty : Entries := {}

/-- The value of a key, when it has one. -/
def get? (entries : Entries) (key : String) : Option String := entries.toList.lookup key

def insert (entries : Entries) (key value : String) : Entries where
  toList := insertPair key value entries.toList
  sorted := insertPair_sorted key value entries.sorted

def erase (entries : Entries) (key : String) : Entries where
  toList := entries.toList.filter (·.1 != key)
  sorted := entries.sorted.filter _

/-- Fill in order, so that the last value of a repeated key stays. -/
def insertMany (entries : Entries) (pairs : List (String × String)) : Entries :=
  pairs.foldl (fun entries pair => entries.insert pair.1 pair.2) entries

def ofPairs (pairs : List (String × String)) : Entries := empty.insertMany pairs

def keys (entries : Entries) : List String := entries.toList.map (·.1)

def size (entries : Entries) : Nat := entries.toList.length

def isEmpty (entries : Entries) : Bool := entries.toList.isEmpty

@[simp] theorem get?_empty (key : String) : empty.get? key = none := rfl

theorem lookup_insertPair (key value : String) (pairs : List (String × String)) (other : String)
    (h : pairs.Pairwise (·.1 < ·.1)) :
    (insertPair key value pairs).lookup other =
      if other = key then some value else pairs.lookup other := by
  induction pairs with
  | nil => grind [insertPair]
  | cons pair rest ih =>
    have htail := (List.pairwise_cons.mp h).2
    obtain ⟨k, v⟩ := pair
    grind [insertPair]

@[simp] theorem get?_insert (entries : Entries) (key value other : String) :
    (entries.insert key value).get? other =
      if other = key then some value else entries.get? other :=
  lookup_insertPair key value entries.toList other entries.sorted

theorem lookup_filter_ne (pairs : List (String × String)) (key other : String) :
    (pairs.filter (·.1 != key)).lookup other =
      if other = key then none else pairs.lookup other := by
  induction pairs with
  | nil => simp
  | cons pair rest ih =>
    obtain ⟨k, v⟩ := pair
    simp only [List.filter_cons]
    split <;> grind

@[simp] theorem get?_erase (entries : Entries) (key other : String) :
    (entries.erase key).get? other = if other = key then none else entries.get? other :=
  lookup_filter_ne entries.toList key other

theorem get?_eq_some_iff (entries : Entries) (key value : String) :
    entries.get? key = some value ↔ (key, value) ∈ entries.toList := by
  obtain ⟨pairs, h⟩ := entries
  simp only [get?]
  induction pairs with
  | nil => simp
  | cons pair rest ih =>
    have ⟨hhead, htail⟩ := List.pairwise_cons.mp h
    obtain ⟨k, v⟩ := pair
    have := ih htail
    grind [String.lt_irrefl]

theorem mem_keys_iff (entries : Entries) (key : String) :
    key ∈ entries.keys ↔ (entries.get? key).isSome := by
  simp only [Option.isSome_iff_exists, get?_eq_some_iff, keys, List.mem_map]
  constructor
  · rintro ⟨⟨k, v⟩, hmem, rfl⟩
    exact ⟨v, hmem⟩
  · rintro ⟨v, hmem⟩
    exact ⟨(key, v), hmem, rfl⟩

theorem keys_sorted (entries : Entries) : entries.keys.Pairwise (· < ·) :=
  List.pairwise_map.mpr entries.sorted

/-- Ascending lists with the same members are the same list. -/
theorem eq_of_mem_iff {a b : List (String × String)}
    (ha : a.Pairwise (·.1 < ·.1)) (hb : b.Pairwise (·.1 < ·.1)) (h : ∀ p, p ∈ a ↔ p ∈ b) :
    a = b := by
  induction a generalizing b with
  | nil =>
    cases b with
    | nil => rfl
    | cons q qs => exact absurd ((h q).mpr (by simp)) (by simp)
  | cons p ps ih =>
    cases b with
    | nil => exact absurd ((h p).mp (by simp)) (by simp)
    | cons q qs =>
      have ⟨hp, hps⟩ := List.pairwise_cons.mp ha
      have ⟨hq, hqs⟩ := List.pairwise_cons.mp hb
      have hpq : p = q := by
        have h1 := (h p).mp (by simp)
        have h2 := (h q).mpr (by simp)
        grind [String.lt_asymm]
      subst hpq
      congr 1
      refine ih hps hqs fun r => ?_
      have := h r
      have hr1 : r ∈ ps → r ≠ p := fun hr he => String.lt_irrefl _ (he ▸ hp r hr)
      have hr2 : r ∈ qs → r ≠ p := fun hr he => String.lt_irrefl _ (he ▸ hq r hr)
      grind

/-- Entries are determined by what each key looks up. -/
theorem ext_get? {a b : Entries} (h : ∀ key, a.get? key = b.get? key) : a = b := by
  refine Entries.ext (eq_of_mem_iff a.sorted b.sorted fun p => ?_)
  rw [show p = (p.1, p.2) from rfl, ← get?_eq_some_iff, ← get?_eq_some_iff, h]

end Entries

end Overlay

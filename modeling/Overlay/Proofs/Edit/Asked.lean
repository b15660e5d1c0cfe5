import Overlay.Edit

/-!
# What edits ask for

An edit asks for keys to hold a value, or nothing (`Edit.Asks`), and what a key holds
afterwards has been asked for, or is what it held before (`Edit.get?_run`). The edit counts
as a change exactly when the entries do not hold all that it asks for as they are
(`Edit.changed_iff`). So every edit that makes a difference counts as a change. An edit
that counts as a change makes a difference if it asks for one thing of each key at most
(`Edit.Steady`); one that asks for something and back need not.
-/

namespace Overlay

namespace Entries

variable {entries : Entries} {key : String}

theorem get?_insertMany_cases (entries : Entries) (pairs : List (String × String)) (key : String) :
    (∃ value, (key, value) ∈ pairs ∧ (entries.insertMany pairs).get? key = some value) ∨
      ((∀ value, (key, value) ∉ pairs) ∧
        (entries.insertMany pairs).get? key = entries.get? key) := by
  induction pairs generalizing entries with
  | nil => exact .inr ⟨fun _ => List.not_mem_nil, rfl⟩
  | cons pair rest ih =>
    obtain ⟨other, held⟩ := pair
    have hcons : entries.insertMany ((other, held) :: rest) =
        (entries.insert other held).insertMany rest := rfl
    rw [hcons]
    rcases ih (entries.insert other held) with ⟨value, hmem, hget⟩ | ⟨hnot, hget⟩
    · exact .inl ⟨value, List.mem_cons_of_mem _ hmem, hget⟩
    · rw [get?_insert] at hget
      by_cases hkey : key = other
      · subst hkey
        rw [if_pos rfl] at hget
        exact .inl ⟨held, List.mem_cons_self, hget⟩
      · rw [if_neg hkey] at hget
        refine .inr ⟨fun value hmem => ?_, hget⟩
        rcases List.mem_cons.mp hmem with heq | hmem
        · exact hkey (Prod.mk.inj heq).1
        · exact hnot value hmem

theorem get?_insertMany_toList (entries upserts : Entries) (key : String) :
    (entries.insertMany upserts.toList).get? key = (upserts.get? key).or (entries.get? key) := by
  rcases get?_insertMany_cases entries upserts.toList key with ⟨value, hmem, hget⟩ | ⟨hnot, hget⟩
  · rw [hget, (upserts.get?_eq_some_iff key value).mpr hmem]
    rfl
  · have hnone : upserts.get? key = none :=
      Option.eq_none_iff_forall_ne_some.mpr fun value hsome =>
        hnot value ((upserts.get?_eq_some_iff key value).mp hsome)
    rw [hget, hnone]
    rfl

theorem get?_eraseMany (entries : Entries) (keys : List String) (key : String) :
    (keys.foldl erase entries).get? key = if key ∈ keys then none else entries.get? key := by
  induction keys generalizing entries with
  | nil => simp
  | cons other rest ih =>
    rw [List.foldl_cons, ih, get?_erase]
    by_cases hkey : key = other
    · simp [hkey]
    · simp [hkey]

/-- To set a key to what it holds changes nothing. -/
theorem insert_of_get? {value : String} (h : entries.get? key = some value) :
    entries.insert key value = entries := by
  refine ext_get? fun other => ?_
  rw [get?_insert]
  split
  · rename_i hother
    rw [hother, h]
  · rfl

/-- To remove a key that is not there changes nothing. -/
theorem erase_of_get? (h : entries.get? key = none) : entries.erase key = entries := by
  refine ext_get? fun other => ?_
  rw [get?_erase]
  split
  · rename_i hother
    rw [hother, h]
  · rfl

theorem eraseMany_of_get? {keys : List String} (h : ∀ key ∈ keys, entries.get? key = none) :
    keys.foldl erase entries = entries := by
  induction keys with
  | nil => rfl
  | cons key rest ih =>
    rw [List.foldl_cons, erase_of_get? (h key List.mem_cons_self)]
    exact ih fun other hmem => h other (List.mem_cons_of_mem _ hmem)

end Entries

/-- The entries that an update makes of others: a delta removes first and then sets. -/
def Update.apply : Update → Entries → Entries
  | .snapshot next, _ => next
  | .delta removals upserts, entries => (removals.foldl .erase entries).insertMany upserts.toList
  | .unchanged, entries => entries

/-- What a delta sets is set, also if it removes it. -/
theorem Update.get?_apply_delta (removals : List String) (upserts entries : Entries)
    (key : String) : ((Update.delta removals upserts).apply entries).get? key =
      (upserts.get? key).or (if key ∈ removals then none else entries.get? key) := by
  rw [apply, Entries.get?_insertMany_toList, Entries.get?_eraseMany]

namespace Edit

variable {edit : Edit} {entries : Entries} {changed : Bool}

-- ---------------------------------------------------------------------------
-- Lists of pairs and keys
-- ---------------------------------------------------------------------------

theorem runSet_fst (entries : Entries) (key value : String) :
    (runSet entries key value).1 = entries.insert key value := by
  unfold runSet
  split
  · rename_i h
    exact (Entries.insert_of_get? h).symm
  · rfl

theorem runMany_cons {key value : String} {rest : List (String × String)} :
    runMany (entries, changed) ((key, value) :: rest) =
      runMany ((runSet entries key value).1, changed || (runSet entries key value).2) rest := rfl

theorem runRemovals_cons {key : String} {rest : List String} :
    runRemovals (entries, changed) (key :: rest) =
      runRemovals (entries.erase key, changed || (entries.get? key).isSome) rest := rfl

theorem runMany_fst (entries : Entries) (changed : Bool) (pairs : List (String × String)) :
    (runMany (entries, changed) pairs).1 = entries.insertMany pairs := by
  induction pairs generalizing entries changed with
  | nil => rfl
  | cons pair rest ih =>
    obtain ⟨key, value⟩ := pair
    rw [runMany_cons, ih, runSet_fst]
    rfl

theorem runRemovals_fst (entries : Entries) (changed : Bool) (keys : List String) :
    (runRemovals (entries, changed) keys).1 = keys.foldl .erase entries := by
  induction keys generalizing entries changed with
  | nil => rfl
  | cons key rest ih =>
    rw [runRemovals_cons, ih]
    rfl

/-- The flag is raised by the first pair that the entries do not hold. -/
theorem runMany_changed (entries : Entries) (changed : Bool) (pairs : List (String × String)) :
    (runMany (entries, changed) pairs).2 = true ↔
      changed = true ∨ ∃ pair ∈ pairs, entries.get? pair.1 ≠ some pair.2 := by
  induction pairs generalizing entries changed with
  | nil => simp [runMany]
  | cons pair rest ih =>
    obtain ⟨key, value⟩ := pair
    rw [runMany_cons, ih]
    by_cases h : entries.get? key = some value
    · simp [runSet, h]
    · simp [runSet, h]

theorem runRemovals_changed (entries : Entries) (changed : Bool) (keys : List String) :
    (runRemovals (entries, changed) keys).2 = true ↔
      changed = true ∨ ∃ key ∈ keys, entries.get? key ≠ none := by
  induction keys generalizing entries changed with
  | nil => simp [runRemovals]
  | cons key rest ih =>
    rw [runRemovals_cons, ih]
    cases h : entries.get? key with
    | none =>
      rw [Entries.erase_of_get? h]
      simp [h]
    | some value => simp [h]

theorem run_update (content : Update) (entries : Entries) :
    (Edit.run entries (.update content)).1 = content.apply entries := by
  cases content with
  | snapshot next => rfl
  | unchanged => rfl
  | delta removals upserts =>
    have hremoved : runRemovals (entries, false) removals =
        (removals.foldl .erase entries, (runRemovals (entries, false) removals).2) := by
      rw [← runRemovals_fst entries false removals]
    rw [run, hremoved, runMany_fst]
    rfl

-- ---------------------------------------------------------------------------
-- What is asked for
-- ---------------------------------------------------------------------------

/-- The edit asks for the key to hold this, or nothing. A snapshot speaks of every key. -/
def Asks (key : String) (wish : Option String) : Edit → Prop
  | .set other value => key = other ∧ wish = some value
  | .clear other => key = other ∧ wish = none
  | .setMany pairs => ∃ value, (key, value) ∈ pairs ∧ wish = some value
  | .update (.snapshot next) => wish = next.get? key
  | .update (.delta removals upserts) =>
    (key ∈ removals ∧ wish = none) ∨ ∃ value, upserts.get? key = some value ∧ wish = some value
  | .update .unchanged => False

/-- The edit asks for one thing of each key at most. -/
def Steady (edit : Edit) : Prop :=
  ∀ key wish other, edit.Asks key wish → edit.Asks key other → wish = other

theorem get?_run (edit : Edit) (entries : Entries) (key : String) :
    edit.Asks key ((edit.run entries).1.get? key) ∨
      ((∀ wish, ¬ edit.Asks key wish) ∧ (edit.run entries).1.get? key = entries.get? key) := by
  cases edit with
  | set other value =>
    rw [run, runSet_fst, Entries.get?_insert]
    by_cases h : key = other
    · simp [Asks, h]
    · simp [Asks, h]
  | clear other =>
    rw [run, runClear, Entries.get?_erase]
    by_cases h : key = other
    · simp [Asks, h]
    · simp [Asks, h]
  | setMany pairs =>
    rw [run, runMany_fst]
    rcases Entries.get?_insertMany_cases entries pairs key with ⟨value, hmem, hget⟩ | ⟨hnot, hget⟩
    · exact .inl ⟨value, hmem, hget⟩
    · refine .inr ⟨?_, hget⟩
      rintro wish ⟨value, hmem, -⟩
      exact hnot value hmem
  | update content =>
    rw [run_update]
    cases content with
    | snapshot next => exact .inl rfl
    | unchanged => exact .inr ⟨fun _ h => h, rfl⟩
    | delta removals upserts =>
      rw [Update.get?_apply_delta]
      cases hupsert : upserts.get? key with
      | some value => exact .inl (.inr ⟨value, hupsert, rfl⟩)
      | none =>
        by_cases hremoved : key ∈ removals
        · simp [Asks, hremoved]
        · simp [Asks, hremoved, hupsert]

/-- An edit counts as a change when it asks for something that is not so already. -/
theorem changed_iff (edit : Edit) (entries : Entries) :
    (edit.run entries).2 = true ↔ ∃ key wish, edit.Asks key wish ∧ entries.get? key ≠ wish := by
  cases edit with
  | set key value =>
    by_cases h : entries.get? key = some value
    · simp [run, runSet, Asks, h]
    · exact iff_of_true (by simp [run, runSet, h]) ⟨key, some value, ⟨rfl, rfl⟩, h⟩
  | clear key =>
    cases h : entries.get? key with
    | none => simp [run, runClear, Asks, h]
    | some value =>
      exact iff_of_true (by simp [run, runClear, h]) ⟨key, none, ⟨rfl, rfl⟩, by simp [h]⟩
  | setMany pairs =>
    rw [run, runMany_changed]
    constructor
    · rintro (hfalse | ⟨pair, hmem, hget⟩)
      · exact absurd hfalse (by simp)
      · exact ⟨pair.1, some pair.2, ⟨pair.2, hmem, rfl⟩, hget⟩
    · rintro ⟨key, wish, ⟨value, hmem, rfl⟩, hget⟩
      exact .inr ⟨(key, value), hmem, hget⟩
  | update content =>
    cases content with
    | unchanged => simp [run, Asks]
    | snapshot next =>
      have hext : entries = next ↔ ∀ key, entries.get? key = next.get? key :=
        ⟨fun h _ => h ▸ rfl, Entries.ext_get?⟩
      simp [run, Asks, hext]
    | delta removals upserts =>
      have hremoved : runRemovals (entries, false) removals =
          (removals.foldl .erase entries, (runRemovals (entries, false) removals).2) := by
        rw [← runRemovals_fst entries false removals]
      rw [run, hremoved, runMany_changed, runRemovals_changed]
      by_cases hkeys : ∃ key ∈ removals, entries.get? key ≠ none
      · -- the flag is up once a key has been removed, whatever is set then
        obtain ⟨key, hmem, hget⟩ := hkeys
        refine iff_of_true (.inl (.inr ⟨key, hmem, hget⟩)) ⟨key, none, .inl ⟨hmem, rfl⟩, hget⟩
      · have hnone : ∀ key ∈ removals, entries.get? key = none := by simpa using hkeys
        rw [Entries.eraseMany_of_get? hnone]
        constructor
        · rintro ((hfalse | hsome) | ⟨pair, hmem, hget⟩)
          · exact absurd hfalse (by simp)
          · exact absurd hsome hkeys
          · have hupsert := (upserts.get?_eq_some_iff pair.1 pair.2).mpr hmem
            exact ⟨pair.1, some pair.2, .inr ⟨pair.2, hupsert, rfl⟩, hget⟩
        · rintro ⟨key, wish, ⟨hmem, rfl⟩ | ⟨value, hupsert, rfl⟩, hget⟩
          · exact absurd (hnone key hmem) hget
          · exact .inr ⟨(key, value), (upserts.get?_eq_some_iff key value).mp hupsert, hget⟩

theorem changed_of_ne (h : (edit.run entries).1 ≠ entries) : (edit.run entries).2 = true := by
  refine Decidable.byContradiction fun hflag => h (Entries.ext_get? fun key => ?_)
  rcases edit.get?_run entries key with hasked | ⟨-, hget⟩
  · refine Decidable.byContradiction fun hne => hflag ?_
    exact (edit.changed_iff entries).mpr ⟨key, _, hasked, Ne.symm hne⟩
  · exact hget

theorem eq_of_not_changed (h : (edit.run entries).2 ≠ true) : (edit.run entries).1 = entries :=
  Decidable.not_not.mp fun hne => h (changed_of_ne hne)

/-- Of two things asked of one key, one is not so. -/
theorem changed_of_not_steady (h : ¬ edit.Steady) : (edit.run entries).2 = true := by
  simp only [Steady, Classical.not_forall] at h
  obtain ⟨key, wish, other, hwish, hother, hne⟩ := h
  rw [changed_iff]
  by_cases hget : entries.get? key = wish
  · exact ⟨key, other, hother, hget ▸ hne⟩
  · exact ⟨key, wish, hwish, hget⟩

theorem Steady.ne_of_changed (h : edit.Steady) (hchanged : (edit.run entries).2 = true) :
    (edit.run entries).1 ≠ entries := by
  obtain ⟨key, wish, hasks, hne⟩ := (edit.changed_iff entries).mp hchanged
  intro heq
  rcases edit.get?_run entries key with hasked | ⟨hnot, -⟩
  · exact hne (heq ▸ h key _ wish hasked hasks)
  · exact hnot wish hasks

end Edit

end Overlay

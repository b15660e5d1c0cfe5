import Overlay.Proofs.Except
import Overlay.Value.Decode

/-!
# Values that differ from themselves

Equality of values is that of what they denote, and a bit pattern that denotes no number
equals nothing. So a value equals itself unless there is such a pattern in it
(`Value.equal_self`), and there is none unless its text, or the text of one of its items,
names it (`Decode.namesNan_of_value`).
-/

namespace Overlay

open Numeral (BinaryFormat FloatFault readUnsigned readMagnitude)

namespace Value

mutual

/-- Does the value, or a part of it, denote no number? -/
def hasNan : Value → Bool
  | single bits => BinaryFormat.single.isNan bits
  | double bits => BinaryFormat.double.isNan bits
  | list items | set items => anyNan items
  | _ => false

def anyNan : List Value → Bool
  | [] => false
  | item :: rest => item.hasNan || anyNan rest

end

theorem anyNan_eq_any (items : List Value) : anyNan items = items.any hasNan := by
  induction items with
  | nil => rfl
  | cons item rest ih => rw [anyNan, ih, List.any_cons]

theorem equal_pattern_self (format : BinaryFormat) (bits : Nat) :
    format.equal bits bits = !format.isNan bits := by
  simp [BinaryFormat.equal]

mutual

theorem equal_self : (value : Value) → value.equal value = !value.hasNan
  | single bits => equal_pattern_self _ bits
  | double bits => equal_pattern_self _ bits
  | list items | set items => equalItems_self items
  | text _ | truth _ | whole _ | character _ | millis _ => by simp [equal, hasNan]

theorem equalItems_self : (items : List Value) → equalItems items items = !anyNan items
  | [] => rfl
  | item :: rest => by
    rw [equalItems, anyNan, equal_self item, equalItems_self rest, Bool.not_or]

end

theorem mem_of_mem_insertItem {item other : Value} {items : List Value}
    (h : other ∈ insertItem item items) : other = item ∨ other ∈ items := by
  fun_induction insertItem item items with
  | case1 => exact .inl (List.mem_singleton.mp h)
  | case2 first rest _ => exact List.mem_cons.mp h
  | case3 first rest _ => exact .inr h
  | case4 first rest _ ih =>
    rcases List.mem_cons.mp h with rfl | hrest
    · exact .inr List.mem_cons_self
    · exact (ih hrest).imp_right (List.mem_cons_of_mem first)

/-- Putting items in order adds none. -/
theorem mem_of_mem_ascending {item : Value} {items : List Value} (h : item ∈ ascending items) :
    item ∈ items := by
  suffices hfold : ∀ sorted : List Value,
      item ∈ items.foldl (fun sorted item => insertItem item sorted) sorted →
        item ∈ sorted ∨ item ∈ items from (hfold [] h).resolve_left List.not_mem_nil
  clear h
  induction items with
  | nil => exact fun _ hmem => .inl hmem
  | cons first rest ih =>
    intro sorted hmem
    rcases ih _ hmem with hinserted | hrest
    · rcases mem_of_mem_insertItem hinserted with rfl | hsorted
      · exact .inr List.mem_cons_self
      · exact .inl hsorted
    · exact .inr (List.mem_cons_of_mem first hrest)

end Value

-- ---------------------------------------------------------------------------
-- Texts that name no number
-- ---------------------------------------------------------------------------

namespace Numeral

/-- Is this the word for no number, with or without a sign? -/
def namesNan : List Char → Bool
  | '-' :: word | '+' :: word | word => String.ofList (word.map Char.toLower) = "nan"

variable {format : BinaryFormat}

theorem BinaryFormat.ofDecimal_le (digits count : Nat) (exponent : Int) :
    format.ofDecimal digits count exponent ≤ format.infinity := by
  unfold ofDecimal ofQuotient
  split
  · exact Nat.zero_le _
  · split
    · exact Nat.le_refl _
    · split
      · exact Nat.zero_le _
      · split
        · exact Nat.zero_le _
        · exact Nat.min_le_right _ _

theorem readMagnitude_le {text : List Char} {bits : Nat}
    (h : readMagnitude format text = some bits) : bits ≤ format.infinity := by
  simp only [readMagnitude] at h
  split at h
  · split at h
    · exact absurd h (by simp)
    · obtain ⟨exponent, -, rfl⟩ := Option.map_eq_some_iff.mp h
      exact format.ofDecimal_le _ _ _
  · split at h
    · exact absurd h (by simp)
    · obtain ⟨exponent, -, rfl⟩ := Option.map_eq_some_iff.mp h
      exact format.ofDecimal_le _ _ _

/-- Of the texts without a sign, only the word for no number is read as one. -/
theorem readUnsigned_cases {text : List Char} {bits : Nat}
    (h : readUnsigned format text = some bits) :
    bits ≤ format.infinity ∨ String.ofList (text.map Char.toLower) = "nan" := by
  simp only [readUnsigned] at h
  split at h
  · exact .inl (Nat.le_of_eq (Option.some.inj h).symm)
  · split at h
    · rename_i hword
      exact .inr hword
    · exact .inl (readMagnitude_le h)

theorem BinaryFormat.isNan_eq_false (hregular : format.infinity < format.signBit) {bits : Nat}
    (h : bits ≤ format.infinity) :
    format.isNan bits = false ∧ format.isNan (format.signBit + bits) = false := by
  have hless : bits < format.signBit := Nat.lt_of_le_of_lt h hregular
  simp [isNan, magnitude, Nat.mod_eq_of_lt hless, h]

theorem namesNan_of_read (hregular : format.infinity < format.signBit) {text : List Char}
    {bits : Nat} (h : format.read text = .ok bits) (hnan : format.isNan bits = true) :
    namesNan text = true := by
  have hword {unsigned : List Char} {pattern : Nat}
      (hread : readUnsigned format unsigned = some pattern)
      (hbits : bits = pattern ∨ bits = format.signBit + pattern) :
      String.ofList (unsigned.map Char.toLower) = "nan" := by
    refine (readUnsigned_cases hread).resolve_left fun hle => ?_
    obtain ⟨hplain, hsigned⟩ := BinaryFormat.isNan_eq_false hregular hle
    rcases hbits with rfl | rfl
    · exact absurd (hnan.symm.trans hplain) (by simp)
    · exact absurd (hnan.symm.trans hsigned) (by simp)
  unfold BinaryFormat.read at h
  split at h
  · exact absurd h (by simp)
  · split at h
    · rename_i hread
      cases Except.ok.inj h
      exact decide_eq_true (hword hread (.inr rfl))
    · exact absurd h (by simp)
  · rename_i hempty hminus
    split at h
    · rename_i hread
      cases Except.ok.inj h
      have hnamed := hword hread (.inl rfl)
      unfold namesNan
      split
      · rename_i rest
        exact absurd rfl (hminus rest)
      · exact decide_eq_true hnamed
      · rename_i hplus
        rw [if_neg] at hnamed
        · exact decide_eq_true hnamed
        · intro hhead
          obtain ⟨rest, rfl⟩ := List.head?_eq_some_iff.mp hhead
          exact hplus rest rfl
    · exact absurd h (by simp)

end Numeral

namespace Decode

/-- Does the text, or the text of one of its items, name no number? Only floating point
types have texts that do. -/
def namesNan (delimiter : String) : ValueType → String → Bool
  | .single, raw | .double, raw => Numeral.namesNan (Text.trim raw.toList)
  | .list item, raw | .set item, raw | .bag item, raw =>
    (items delimiter raw).any (namesNan delimiter item)
  | _, _ => false

section
variable {V : Type} {delimiter raw typeName : String} {value : Value}

/-- Each of the values of a list is that of an item. -/
theorem exists_of_mem_list {item : Decoder V} {found : List V}
    (h : list item delimiter raw = .ok found) {value : V} (hmem : value ∈ found) :
    ∃ text ∈ items delimiter raw, item text = .ok value := by
  unfold list at h
  generalize items delimiter raw = texts at h
  induction texts generalizing found with
  | nil =>
    cases Except.ok.inj h
    exact absurd hmem List.not_mem_nil
  | cons text rest ih =>
    rw [List.mapM_cons] at h
    obtain ⟨first, hfirst, h⟩ := Except.bind_eq_ok_iff.mp h
    obtain ⟨others, hrest, h⟩ := Except.bind_eq_ok_iff.mp h
    obtain rfl := Except.ok.inj h
    rcases List.mem_cons.mp hmem with rfl | hothers
    · exact ⟨text, List.mem_cons_self, hfirst⟩
    · obtain ⟨text, htext, hitem⟩ := ih hothers hrest
      exact ⟨text, List.mem_cons_of_mem _ htext, hitem⟩

theorem namesNan_of_float {format : BinaryFormat} {bits : Nat}
    (hregular : format.infinity < format.signBit)
    (h : float format typeName raw = .ok bits) (hnan : format.isNan bits = true) :
    Numeral.namesNan (Text.trim raw.toList) = true :=
  Numeral.namesNan_of_read hregular (Except.mapError_eq_ok_iff.mp h) hnan

/-- A value that differs from itself has a text that names no number. -/
theorem namesNan_of_value {type : ValueType} (h : Decode.value delimiter type raw = .ok value)
    (hnan : value.hasNan = true) : namesNan delimiter type raw = true := by
  induction type generalizing raw value with
  | string =>
    cases Except.ok.inj h
    exact hnan
  | bool | whole | char | duration =>
    obtain ⟨_, -, rfl⟩ := Except.map_eq_ok_iff.mp h
    exact hnan
  | single | double =>
    obtain ⟨bits, hbits, rfl⟩ := Except.map_eq_ok_iff.mp h
    exact namesNan_of_float (by decide) hbits hnan
  | list type ih =>
    obtain ⟨found, hfound, rfl⟩ := Except.map_eq_ok_iff.mp h
    rw [Value.hasNan, Value.anyNan_eq_any, List.any_eq_true] at hnan
    obtain ⟨item, hmem, hitem⟩ := hnan
    obtain ⟨text, htext, hvalue⟩ := exists_of_mem_list hfound hmem
    exact List.any_eq_true.mpr ⟨text, htext, ih hvalue hitem⟩
  | set type ih | bag type ih =>
    obtain ⟨found, hfound, rfl⟩ := Except.map_eq_ok_iff.mp h
    rw [Value.hasNan, Value.anyNan_eq_any, List.any_eq_true] at hnan
    obtain ⟨item, hmem, hitem⟩ := hnan
    obtain ⟨text, htext, hvalue⟩ := exists_of_mem_list hfound (Value.mem_of_mem_ascending hmem)
    exact List.any_eq_true.mpr ⟨text, htext, ih hvalue hitem⟩

end

end Decode

end Overlay

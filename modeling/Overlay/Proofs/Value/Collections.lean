import Mathlib
import Overlay.Proofs.Except
import Overlay.Proofs.Value.Durations
import Overlay.Proofs.Value.Equality
import Overlay.Proofs.Value.Items

/-!
# Lists and sets

Lists and sets are read from the same items, and the first item that cannot be read decides the
error of either (`Decode.list_eq_error_iff`). What a set holds is what the list holds, in order and
without repetition: the values of a type that sets can hold are in a linear order
(`ValueType.ranked`), and putting an item in its place keeps the others in theirs
(`Value.insertItem_strict`). An item holds no delimiter, so that it is a list of one item itself
(`Decode.items_of_mem`).
-/

namespace Overlay

namespace ValueType

/-- Sets can hold the values of the type: they can be compared, and equal ones are the same. -/
def isOrdered : ValueType → Bool
  | string | bool | whole _ | char | duration => true
  | single | double | bag _ => false
  | list item | set item => item.isOrdered

/-- What the items of the items, and so on, are read as in the end. -/
def leaf : ValueType → ValueType
  | list item | set item | bag item => item.leaf
  | type => type

/-- The value is one of the type. -/
def Has : ValueType → Value → Prop
  | string, .text _ | bool, .truth _ | whole _, .whole _ | single, .single _ | double, .double _
  | char, .character _ | duration, .millis _ => True
  | list item, .list items | set item, .set items | bag item, .set items =>
    ∀ value ∈ items, item.Has value
  | _, _ => False

end ValueType

namespace Value

variable {among : Value → Prop} {item value : Value} {items : List Value}

-- ---------------------------------------------------------------------------
-- The order of values
-- ---------------------------------------------------------------------------

/-- Among these values `compare` is a linear order. -/
structure Ranked (among : Value → Prop) : Prop where
  eq_iff : ∀ {a b}, among a → among b → (compare a b = .eq ↔ a = b)
  swap : ∀ {a b}, among a → among b → compare b a = (compare a b).swap
  trans : ∀ {a b c}, among a → among b → among c → compare a b = .lt → compare b c = .lt →
    compare a c = .lt

theorem Ranked.mono {fewer : Value → Prop} (h : Ranked among)
    (hfewer : ∀ value, fewer value → among value) : Ranked fewer where
  eq_iff ha hb := h.eq_iff (hfewer _ ha) (hfewer _ hb)
  swap ha hb := h.swap (hfewer _ ha) (hfewer _ hb)
  trans ha hb hc := h.trans (hfewer _ ha) (hfewer _ hb) (hfewer _ hc)

/-- Values that are compared by a key which tells them apart. -/
theorem ranked_of_key {α β : Type} [Ord β] [Std.TransOrd β] [Std.LawfulEqOrd β] (make : α → Value)
    {key : α → β} (hkey : Function.Injective key)
    (hcompare : ∀ a b, compare (make a) (make b) = Ord.compare (key a) (key b)) :
    Ranked fun value => ∃ a, make a = value where
  eq_iff := by
    rintro _ _ ⟨a, rfl⟩ ⟨b, rfl⟩
    constructor
    · intro h
      rw [hcompare] at h
      exact congrArg make (hkey (Std.LawfulEqCmp.compare_eq_iff_eq.mp h))
    · intro h
      rw [h, hcompare]
      exact Std.LawfulEqCmp.compare_eq_iff_eq.mpr rfl
  swap := by
    rintro _ _ ⟨a, rfl⟩ ⟨b, rfl⟩
    rw [hcompare, hcompare]
    exact Std.OrientedCmp.eq_swap
  trans := by
    rintro _ _ _ ⟨a, rfl⟩ ⟨b, rfl⟩ ⟨c, rfl⟩ hab hbc
    rw [hcompare] at hab hbc ⊢
    exact Std.TransCmp.lt_trans hab hbc

section
variable {as bs cs : List Value}

theorem compareItems_eq_iff (h : Ranked among) (has : ∀ a ∈ as, among a) (hbs : ∀ b ∈ bs, among b) :
    compareItems as bs = .eq ↔ as = bs := by
  induction as generalizing bs with
  | nil => cases bs <;> simp [compareItems]
  | cons a as ih =>
    cases bs with
    | nil => simp [compareItems]
    | cons b bs =>
      obtain ⟨ha, has⟩ := List.forall_mem_cons.mp has
      obtain ⟨hb, hbs⟩ := List.forall_mem_cons.mp hbs
      rw [compareItems, Ordering.then_eq_eq, h.eq_iff ha hb, ih has hbs, List.cons.injEq]

theorem compareItems_swap (h : Ranked among) (has : ∀ a ∈ as, among a) (hbs : ∀ b ∈ bs, among b) :
    compareItems bs as = (compareItems as bs).swap := by
  induction as generalizing bs with
  | nil => cases bs <;> rfl
  | cons a as ih =>
    cases bs with
    | nil => rfl
    | cons b bs =>
      obtain ⟨ha, has⟩ := List.forall_mem_cons.mp has
      obtain ⟨hb, hbs⟩ := List.forall_mem_cons.mp hbs
      rw [compareItems, compareItems, Ordering.swap_then, h.swap ha hb, ih has hbs]

theorem compareItems_trans (h : Ranked among) (has : ∀ a ∈ as, among a) (hbs : ∀ b ∈ bs, among b)
    (hcs : ∀ c ∈ cs, among c) (hab : compareItems as bs = .lt) (hbc : compareItems bs cs = .lt) :
    compareItems as cs = .lt := by
  induction as generalizing bs cs with
  | nil =>
    cases bs with
    | nil => simp [compareItems] at hab
    | cons b bs => cases cs with
      | nil => simp [compareItems] at hbc
      | cons c cs => rfl
  | cons a as ih =>
    cases bs with
    | nil => simp [compareItems] at hab
    | cons b bs =>
      cases cs with
      | nil => simp [compareItems] at hbc
      | cons c cs =>
        obtain ⟨ha, hasRest⟩ := List.forall_mem_cons.mp has
        obtain ⟨hb, hbsRest⟩ := List.forall_mem_cons.mp hbs
        obtain ⟨hc, hcsRest⟩ := List.forall_mem_cons.mp hcs
        rw [compareItems, Ordering.then_eq_lt] at hab hbc ⊢
        rcases hab with hab | ⟨hab, habRest⟩
        · rcases hbc with hbc | ⟨hbc, -⟩
          · exact .inl (h.trans ha hb hc hab hbc)
          · exact .inl ((h.eq_iff hb hc).mp hbc ▸ hab)
        · rw [(h.eq_iff ha hb).mp hab]
          rcases hbc with hbc | ⟨hbc, hbcRest⟩
          · exact .inl hbc
          · exact .inr ⟨hbc, ih hasRest hbsRest hcsRest habRest hbcRest⟩

end

/-- Lists are compared item by item, if that is how `make` lets them be compared. -/
theorem ranked_items (h : Ranked among) {make : List Value → Value}
    (hmake : Function.Injective make)
    (hcompare : ∀ as bs, compare (make as) (make bs) = compareItems as bs) :
    Ranked fun value => ∃ items, make items = value ∧ ∀ item ∈ items, among item where
  eq_iff := by
    rintro _ _ ⟨as, rfl, has⟩ ⟨bs, rfl, hbs⟩
    rw [hcompare, compareItems_eq_iff h has hbs, hmake.eq_iff]
  swap := by
    rintro _ _ ⟨as, rfl, has⟩ ⟨bs, rfl, hbs⟩
    rw [hcompare, hcompare, compareItems_swap h has hbs]
  trans := by
    rintro _ _ _ ⟨as, rfl, has⟩ ⟨bs, rfl, hbs⟩ ⟨cs, rfl, hcs⟩ hab hbc
    rw [hcompare] at hab hbc ⊢
    exact compareItems_trans h has hbs hcs hab hbc

end Value

/-- The values of a type that sets can hold are in a linear order. -/
theorem ValueType.ranked {type : ValueType} (h : type.isOrdered = true) :
    Value.Ranked type.Has := by
  have hid {α : Type} : Function.Injective (id : α → α) := Function.injective_id
  induction type with
  | string =>
    refine (Value.ranked_of_key .text hid fun _ _ => rfl).mono fun value hvalue => ?_
    cases value with
    | text string => exact ⟨string, rfl⟩
    | _ => exact hvalue.elim
  | bool =>
    refine (Value.ranked_of_key .truth hid fun _ _ => rfl).mono fun value hvalue => ?_
    cases value with
    | truth bool => exact ⟨bool, rfl⟩
    | _ => exact hvalue.elim
  | whole type =>
    refine (Value.ranked_of_key .whole hid fun _ _ => rfl).mono fun value hvalue => ?_
    cases value with
    | whole number => exact ⟨number, rfl⟩
    | _ => exact hvalue.elim
  | char =>
    have hkey : Function.Injective Char.toNat := fun _ _ heq => Char.toNat_inj.mp heq
    refine (Value.ranked_of_key .character hkey fun _ _ => rfl).mono
      fun value hvalue => ?_
    cases value with
    | character char => exact ⟨char, rfl⟩
    | _ => exact hvalue.elim
  | duration =>
    refine (Value.ranked_of_key .millis hid fun _ _ => rfl).mono fun value hvalue => ?_
    cases value with
    | millis count => exact ⟨count, rfl⟩
    | _ => exact hvalue.elim
  | list item ih =>
    have hmake : Function.Injective Value.list := fun _ _ heq => Value.list.inj heq
    refine (Value.ranked_items (ih h) hmake fun _ _ => rfl).mono fun value hvalue => ?_
    cases value with
    | list items => exact ⟨items, rfl, hvalue⟩
    | _ => exact hvalue.elim
  | set item ih =>
    have hmake : Function.Injective Value.set := fun _ _ heq => Value.set.inj heq
    refine (Value.ranked_items (ih h) hmake fun _ _ => rfl).mono fun value hvalue => ?_
    cases value with
    | set items => exact ⟨items, rfl, hvalue⟩
    | _ => exact hvalue.elim
  | single | double | bag => exact absurd h (by simp [isOrdered])

namespace Value

variable {among : Value → Prop} {item value : Value} {items : List Value}

-- ---------------------------------------------------------------------------
-- Items in order
-- ---------------------------------------------------------------------------

/-- Ascending, and so without repetition. -/
def Strict (items : List Value) : Prop := items.Pairwise fun a b => compare a b = .lt

theorem Strict.nodup (h : Strict items) (hranked : Ranked among)
    (hitems : ∀ item ∈ items, among item) : items.Nodup := by
  refine List.Pairwise.imp_of_mem (fun {a b} ha _ hlt => ?_) h
  rintro rfl
  have hself := (hranked.eq_iff (hitems a ha) (hitems a ha)).mpr rfl
  exact absurd (hself.symm.trans hlt) (by simp)

theorem mem_insertItem (hranked : Ranked among) (hitem : among item)
    (hitems : ∀ other ∈ items, among other) :
    value ∈ insertItem item items ↔ value = item ∨ value ∈ items := by
  fun_induction insertItem item items with
  | case1 => simp
  | case2 other rest hlt => exact List.mem_cons
  | case3 other rest heq =>
    obtain ⟨hother, -⟩ := List.forall_mem_cons.mp hitems
    rw [(hranked.eq_iff hitem hother).mp heq, List.mem_cons]
    exact ⟨.inr, fun h => h.elim .inl id⟩
  | case4 other rest hgt ih =>
    rw [List.mem_cons, ih (List.forall_mem_cons.mp hitems).2, List.mem_cons]
    exact or_left_comm

theorem insertItem_strict (hranked : Ranked among) (hitem : among item)
    (hitems : ∀ other ∈ items, among other) (h : Strict items) :
    Strict (insertItem item items) := by
  fun_induction insertItem item items with
  | case1 => exact List.pairwise_singleton _ _
  | case2 other rest hlt =>
    obtain ⟨hother, hrest⟩ := List.forall_mem_cons.mp hitems
    refine List.pairwise_cons.mpr ⟨fun later hlater => ?_, h⟩
    rcases List.mem_cons.mp hlater with rfl | hlater
    · exact hlt
    · exact hranked.trans hitem hother (hrest later hlater) hlt (List.rel_of_pairwise_cons h hlater)
  | case3 other rest heq => exact h
  | case4 other rest hgt ih =>
    obtain ⟨hother, hrest⟩ := List.forall_mem_cons.mp hitems
    obtain ⟨hfirst, hstrict⟩ := List.pairwise_cons.mp h
    refine List.pairwise_cons.mpr ⟨fun later hlater => ?_, ih hrest hstrict⟩
    rcases (mem_insertItem hranked hitem hrest).mp hlater with rfl | hlater
    · rw [hranked.swap hitem hother, hgt]
      rfl
    · exact hfirst later hlater

/-- In order the items are the same, each once. -/
theorem ascending_strict (hranked : Ranked among) (hitems : ∀ item ∈ items, among item) :
    Strict (ascending items) ∧ ∀ value, value ∈ ascending items ↔ value ∈ items := by
  suffices hfold : ∀ sorted : List Value, Strict sorted → (∀ item ∈ sorted, among item) →
      Strict (items.foldl (fun sorted item => insertItem item sorted) sorted) ∧
        ∀ value, value ∈ items.foldl (fun sorted item => insertItem item sorted) sorted ↔
          value ∈ sorted ∨ value ∈ items by
    obtain ⟨hstrict, hmem⟩ := hfold [] .nil fun _ h => absurd h List.not_mem_nil
    exact ⟨hstrict, fun value => by rw [ascending, hmem]; simp⟩
  induction items with
  | nil => exact fun sorted hstrict _ => ⟨hstrict, fun value => by simp⟩
  | cons item rest ih =>
    intro sorted hstrict hsorted
    obtain ⟨hitem, hrest⟩ := List.forall_mem_cons.mp hitems
    have hmem (value : Value) : value ∈ insertItem item sorted ↔ value = item ∨ value ∈ sorted :=
      mem_insertItem hranked hitem hsorted
    obtain ⟨hlater, hmemLater⟩ := ih hrest (insertItem item sorted)
      (insertItem_strict hranked hitem hsorted hstrict)
      fun value hvalue => ((hmem value).mp hvalue).elim (· ▸ hitem) (hsorted value)
    refine ⟨hlater, fun value => ?_⟩
    rw [List.foldl_cons, hmemLater, hmem, List.mem_cons]
    exact or_assoc.trans or_left_comm

end Value

namespace Decode

open Text (pieces trim)

section
variable {V : Type} {delimiter raw item : String} {type : ValueType} {error : DecodeError}

/-- What is read as a value of the type is one. -/
theorem has_of_value {value : Value} (h : Decode.value delimiter type raw = .ok value) :
    type.Has value := by
  induction type generalizing raw value with
  | string =>
    obtain rfl := Except.ok.inj h
    trivial
  | bool | whole | single | double | char | duration =>
    obtain ⟨_, -, rfl⟩ := Except.map_eq_ok_iff.mp h
    trivial
  | list item ih =>
    obtain ⟨found, hfound, rfl⟩ := Except.map_eq_ok_iff.mp h
    intro value hvalue
    obtain ⟨text, -, htext⟩ := exists_of_mem_list hfound hvalue
    exact ih htext
  | set item ih | bag item ih =>
    obtain ⟨found, hfound, rfl⟩ := Except.map_eq_ok_iff.mp h
    intro value hvalue
    obtain ⟨text, -, htext⟩ := exists_of_mem_list hfound (Value.mem_of_mem_ascending hvalue)
    exact ih htext

-- ---------------------------------------------------------------------------
-- Items
-- ---------------------------------------------------------------------------

/-- Items lie between occurrences of a separator, even if the delimiter is empty. -/
theorem exists_separator (delimiter : String) : ∃ separator : List Char, separator ≠ [] ∧
    ∀ raw, items delimiter raw =
      (((pieces separator raw.toList).map trim).filter (!·.isEmpty)).map String.ofList := by
  refine ⟨if delimiter.isEmpty then [','] else delimiter.toList, ?_, fun _ => rfl⟩
  split
  · exact List.cons_ne_nil _ _
  · rename_i hnonempty
    simpa using hnonempty

/-- An item holds no delimiter and has no blanks at its ends, so it is its own only item. -/
theorem items_of_mem (h : item ∈ items delimiter raw) : items delimiter item = [item] := by
  obtain ⟨separator, hseparator, hitems⟩ := exists_separator delimiter
  rw [hitems] at h ⊢
  obtain ⟨text, htext, rfl⟩ := List.mem_map.mp h
  obtain ⟨htrimmed, hnonempty⟩ := List.mem_filter.mp htext
  obtain ⟨piece, hpiece, rfl⟩ := List.mem_map.mp htrimmed
  obtain ⟨front, back, -, -, hblanks⟩ := Text.exists_blanks piece
  have hwithout : ¬ separator <:+: trim piece := fun hinside =>
    Text.not_infix_of_mem_pieces hseparator hpiece (hinside.trans ⟨front, back, hblanks.symm⟩)
  rw [String.toList_ofList, Text.pieces_of_not_infix hwithout, List.map_singleton, Text.trim_trim,
    List.filter_singleton, hnonempty, cond_true, List.map_singleton]

/-- A text that is its own only item is read as a list of one. -/
theorem list_of_only {read : Decoder V} (h : items delimiter item = [item]) :
    list read delimiter item = (read item).map fun found => [found] := by
  rw [list, h, List.mapM_cons, List.mapM_nil]
  cases read item <;> rfl

/-- The first item that cannot be read decides the error. -/
theorem list_eq_error_iff {read : Decoder V} :
    list read delimiter raw = .error error ↔ ∃ before item after,
      items delimiter raw = before ++ item :: after ∧
        (∀ text ∈ before, ∃ found, read text = .ok found) ∧ read item = .error error := by
  rw [list]
  induction items delimiter raw with
  | nil => simp [pure, Except.pure]
  | cons text rest ih =>
    rw [List.mapM_cons, Except.bind_eq_error_iff]
    constructor
    · rintro (hfirst | ⟨found, hfound, hrest⟩)
      · exact ⟨[], text, rest, rfl, fun _ h => absurd h List.not_mem_nil, hfirst⟩
      · rcases Except.bind_eq_error_iff.mp hrest with hrest | ⟨_, -, hpure⟩
        · obtain ⟨before, item, after, rfl, hbefore, hitem⟩ := ih.mp hrest
          refine ⟨text :: before, item, after, rfl, ?_, hitem⟩
          exact List.forall_mem_cons.mpr ⟨⟨found, hfound⟩, hbefore⟩
        · exact absurd hpure (by simp [pure, Except.pure])
    · rintro ⟨before, item, after, hsplit, hbefore, hitem⟩
      cases before with
      | nil =>
        obtain ⟨rfl, -⟩ := List.cons.inj hsplit
        exact .inl hitem
      | cons other before =>
        obtain ⟨rfl, rfl⟩ := List.cons.inj hsplit
        obtain ⟨⟨found, hfound⟩, hbefore⟩ := List.forall_mem_cons.mp hbefore
        have hrest := ih.mpr ⟨before, item, after, rfl, hbefore, hitem⟩
        exact .inr ⟨found, hfound, Except.bind_eq_error_iff.mpr (.inl hrest)⟩

/-- An item that cannot be read is named in the error with its own text, as what it should have
been read as in the end. -/
theorem error_of_item (hitem : items delimiter item = [item])
    (h : Decode.value delimiter type item = .error error) :
    error.raw = item ∧ error.typeName = type.leaf.name := by
  induction type with
  | string => exact nomatch h
  | bool =>
    have hread := Except.map_eq_error_iff.mp h
    simp only [truth] at hread
    split at hread
    · exact nomatch hread
    · split at hread
      · exact nomatch hread
      · obtain rfl := Except.error.inj hread
        exact ⟨rfl, rfl⟩
  | whole type =>
    obtain ⟨fault, -, rfl⟩ := Except.mapError_eq_error_iff.mp (Except.map_eq_error_iff.mp h)
    exact ⟨rfl, rfl⟩
  | single | double =>
    obtain ⟨fault, -, rfl⟩ := Except.mapError_eq_error_iff.mp (Except.map_eq_error_iff.mp h)
    exact ⟨rfl, rfl⟩
  | char =>
    have hread := Except.map_eq_error_iff.mp h
    unfold character at hread
    split at hread
    · obtain rfl := Except.error.inj hread
      exact ⟨rfl, rfl⟩
    · exact nomatch hread
    · obtain rfl := Except.error.inj hread
      exact ⟨rfl, rfl⟩
  | duration =>
    obtain ⟨hraw, hname, -⟩ := duration_eq_error_iff.mp (Except.map_eq_error_iff.mp h)
    exact ⟨hraw, hname⟩
  | list type ih | set type ih | bag type ih =>
    have hread : list (Decode.value delimiter type) delimiter item = .error error :=
      Except.map_eq_error_iff.mp h
    rw [list_of_only hitem] at hread
    exact ih (Except.map_eq_error_iff.mp hread)

-- ---------------------------------------------------------------------------
-- Collections
-- ---------------------------------------------------------------------------

theorem value_set (delimiter : String) (type : ValueType) (raw : String) :
    Decode.value delimiter (.set type) raw =
      (list (Decode.value delimiter type) delimiter raw).map fun found =>
        .set (Value.ascending found) := rfl

theorem value_bag (delimiter : String) (type : ValueType) (raw : String) :
    Decode.value delimiter (.bag type) raw =
      (list (Decode.value delimiter type) delimiter raw).map fun found =>
        .set (Value.ascending found) := rfl

/-- A list and the two kinds of sets are read from the same texts, and of another text the first
item that cannot be read is found fault with. What is read for a list is in either set, each value
once, and in one of them in order. If the items are lists themselves then each holds one item. -/
theorem collections_agree (delimiter raw : String) (type : ValueType)
    (htype : type.isOrdered = true) :
    ((∃ found, Decode.value delimiter (.set type) raw = .ok found) ↔
        ∃ found, Decode.value delimiter (.list type) raw = .ok found) ∧
      ((∃ found, Decode.value delimiter (.bag type) raw = .ok found) ↔
        ∃ found, Decode.value delimiter (.list type) raw = .ok found) ∧
      (∀ error,
        (Decode.value delimiter (.set type) raw = .error error ↔
          Decode.value delimiter (.list type) raw = .error error) ∧
        (Decode.value delimiter (.bag type) raw = .error error ↔
          Decode.value delimiter (.list type) raw = .error error) ∧
        (Decode.value delimiter (.list type) raw = .error error ↔
          ∃ before after, items delimiter raw = before ++ error.raw :: after ∧
            (∀ text ∈ before, ∃ found, Decode.value delimiter type text = .ok found) ∧
            Decode.value delimiter type error.raw = .error error ∧
            error.typeName = type.leaf.name)) ∧
      (∀ found, Decode.value delimiter (.list type) raw = .ok found →
        ∃ values sorted kept, found = .list values ∧
          Decode.value delimiter (.set type) raw = .ok (.set sorted) ∧
          Decode.value delimiter (.bag type) raw = .ok (.set kept) ∧
          Value.Strict sorted ∧ sorted.Nodup ∧ kept.Nodup ∧
          ∀ value, (value ∈ sorted ↔ value ∈ values) ∧ (value ∈ kept ↔ value ∈ values)) ∧
      ∀ inner values, Decode.value delimiter (.list (.list inner)) raw = .ok (.list values) →
        ∀ value ∈ values, ∃ item ∈ items delimiter raw, ∃ only,
          Decode.value delimiter inner item = .ok only ∧ value = .list [only] := by
  simp only [value_list, value_set, value_bag, Except.exists_map_eq_ok_iff,
    Except.map_eq_error_iff, iff_self, true_and]
  refine ⟨fun error => ?_, fun found hfound => ?_, fun inner values hfound value hvalue => ?_⟩
  · rw [list_eq_error_iff]
    constructor
    · rintro ⟨before, item, after, hsplit, hbefore, hitem⟩
      have hmem : item ∈ items delimiter raw := by simp [hsplit]
      obtain ⟨hraw, hname⟩ := error_of_item (items_of_mem hmem) hitem
      exact ⟨before, after, hraw ▸ hsplit, hbefore, hraw ▸ hitem, hname⟩
    · rintro ⟨before, after, hsplit, hbefore, hitem, -⟩
      exact ⟨before, error.raw, after, hsplit, hbefore, hitem⟩
  · obtain ⟨values, hvalues, rfl⟩ := Except.map_eq_ok_iff.mp hfound
    have hranked : Value.Ranked type.Has := ValueType.ranked htype
    have hhas : ∀ value ∈ values, type.Has value := fun value hvalue => by
      obtain ⟨text, -, htext⟩ := exists_of_mem_list hvalues hvalue
      exact has_of_value htext
    obtain ⟨hstrict, hmem⟩ := Value.ascending_strict hranked hhas
    have hnodup : (Value.ascending values).Nodup :=
      hstrict.nodup hranked fun value hvalue => hhas value ((hmem value).mp hvalue)
    refine ⟨values, Value.ascending values, Value.ascending values, rfl, ?_, ?_, hstrict, hnodup,
      hnodup, fun value => ⟨hmem value, hmem value⟩⟩
    · rw [hvalues]
      rfl
    · rw [hvalues]
      rfl
  · obtain ⟨found, hread, heq⟩ := Except.map_eq_ok_iff.mp hfound
    obtain rfl := Value.list.inj heq
    obtain ⟨item, hmem, hitem⟩ := exists_of_mem_list hread hvalue
    rw [value_list, list_of_only (items_of_mem hmem)] at hitem
    obtain ⟨inners, hinners, rfl⟩ := Except.map_eq_ok_iff.mp hitem
    obtain ⟨only, honly, rfl⟩ := Except.map_eq_ok_iff.mp hinners
    exact ⟨item, hmem, only, honly, rfl⟩

/-- Three ways to write one number are three items of a list and one of a set. -/
theorem collections_agree_spellings :
    (ValueType.whole .u8).isOrdered = true ∧
      Decode.value "::" (.list (.whole .u8)) "2::01:: +1::1" =
        .ok (.list [.whole 2, .whole 1, .whole 1, .whole 1]) ∧
      ∃ sorted, Decode.value "::" (.set (.whole .u8)) "2::01:: +1::1" = .ok (.set sorted) ∧
        Value.Strict sorted ∧ ∀ value, value ∈ sorted ↔ value = .whole 1 ∨ value = .whole 2 := by
  have hlist : Decode.value "::" (.list (.whole .u8)) "2::01:: +1::1" =
      .ok (.list [.whole 2, .whole 1, .whole 1, .whole 1]) := by cbv
  obtain ⟨-, -, -, hread, -⟩ := collections_agree "::" "2::01:: +1::1" (.whole .u8) rfl
  obtain ⟨values, sorted, kept, heq, hset, -, hstrict, -, -, hmem⟩ := hread _ hlist
  obtain rfl := Value.list.inj heq
  refine ⟨rfl, hlist, sorted, hset, hstrict, fun value => (hmem value).1.trans ?_⟩
  simp [or_comm]

end

end Decode

end Overlay

import Mathlib
import Overlay.Proofs.Text.Pieces
import Overlay.Value.Decode

/-!
# Items of lists

With a delimiter of one character the items of two texts with a delimiter between them are the
items of the first and then those of the second (`Decode.items_append`), and blanks around a text
make no difference to its items (`Decode.kept_padded`). So a list may be taken apart at any
delimiter and put together from any pieces that hold its items (`Decode.lists_split_and_join`).
-/

namespace Overlay.Decode

open Text (Blank Trimmed trim)

-- ---------------------------------------------------------------------------
-- Items of a text of characters
-- ---------------------------------------------------------------------------

/-- The items between occurrences of a character. -/
def kept (d : Char) (text : List Char) : List (List Char) :=
  ((text.splitOn d).map trim).filter (!·.isEmpty)

section
variable {d : Char} {text front back : List Char}

theorem kept_append (d : Char) (text later : List Char) :
    kept d (text ++ d :: later) = kept d text ++ kept d later := by
  rw [kept, List.splitOn_append_cons_self, List.map_append, List.filter_append]
  rfl

theorem kept_of_not_mem (h : d ∉ text) :
    kept d text = if trim text = [] then [] else [trim text] := by
  rw [kept, List.splitOn_eq_singleton h, List.map_singleton, List.filter_singleton]
  cases htrim : trim text with
  | nil => rfl
  | cons c rest => rfl

theorem kept_nil (d : Char) : kept d [] = [] := by
  rw [kept_of_not_mem List.not_mem_nil]
  rfl

theorem kept_cons_blank {c : Char} (hc : Text.isBlank c = true) (text : List Char) :
    kept d (c :: text) = kept d text := by
  by_cases h : c = d
  · subst h
    rw [← List.nil_append (c :: text), kept_append, kept_nil, List.nil_append]
  · obtain ⟨piece, others, hpieces⟩ := List.exists_cons_of_ne_nil (List.splitOn_ne_nil d text)
    have hblank : Blank [c] := fun e he => List.mem_singleton.mp he ▸ hc
    have htrim : trim (c :: piece) = trim piece := Text.trim_blank_append hblank piece
    rw [kept, kept, List.splitOn_cons_eq_if_modifyHead, if_neg (by simpa using h), hpieces,
      List.modifyHead_cons, List.map_cons, List.map_cons, htrim]

theorem kept_blank_append (h : Blank front) (text : List Char) :
    kept d (front ++ text) = kept d text := by
  induction front with
  | nil => rfl
  | cons c rest ih =>
    rw [List.cons_append, kept_cons_blank (h c List.mem_cons_self),
      ih fun c hc => h c (List.mem_cons_of_mem _ hc)]

theorem kept_of_blank (h : Blank text) : kept d text = [] := by
  have hkept := kept_blank_append (d := d) h []
  rwa [List.append_nil, kept_nil] at hkept

/-- The blanks may hold delimiters, the text may not. -/
theorem kept_padded (hfront : Blank front) (hback : Blank back) (htext : d ∉ text) :
    kept d (front ++ text ++ back) = kept d text := by
  rw [List.append_assoc, kept_blank_append hfront, kept_of_not_mem htext]
  by_cases hmem : d ∈ back
  · -- what stands behind the first delimiter is blank and holds no item
    obtain ⟨close, rest, rfl, hclose⟩ := List.eq_append_cons_of_mem hmem
    obtain ⟨hblank, hrest⟩ := Text.blank_append_iff.mp hback
    rw [← List.append_assoc, kept_append, kept_of_not_mem (by simp [htext, hclose]),
      Text.trim_append_blank hblank,
      kept_of_blank fun c hc => hrest c (List.mem_cons_of_mem _ hc), List.append_nil]
  · rw [kept_of_not_mem (by simp [htext, hmem]), Text.trim_append_blank hback]

end

-- ---------------------------------------------------------------------------
-- Items of a string
-- ---------------------------------------------------------------------------

section
variable {d : Char} {V : Type}

theorem items_singleton (d : Char) (raw : String) :
    items (String.singleton d) raw = (kept d raw.toList).map String.ofList := by
  have hnonempty : (String.singleton d).isEmpty = false := by simp
  rw [items, hnonempty, if_neg Bool.false_ne_true, String.toList_singleton, Text.pieces_singleton]
  rfl

theorem items_append (d : Char) (a b : String) :
    items (String.singleton d) (a ++ String.singleton d ++ b) =
      items (String.singleton d) a ++ items (String.singleton d) b := by
  simp only [items_singleton, String.toList_append, String.toList_singleton, List.append_assoc,
    List.singleton_append, kept_append, List.map_append]

theorem items_empty (d : Char) : items (String.singleton d) "" = [] := by
  rw [items_singleton, String.toList_empty, kept_nil, List.map_nil]

theorem items_intercalate (d : Char) (pieces : List String) :
    items (String.singleton d) ((String.singleton d).intercalate pieces) =
      pieces.flatMap (items (String.singleton d)) := by
  induction pieces with
  | nil => exact items_empty d
  | cons piece rest ih =>
    cases rest with
    | nil => simp
    | cons next rest =>
      rw [String.intercalate_cons_cons, items_append, ih, List.flatMap_cons (x := piece)]

theorem list_append (item : Decoder V) (d : Char) (a b : String) :
    list item (String.singleton d) (a ++ String.singleton d ++ b) = (do
      let found ← list item (String.singleton d) a
      let others ← list item (String.singleton d) b
      pure (found ++ others)) := by
  rw [list, items_append, List.mapM_append]
  rfl

/-- An empty delimiter is a comma. -/
theorem value_empty (type : ValueType) : value "" type = value "," type := by
  have hitems : items "" = items "," := rfl
  induction type with
  | list item ih | set item ih | bag item ih =>
    funext raw
    simp only [value, list, ih, hitems]
  | _ => rfl

/-- Pieces of a text that hold these words, each between blanks, and otherwise blanks only. -/
inductive Holds : List String → List String → Prop
  | nil : Holds [] []
  | gap {words pieces : List String} {blanks : String} :
      Blank blanks.toList → Holds words pieces → Holds words (blanks :: pieces)
  | word {words pieces : List String} {front back : String} (word : String) :
      Blank front.toList → Blank back.toList → Holds words pieces →
        Holds (word :: words) ((front ++ word ++ back) :: pieces)

/-- A word that a list can hold: it has no blanks at its ends and no delimiter in it. -/
@[mk_iff]
structure IsWord (d : Char) (word : String) : Prop where
  nonempty : word ≠ ""
  trimmed : Trimmed word.toList
  whole : d ∉ word.toList

instance (d : Char) (word : String) : Decidable (IsWord d word) :=
  decidable_of_iff _ (isWord_iff d word).symm

theorem IsWord.items_padded {word front back : String} (h : IsWord d word)
    (hfront : Blank front.toList) (hback : Blank back.toList) :
    items (String.singleton d) (front ++ word ++ back) = [word] := by
  have htrim : trim word.toList = word.toList := Text.trim_of_trimmed h.trimmed
  have hnonempty : word.toList ≠ [] := fun hnil => h.nonempty (String.toList_eq_nil_iff.mp hnil)
  rw [items_singleton, String.toList_append, String.toList_append,
    kept_padded hfront hback h.whole, kept_of_not_mem h.whole, htrim, if_neg hnonempty,
    List.map_singleton, String.ofList_toList]

theorem Holds.items_eq {words pieces : List String} (h : Holds words pieces)
    (hwords : ∀ word ∈ words, IsWord d word) :
    pieces.flatMap (items (String.singleton d)) = words := by
  induction h with
  | nil => rfl
  | gap hblanks _ ih =>
    rw [List.flatMap_cons, ih hwords, items_singleton, kept_of_blank hblanks]
    rfl
  | word word hfront hback _ ih =>
    rw [List.flatMap_cons, (hwords word List.mem_cons_self).items_padded hfront hback,
      ih fun other hother => hwords other (List.mem_cons_of_mem _ hother)]
    rfl

theorem holds_self (words : List String) : Holds words words := by
  induction words with
  | nil => exact .nil
  | cons word rest ih =>
    have hword : Holds (word :: rest) (("" ++ word ++ "") :: rest) :=
      .word word Text.blank_nil Text.blank_nil ih
    simpa using hword

theorem value_list (delimiter : String) (type : ValueType) (raw : String) :
    value delimiter (.list type) raw =
      (list (value delimiter type) delimiter raw).map .list := rfl

/-- A list of strings is read from pieces that hold them. -/
theorem Holds.value_eq {words pieces : List String} (h : Holds words pieces)
    (hwords : ∀ word ∈ words, IsWord d word) :
    value (String.singleton d) (.list .string) ((String.singleton d).intercalate pieces) =
      .ok (.list (words.map .text)) := by
  have hread (texts : List String) :
      texts.mapM (value (String.singleton d) .string) = .ok (texts.map .text) := by
    induction texts with
    | nil => rfl
    | cons text rest ih =>
      rw [List.mapM_cons, ih]
      rfl
  rw [value_list, list, items_intercalate, h.items_eq hwords, hread]
  rfl

/-- The first of two texts that cannot be read decides the error. -/
theorem value_list_append (d : Char) (type : ValueType) (a b : String) :
    (∀ found, value (String.singleton d) (.list type) (a ++ String.singleton d ++ b) = .ok found ↔
        ∃ first second, value (String.singleton d) (.list type) a = .ok (.list first) ∧
          value (String.singleton d) (.list type) b = .ok (.list second) ∧
          found = .list (first ++ second)) ∧
      ∀ error, value (String.singleton d) (.list type) (a ++ String.singleton d ++ b) =
          .error error ↔
        value (String.singleton d) (.list type) a = .error error ∨
          (∃ first, value (String.singleton d) (.list type) a = .ok first) ∧
            value (String.singleton d) (.list type) b = .error error := by
  simp only [value_list, list_append]
  cases list (value (String.singleton d) type) (String.singleton d) a with
  | error error => simp [bind, Except.bind, Except.map]
  | ok first =>
    cases list (value (String.singleton d) type) (String.singleton d) b with
    | error error => simp [bind, Except.bind, Except.map]
    | ok second => simp [bind, Except.bind, Except.map, pure, Except.pure, eq_comm]

/-- With a delimiter of one character, a list may be taken apart at any delimiter: its items are
those before and then those after, and it is read when both parts are. And it may be put together:
words are read back from a text that joins them, with blanks and pieces without a word between
them or not. -/
theorem lists_split_and_join (d : Char) :
    (∀ type, value "" type = value "," type) ∧
      (∀ a b, items (String.singleton d) (a ++ String.singleton d ++ b) =
        items (String.singleton d) a ++ items (String.singleton d) b) ∧
      (∀ type a b,
        (∀ found,
          value (String.singleton d) (.list type) (a ++ String.singleton d ++ b) = .ok found ↔
            ∃ first second, value (String.singleton d) (.list type) a = .ok (.list first) ∧
              value (String.singleton d) (.list type) b = .ok (.list second) ∧
              found = .list (first ++ second)) ∧
        ∀ error,
          value (String.singleton d) (.list type) (a ++ String.singleton d ++ b) = .error error ↔
            value (String.singleton d) (.list type) a = .error error ∨
              (∃ first, value (String.singleton d) (.list type) a = .ok first) ∧
                value (String.singleton d) (.list type) b = .error error) ∧
      ∀ words : List String, (∀ word ∈ words, IsWord d word) →
        value (String.singleton d) (.list .string) ((String.singleton d).intercalate words) =
            .ok (.list (words.map .text)) ∧
          ∀ pieces, Holds words pieces →
            value (String.singleton d) (.list .string)
                ((String.singleton d).intercalate pieces) =
              .ok (.list (words.map .text)) := by
  refine ⟨value_empty, items_append d, value_list_append d, fun words hwords => ?_⟩
  exact ⟨(holds_self words).value_eq hwords, fun pieces hholds => hholds.value_eq hwords⟩

/-- The delimiter is a blank itself, and other blanks stand beside the words. -/
theorem lists_split_and_join_blanks :
    (∀ word ∈ ["a,b", "\u00e9"], IsWord ' ' word) ∧
      Holds ["a,b", "\u00e9"] ["", "\t" ++ "a,b" ++ "\n", "", "\u2003" ++ "\u00e9" ++ "", ""] ∧
      value " " (.list .string) " \ta,b\n  \u2003\u00e9 " =
        .ok (.list [.text "a,b", .text "\u00e9"]) := by
  have hwords : ∀ word ∈ ["a,b", "\u00e9"], IsWord ' ' word := by decide
  have hholds : Holds ["a,b", "\u00e9"]
      ["", "\t" ++ "a,b" ++ "\n", "", "\u2003" ++ "\u00e9" ++ "", ""] :=
    .gap (by decide) (.word "a,b" (by decide) (by decide) (.gap (by decide)
      (.word "\u00e9" (by decide) (by decide) (.gap (by decide) .nil))))
  have hdelimiter : " " = String.singleton ' ' := by cbv
  have htext : " \ta,b\n  \u2003\u00e9 " = (String.singleton ' ').intercalate
      ["", "\t" ++ "a,b" ++ "\n", "", "\u2003" ++ "\u00e9" ++ "", ""] := by cbv
  have hread := ((lists_split_and_join ' ').2.2.2 _ hwords).2 _ hholds
  refine ⟨hwords, hholds, ?_⟩
  rw [htext, hdelimiter, hread]
  rfl

end

end Overlay.Decode

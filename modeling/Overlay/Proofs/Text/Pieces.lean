import Mathlib
import Overlay.Text.Blank
import Overlay.Text.Pieces

/-!
# Blanks and pieces

A text is its trimmed part between two runs of blanks (`exists_blanks`), and that is the only
trimmed part it has between blanks (`trim_between`), so blanks around a text are trimmed away with
its own (`trim_padded`). The pieces between occurrences of one character are those of
`List.splitOn` (`pieces_singleton`); of any other separator none of them holds an occurrence
(`not_infix_of_mem_pieces`).
-/

namespace Overlay.Text

/-- Blanks and nothing else. -/
def Blank (text : List Char) : Prop := ∀ c ∈ text, isBlank c = true

instance (text : List Char) : Decidable (Blank text) := List.decidableBAll _ _

variable {front core back text : List Char} {c d : Char}

theorem blank_nil : Blank [] := fun _ h => absurd h List.not_mem_nil

theorem blank_append_iff : Blank (front ++ back) ↔ Blank front ∧ Blank back :=
  List.forall_mem_append

theorem Blank.not_mem (h : Blank text) (hc : isBlank c = false) : c ∉ text := by
  intro hmem
  exact absurd (h c hmem) (by simp [hc])

-- ---------------------------------------------------------------------------
-- Trimming
-- ---------------------------------------------------------------------------

theorem trimFront_append (h : Blank front) (text : List Char) :
    trimFront (front ++ text) = trimFront text :=
  List.dropWhile_append_of_pos h

theorem trimBack_append (h : Blank back) (text : List Char) :
    trimBack (text ++ back) = trimBack text := by
  have hreverse : ∀ c ∈ back.reverse, isBlank c = true := fun c hc => h c (List.mem_reverse.mp hc)
  rw [trimBack, trimBack, List.reverse_append, List.dropWhile_append_of_pos hreverse]

theorem trim_between (hfront : Blank front) (hcore : Trimmed core) (hback : Blank back) :
    trim (front ++ core ++ back) = core := by
  rw [trim, List.append_assoc, trimFront_append hfront]
  cases core with
  | nil =>
    have hnone : trimFront back = [] := List.dropWhile_eq_nil_iff.mpr hback
    rw [List.nil_append, hnone]
    rfl
  | cons c rest =>
    have hfirst : trimFront (c :: rest ++ back) = c :: rest ++ back :=
      List.dropWhile_cons_of_neg (by simp [hcore.1 c rfl])
    rw [hfirst, trimBack_append hback, trimBack_of_trimmed hcore]

theorem exists_blanks (text : List Char) :
    ∃ front back, Blank front ∧ Blank back ∧ text = front ++ trim text ++ back := by
  refine ⟨text.takeWhile isBlank, ((trimFront text).reverse.takeWhile isBlank).reverse,
    fun c => List.mem_takeWhile_imp, fun c hc => ?_, ?_⟩
  · exact List.mem_takeWhile_imp (List.mem_reverse.mp hc)
  · rw [trim, trimBack, List.append_assoc, ← List.reverse_append, List.takeWhile_append_dropWhile,
      List.reverse_reverse]
    exact List.takeWhile_append_dropWhile.symm

theorem trim_padded (hfront : Blank front) (hback : Blank back) (text : List Char) :
    trim (front ++ text ++ back) = trim text := by
  obtain ⟨before, after, hbefore, hafter, htext⟩ := exists_blanks text
  have hpadded : front ++ text ++ back = (front ++ before) ++ trim text ++ (after ++ back) := by
    conv_lhs => rw [htext]
    simp only [List.append_assoc]
  rw [hpadded]
  exact trim_between (blank_append_iff.mpr ⟨hfront, hbefore⟩) (trimmed_trim text)
    (blank_append_iff.mpr ⟨hafter, hback⟩)

theorem trim_blank_append (h : Blank front) (text : List Char) :
    trim (front ++ text) = trim text := by
  simpa using trim_padded h blank_nil text

theorem trim_append_blank (h : Blank back) (text : List Char) :
    trim (text ++ back) = trim text := by
  simpa using trim_padded blank_nil h text

theorem trimmed_iff : Trimmed text ↔ trim text = text :=
  ⟨trim_of_trimmed, fun h => h ▸ trimmed_trim text⟩

instance (text : List Char) : Decidable (Trimmed text) := decidable_of_iff _ trimmed_iff.symm

theorem trim_eq_nil_iff : trim text = [] ↔ Blank text := by
  constructor
  · intro h
    obtain ⟨front, back, hfront, hback, htext⟩ := exists_blanks text
    rw [htext, h, List.append_nil]
    exact blank_append_iff.mpr ⟨hfront, hback⟩
  · intro h
    have htrim : trim (text ++ [] ++ []) = [] := trim_between h ⟨by simp, by simp⟩ blank_nil
    simpa using htrim

theorem mem_trim_iff (hc : isBlank c = false) : c ∈ trim text ↔ c ∈ text := by
  obtain ⟨front, back, hfront, hback, htext⟩ := exists_blanks text
  conv_rhs => rw [htext]
  simp [hfront.not_mem hc, hback.not_mem hc]

-- ---------------------------------------------------------------------------
-- Pieces between occurrences of a character
-- ---------------------------------------------------------------------------

theorem pieces_singleton (c : Char) (text : List Char) : pieces [c] text = text.splitOn c := by
  unfold pieces
  induction text with
  | nil => rfl
  | cons d rest ih =>
    rw [List.splitOn_cons_eq_if_modifyHead]
    by_cases h : d = c
    · subst h
      simp [piecesAfter, ih]
    · obtain ⟨piece, others, hpieces⟩ :=
        List.exists_cons_of_ne_nil (List.splitOn_ne_nil c rest)
      simp [piecesAfter, ih, hpieces, h, Ne.symm h]

-- ---------------------------------------------------------------------------
-- Pieces between occurrences of a separator
-- ---------------------------------------------------------------------------

section
variable {separator piece : List Char}

theorem piecesAfter_ne_nil (separator : List Char) (skip : Nat) (text : List Char) :
    piecesAfter separator skip text ≠ [] := by
  fun_induction piecesAfter separator skip text with
  | case2 skip c rest ih => exact ih
  | _ => exact List.cons_ne_nil _ _

/-- Up to the first occurrence of the separator, the pieces are the text itself. -/
theorem isPrefix_of_pieces {pieces : List (List Char)}
    (h : piecesAfter separator 0 text = piece :: pieces) : piece <+: text := by
  induction text generalizing piece pieces with
  | nil =>
    obtain ⟨rfl, -⟩ := List.cons.inj h
    exact List.nil_prefix
  | cons c rest ih =>
    rw [piecesAfter] at h
    split at h
    · obtain ⟨rfl, -⟩ := List.cons.inj h
      exact List.nil_prefix
    · split at h
      · rename_i first _ hrest
        obtain ⟨rfl, -⟩ := List.cons.inj h
        exact List.cons_prefix_cons.mpr ⟨rfl, ih hrest⟩
      · obtain ⟨rfl, -⟩ := List.cons.inj h
        exact List.cons_prefix_cons.mpr ⟨rfl, List.nil_prefix⟩

theorem not_infix_of_mem_piecesAfter (hseparator : separator ≠ []) {skip : Nat}
    (hpiece : piece ∈ piecesAfter separator skip text) : ¬ separator <:+: piece := by
  have hnil : ¬ separator <:+: [] := fun h => hseparator (List.infix_nil.mp h)
  fun_induction piecesAfter separator skip text generalizing piece with
  | case1 => exact List.mem_singleton.mp hpiece ▸ hnil
  | case2 skip c rest ih => exact ih hpiece
  | case3 c rest hstarts ih =>
    rcases List.mem_cons.mp hpiece with rfl | hlater
    · exact hnil
    · exact ih hlater
  | case4 c rest hstarts first pieces hrest ih =>
    rcases List.mem_cons.mp hpiece with rfl | hlater
    · intro hinfix
      rcases List.infix_cons_iff.mp hinfix with hfront | hinside
      · -- a separator in front of the piece would have been found in front of the text
        have hwhole : c :: first <+: c :: rest :=
          List.cons_prefix_cons.mpr ⟨rfl, isPrefix_of_pieces hrest⟩
        exact hstarts (List.isPrefixOf_iff_prefix.mpr (hfront.trans hwhole))
      · exact ih (hrest ▸ List.mem_cons_self) hinside
    · exact ih (hrest ▸ List.mem_cons_of_mem _ hlater)
  | case5 c rest hstarts hrest ih => exact absurd hrest (piecesAfter_ne_nil _ _ _)

/-- No piece holds the separator. -/
theorem not_infix_of_mem_pieces (hseparator : separator ≠ [])
    (hpiece : piece ∈ pieces separator text) : ¬ separator <:+: piece :=
  not_infix_of_mem_piecesAfter hseparator hpiece

/-- A text without the separator is one piece. -/
theorem pieces_of_not_infix (h : ¬ separator <:+: text) : pieces separator text = [text] := by
  unfold pieces
  induction text with
  | nil => rfl
  | cons c rest ih =>
    have hrest := ih fun hinside => h (List.infix_cons hinside)
    have hstarts : separator.isPrefixOf (c :: rest) = false := by
      rw [Bool.eq_false_iff]
      exact fun hfront => h (List.isPrefixOf_iff_prefix.mp hfront).isInfix
    rw [piecesAfter, if_neg (by simp [hstarts]), hrest]

end

end Overlay.Text

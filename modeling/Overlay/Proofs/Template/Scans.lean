import Overlay.Proofs.Template.Balance

/-!
# The scans of a placeholder

The brace that closes a placeholder and the colon in front of its default are looked for in the
same way: the first of its kind that is met while nothing is open. `seek` is that search for any
mark, and it gives up where a closing brace would take its count below zero. The search for the
closing brace never gives up, since that brace is its mark (`seek_closing`), and the search for
a default does not in a balanced text (`Balanced.seek_eq`). What either finds can be said
without counting on the way: the first mark with a balanced text in front of it
(`splitClosing_eq_some_iff`, `Balanced.splitDefault_eq_some_iff`).
-/

namespace Overlay.Template

/-- The text up to the first `mark` that is met while nothing is open, and the text behind that
mark. There is no answer where a closing brace closes nothing. -/
def seek (mark : Char) : Nat → List Char → Option (List Char × Option (List Char))
  | _, [] => some ([], none)
  | depth, '$' :: '{' :: rest =>
    (seek mark (depth + 1) rest).map fun (front, back) => ('$' :: '{' :: front, back)
  | depth, c :: rest =>
    if c = mark ∧ depth = 0 then some ([], some rest)
    else if c = '}' then
      match depth with
      | 0 => none
      | depth + 1 => (seek mark depth rest).map fun (front, back) => ('}' :: front, back)
    else (seek mark depth rest).map fun (front, back) => (c :: front, back)

/-- The first `mark` of the text that stands in such a place is the one between these parts. -/
structure IsFirst (mark : Char) (Stands : List Char → List Char → Prop)
    (text front back : List Char) : Prop where
  eq : text = front ++ mark :: back
  stands : Stands front back
  first : ∀ front' back', text = front' ++ mark :: back' → Stands front' back' →
    front.length ≤ front'.length

/-- What has been read without stopping: at each mark something was open. -/
structure Passed (mark : Char) (depth : Nat) (text : List Char) : Prop where
  sustains : Sustains depth text
  held : ∀ front back, text = front ++ mark :: back → closings front < depth + openings front

section
variable {mark c : Char} {depth : Nat} {text front back rest body after : List Char}
  {found : Option (List Char)}

-- ---------------------------------------------------------------------------
-- The search and the scans
-- ---------------------------------------------------------------------------

theorem seek_char (hclosing : c ≠ '}') (halone : Alone c rest) (hmark : ¬ (c = mark ∧ depth = 0)) :
    seek mark depth (c :: rest) =
      (seek mark depth rest).map fun (front, back) => (c :: front, back) := by
  cases depth with
  | zero =>
    rw [seek, if_neg hmark, if_neg hclosing]
    exact halone
  | succ depth =>
    rw [seek, if_neg hmark, if_neg hclosing]
    exact halone

/-- The search for a closing brace always has an answer. -/
theorem seek_closing (depth : Nat) (text : List Char) :
    seek '}' depth text = some (match splitClosing depth text with
      | some (body, after) => (body, some after)
      | none => (text, none)) := by
  fun_induction splitClosing depth text with
  | case1 => simp [seek]
  | case2 depth rest ih =>
    rw [seek, ih]
    cases splitClosing (depth + 1) rest <;> rfl
  | case3 rest => rfl
  | case4 depth rest ih =>
    rw [seek, if_neg (by simp), if_pos rfl, ih]
    · cases splitClosing depth rest <;> rfl
    · simp
  | case5 depth c rest hopening hclosing hclosing' ih =>
    have hc : c ≠ '}' := by
      rintro rfl
      cases depth with
      | zero => exact hclosing rfl rfl
      | succ depth => exact hclosing' depth rfl rfl
    rw [seek_char hc hopening fun hmark => hc hmark.1, ih]
    cases splitClosing depth rest <;> rfl

/-- Where the search for a colon has an answer, the scan for a default gives the same. -/
theorem splitDefault_of_seek (h : seek ':' depth text = some (front, found)) :
    splitDefault depth text = (front, found) := by
  fun_induction seek ':' depth text generalizing front found with
  | case1 =>
    cases h
    rw [splitDefault]
  | case2 depth rest ih =>
    obtain ⟨⟨inner, found⟩, hrest, hsplit⟩ := Option.map_eq_some_iff.mp h
    cases hsplit
    rw [splitDefault, ih hrest]
  | case3 depth c rest hopening hmark =>
    obtain ⟨rfl, rfl⟩ := hmark
    cases h
    rfl
  | case4 => exact absurd h (by simp)
  | case5 rest depth hopening hmark ih =>
    obtain ⟨⟨inner, found⟩, hrest, hsplit⟩ := Option.map_eq_some_iff.mp h
    cases hsplit
    rw [splitDefault, Nat.succ_sub_one, ih hrest]
  | case6 depth c rest hopening hmark hclosing ih =>
    obtain ⟨⟨inner, found⟩, hrest, hsplit⟩ := Option.map_eq_some_iff.mp h
    cases hsplit
    rw [splitDefault, ih hrest]
    · exact hopening
    · exact hclosing
    · exact fun hdepth hc => hmark ⟨hc, hdepth⟩

/-- The search has an answer in a text that closes no more than has been opened. -/
theorem isSome_seek (h : Sustains depth text) : (seek mark depth text).isSome := by
  fun_induction seek mark depth text with
  | case1 => rfl
  | case2 depth rest ih =>
    rw [Option.isSome_map]
    exact ih (sustains_opening.mp h)
  | case3 => rfl
  | case4 => exact absurd h not_sustains_closing
  | case5 rest depth hopening hmark ih =>
    rw [Option.isSome_map]
    exact ih (sustains_closing.mp h)
  | case6 depth c rest hopening hmark hclosing ih =>
    rw [Option.isSome_map]
    exact ih ((sustains_char hclosing hopening).mp h)

theorem isSome_seek_closing : (seek '}' depth text).isSome := by
  rw [seek_closing]
  rfl

-- ---------------------------------------------------------------------------
-- What has been read
-- ---------------------------------------------------------------------------

theorem passed_nil : Passed mark depth [] where
  sustains := sustains_nil
  held := by simp

theorem Passed.opening (h : Passed mark (depth + 1) text) (hdollar : mark ≠ '$')
    (hbrace : mark ≠ '{') : Passed mark depth ('$' :: '{' :: text) where
  sustains := sustains_opening.mpr h.sustains
  held front back heq := by
    obtain _ | ⟨x, _ | ⟨y, front⟩⟩ := front
    · exact absurd (List.cons.inj heq).1.symm hdollar
    · exact absurd (List.cons.inj (List.cons.inj heq).2).1.symm hbrace
    · obtain ⟨rfl, htail⟩ := List.cons.inj heq
      obtain ⟨rfl, htext⟩ := List.cons.inj htail
      have hlt := h.held front back htext
      simp only [closings_opening, openings_opening]
      omega

theorem Passed.closing (h : Passed mark depth text) : Passed mark (depth + 1) ('}' :: text) where
  sustains := sustains_closing.mpr h.sustains
  held front back heq := by
    obtain _ | ⟨x, front⟩ := front
    · simp
    · obtain ⟨rfl, htext⟩ := List.cons.inj heq
      have hlt := h.held front back htext
      simp only [closings_closing, openings_closing]
      omega

theorem Passed.char (h : Passed mark depth text) (hclosing : c ≠ '}') (halone : Alone c text)
    (hmark : c = mark → 0 < depth) : Passed mark depth (c :: text) where
  sustains := (sustains_char hclosing halone).mpr h.sustains
  held front back heq := by
    obtain _ | ⟨x, front⟩ := front
    · simpa using hmark (List.cons.inj heq).1
    · obtain ⟨rfl, rfl⟩ := List.cons.inj heq
      rw [closings_char hclosing, openings_char halone.of_append]
      exact h.held front back rfl

/-- The search loses nothing, and where it stops nothing is open. -/
theorem passed_of_seek (hdollar : mark ≠ '$') (hbrace : mark ≠ '{')
    (h : seek mark depth text = some (front, found)) :
    Passed mark depth front ∧ text = front ++ (found.map (mark :: ·)).getD [] ∧
      (found.isSome → closings front = depth + openings front) := by
  fun_induction seek mark depth text generalizing front found with
  | case1 =>
    cases h
    exact ⟨passed_nil, by simp⟩
  | case2 depth rest ih =>
    obtain ⟨⟨inner, found⟩, hrest, hsplit⟩ := Option.map_eq_some_iff.mp h
    cases hsplit
    obtain ⟨hpassed, rfl, hclosed⟩ := ih hrest
    refine ⟨hpassed.opening hdollar hbrace, rfl, fun hfound => ?_⟩
    have heq := hclosed hfound
    simp only [closings_opening, openings_opening]
    omega
  | case3 depth c rest hopening hmark =>
    obtain ⟨rfl, rfl⟩ := hmark
    cases h
    exact ⟨passed_nil, by simp⟩
  | case4 => exact absurd h (by simp)
  | case5 rest depth hopening hmark ih =>
    obtain ⟨⟨inner, found⟩, hrest, hsplit⟩ := Option.map_eq_some_iff.mp h
    cases hsplit
    obtain ⟨hpassed, rfl, hclosed⟩ := ih hrest
    refine ⟨hpassed.closing, rfl, fun hfound => ?_⟩
    have heq := hclosed hfound
    simp only [closings_closing, openings_closing]
    omega
  | case6 depth c rest hopening hmark hclosing ih =>
    obtain ⟨⟨inner, found⟩, hrest, hsplit⟩ := Option.map_eq_some_iff.mp h
    cases hsplit
    obtain ⟨hpassed, rfl, hclosed⟩ := ih hrest
    have halone : Alone c inner := Alone.of_append hopening
    have hdepth : c = mark → 0 < depth := by
      intro hc
      exact Nat.pos_of_ne_zero fun hzero => hmark ⟨hc, hzero⟩
    refine ⟨hpassed.char hclosing halone hdepth, rfl, fun hfound => ?_⟩
    rw [closings_char hclosing, openings_char halone]
    exact hclosed hfound

-- ---------------------------------------------------------------------------
-- What is found
-- ---------------------------------------------------------------------------

theorem IsFirst.unique {Stands : List Char → List Char → Prop} {front' back' : List Char}
    (h : IsFirst mark Stands text front back) (h' : IsFirst mark Stands text front' back') :
    front = front' ∧ back = back' := by
  have hle := h.first front' back' h'.eq h'.stands
  have hge := h'.first front back h.eq h.stands
  obtain ⟨hfront, hback⟩ := List.append_inj (h.eq.symm.trans h'.eq) (Nat.le_antisymm hle hge)
  exact ⟨hfront, (List.cons.inj hback).2⟩

theorem isFirst_congr {Stands Stands' : List Char → List Char → Prop}
    (h : ∀ front back, text = front ++ mark :: back → (Stands front back ↔ Stands' front back)) :
    IsFirst mark Stands text front back ↔ IsFirst mark Stands' text front back := by
  constructor
  · rintro ⟨htext, hstands, hfirst⟩
    refine ⟨htext, (h front back htext).mp hstands, fun front' back' htext' hstands' => ?_⟩
    exact hfirst front' back' htext' ((h front' back' htext').mpr hstands')
  · rintro ⟨htext, hstands, hfirst⟩
    refine ⟨htext, (h front back htext).mpr hstands, fun front' back' htext' hstands' => ?_⟩
    exact hfirst front' back' htext' ((h front' back' htext').mp hstands')

theorem Passed.not_balanced (h : Passed mark 0 text) (htext : text = front ++ mark :: back) :
    ¬ Balanced front := by
  intro hbalanced
  have hlt := h.held front back htext
  have hclosed := hbalanced.closed
  omega

theorem isFirst_of_seek (hdollar : mark ≠ '$') (hbrace : mark ≠ '{')
    (h : seek mark 0 text = some (front, some back)) :
    IsFirst mark (fun front _ => Balanced front) text front back := by
  obtain ⟨hpassed, htext, hclosed⟩ := passed_of_seek hdollar hbrace h
  have heq := hclosed rfl
  refine ⟨htext, balanced_iff.mpr ⟨hpassed.sustains, by omega⟩, ?_⟩
  intro front' back' htext' hbalanced
  apply Nat.le_of_not_lt
  intro hlt
  -- a mark further to the front has been passed
  have hmark : front' ++ [mark] <+: text := ⟨back', by simp [htext']⟩
  have hlength : (front' ++ [mark]).length ≤ front.length := by
    rw [List.length_append]
    exact hlt
  obtain ⟨rest, rfl⟩ := List.prefix_of_prefix_length_le hmark ⟨mark :: back, htext.symm⟩ hlength
  exact hpassed.not_balanced (List.append_assoc front' [mark] rest) hbalanced

theorem seek_eq_some_iff (hdollar : mark ≠ '$') (hbrace : mark ≠ '{')
    (hseek : (seek mark 0 text).isSome) :
    seek mark 0 text = some (front, some back) ↔
      IsFirst mark (fun front _ => Balanced front) text front back := by
  refine ⟨isFirst_of_seek hdollar hbrace, fun hfirst => ?_⟩
  obtain ⟨⟨front', found⟩, hfound⟩ := Option.isSome_iff_exists.mp hseek
  cases found with
  | none =>
    obtain ⟨hpassed, htext, -⟩ := passed_of_seek hdollar hbrace hfound
    have hread : front' = front ++ mark :: back := by
      rw [← hfirst.eq, htext]
      exact (List.append_nil front').symm
    exact absurd hfirst.stands (hpassed.not_balanced hread)
  | some back' =>
    obtain ⟨rfl, rfl⟩ := hfirst.unique (isFirst_of_seek hdollar hbrace hfound)
    exact hfound

theorem seek_eq_none_iff (hdollar : mark ≠ '$') (hbrace : mark ≠ '{')
    (hseek : (seek mark 0 text).isSome) :
    seek mark 0 text = some (text, none) ↔
      ∀ front back, text = front ++ mark :: back → ¬ Balanced front := by
  constructor
  · intro h front back htext
    exact (passed_of_seek hdollar hbrace h).1.not_balanced htext
  · intro hnone
    obtain ⟨⟨front, found⟩, hfound⟩ := Option.isSome_iff_exists.mp hseek
    cases found with
    | none =>
      obtain ⟨-, htext, -⟩ := passed_of_seek hdollar hbrace hfound
      rw [hfound, htext]
      simp
    | some back =>
      have hfirst := isFirst_of_seek hdollar hbrace hfound
      exact absurd hfirst.stands (hnone front back hfirst.eq)

theorem splitClosing_eq_some_iff : splitClosing 0 text = some (body, after) ↔
    IsFirst '}' (fun front _ => Balanced front) text body after := by
  rw [← seek_eq_some_iff (by decide) (by decide) isSome_seek_closing, seek_closing]
  cases splitClosing 0 text <;> simp [Prod.ext_iff]

theorem splitClosing_eq_none_iff : splitClosing 0 text = none ↔
    ∀ front back, text = front ++ '}' :: back → ¬ Balanced front := by
  rw [← seek_eq_none_iff (by decide) (by decide) isSome_seek_closing, seek_closing]
  cases splitClosing 0 text <;> simp

/-- A text in which no closing brace is found never closes more than it opens. -/
theorem sustains_of_splitClosing (h : splitClosing 0 text = none) : Sustains 0 text := by
  have hseek : seek '}' 0 text = some (text, none) := by rw [seek_closing, h]
  exact (passed_of_seek (by decide) (by decide) hseek).1.sustains

theorem Balanced.seek_eq (h : Balanced text) : seek ':' 0 text = some (splitDefault 0 text) := by
  have hseek : (seek ':' 0 text).isSome := isSome_seek h.sustains
  obtain ⟨found, hfound⟩ := Option.isSome_iff_exists.mp hseek
  rw [splitDefault_of_seek hfound, hfound]

theorem Balanced.splitDefault_eq_some_iff (h : Balanced text) :
    splitDefault 0 text = (front, some back) ↔
      IsFirst ':' (fun front _ => Balanced front) text front back := by
  rw [← seek_eq_some_iff (by decide) (by decide) (isSome_seek h.sustains), h.seek_eq,
    Option.some_inj]

theorem Balanced.splitDefault_eq_none_iff (h : Balanced text) :
    splitDefault 0 text = (text, none) ↔
      ∀ front back, text = front ++ ':' :: back → ¬ Balanced front := by
  rw [← seek_eq_none_iff (by decide) (by decide) (isSome_seek h.sustains), h.seek_eq,
    Option.some_inj]

end

end Overlay.Template

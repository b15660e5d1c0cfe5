import Overlay.Template

/-!
# Balanced texts

Whether the braces of a text belong together is said by counting: no beginning of the text has
more closing braces than openings, and the whole text has as many of one as of the other
(`Balanced`). The count runs on through what follows a text, so most of it is said for a text
with openings in front of it (`Sustains`). An opening takes two characters, and one of them at
the end of a text says nothing yet; hence the conditions on the character behind it.
-/

namespace Overlay.Template

def openings : List Char → Nat
  | [] => 0
  | '$' :: '{' :: rest => openings rest + 1
  | _ :: rest => openings rest

def closings (text : List Char) : Nat := text.count '}'

/-- Every closing brace closes an opening before it, and every opening has been closed. -/
structure Balanced (text : List Char) : Prop where
  closes : ∀ front, front <+: text → closings front ≤ openings front
  closed : openings text = closings text

/-- With `depth` openings in front of it the text closes no more than have been opened. -/
def Sustains (depth : Nat) (text : List Char) : Prop :=
  ∀ front, front <+: text → closings front ≤ depth + openings front

/-- The character does not make an opening with the text behind it. -/
def Alone (c : Char) (rest : List Char) : Prop := ∀ rest', c = '$' → rest ≠ '{' :: rest'

section
variable {depth : Nat} {c : Char} {text front back rest body after : List Char}

theorem alone_of_ne (h : c ≠ '$') : Alone c rest := by
  intro rest' hc
  exact absurd hc h

theorem Alone.of_append (h : Alone c (front ++ back)) : Alone c front := by
  rintro front' hc rfl
  exact h (front' ++ back) hc rfl

theorem alone_or_opening (c : Char) (rest : List Char) :
    Alone c rest ∨ ∃ rest', c = '$' ∧ rest = '{' :: rest' := by
  by_cases h : ∃ rest', c = '$' ∧ rest = '{' :: rest'
  · exact .inr h
  · exact .inl fun rest' hc hrest => h ⟨rest', hc, hrest⟩

-- ---------------------------------------------------------------------------
-- Counting
-- ---------------------------------------------------------------------------

@[simp] theorem openings_nil : openings [] = 0 := rfl

@[simp] theorem openings_opening : openings ('$' :: '{' :: rest) = openings rest + 1 := rfl

theorem openings_char (h : Alone c rest) : openings (c :: rest) = openings rest := by
  rw [openings]
  exact h

@[simp] theorem openings_closing : openings ('}' :: rest) = openings rest :=
  openings_char (alone_of_ne (by decide))

@[simp] theorem closings_nil : closings [] = 0 := rfl

@[simp] theorem closings_opening : closings ('$' :: '{' :: rest) = closings rest := rfl

theorem closings_char (h : c ≠ '}') : closings (c :: rest) = closings rest :=
  List.count_cons_of_ne h

@[simp] theorem closings_closing : closings ('}' :: rest) = closings rest + 1 :=
  List.count_cons_self

@[simp] theorem closings_append : closings (front ++ back) = closings front + closings back :=
  List.count_append

theorem openings_le_cons (c : Char) (rest : List Char) : openings rest ≤ openings (c :: rest) := by
  obtain halone | ⟨rest, rfl, rfl⟩ := alone_or_opening c rest
  · exact Nat.le_of_eq (openings_char halone).symm
  · rw [openings_opening, openings_char (alone_of_ne (by decide))]
    exact Nat.le_succ _

/-- An opening may be cut in two. -/
theorem openings_append_le (front back : List Char) :
    openings front + openings back ≤ openings (front ++ back) := by
  induction front using openings.induct with
  | case1 => simp
  | case2 rest ih =>
    simp only [openings_opening, List.cons_append]
    omega
  | case3 c rest hopening ih =>
    rw [openings_char hopening, List.cons_append]
    exact Nat.le_trans ih (openings_le_cons c _)

theorem openings_append (hback : ∀ back', back ≠ '{' :: back') :
    openings (front ++ back) = openings front + openings back := by
  induction front using openings.induct with
  | case1 => simp
  | case2 rest ih =>
    simp only [openings_opening, List.cons_append]
    omega
  | case3 c rest hopening ih =>
    rw [openings_char hopening, List.cons_append, openings_char, ih]
    rintro rest' rfl hnext
    cases rest with
    | nil => exact hback rest' hnext
    | cons d rest =>
      obtain ⟨rfl, -⟩ := List.cons.inj hnext
      exact hopening rest rfl rfl

-- ---------------------------------------------------------------------------
-- One piece at a time
-- ---------------------------------------------------------------------------

theorem sustains_nil : Sustains depth [] := by
  intro front hfront
  rw [List.prefix_nil.mp hfront, closings_nil]
  exact Nat.zero_le _

theorem sustains_opening : Sustains depth ('$' :: '{' :: rest) ↔ Sustains (depth + 1) rest := by
  constructor
  · intro h front hfront
    have hle := h ('$' :: '{' :: front) (by simpa using hfront)
    simp only [closings_opening, openings_opening] at hle
    omega
  · intro h front hfront
    obtain rfl | ⟨tail, rfl, htail⟩ := List.prefix_cons_iff.mp hfront
    · simp
    obtain rfl | ⟨inner, rfl, hinner⟩ := List.prefix_cons_iff.mp htail
    · simp [closings]
    · have hle := h inner hinner
      simp only [closings_opening, openings_opening]
      omega

theorem sustains_closing : Sustains (depth + 1) ('}' :: rest) ↔ Sustains depth rest := by
  constructor
  · intro h front hfront
    have hle := h ('}' :: front) (by simpa using hfront)
    simp only [closings_closing, openings_closing] at hle
    omega
  · intro h front hfront
    obtain rfl | ⟨inner, rfl, hinner⟩ := List.prefix_cons_iff.mp hfront
    · simp
    · have hle := h inner hinner
      simp only [closings_closing, openings_closing]
      omega

theorem not_sustains_closing : ¬ Sustains 0 ('}' :: rest) := by
  intro h
  exact absurd (h ['}'] (by simp)) (by decide)

theorem sustains_char (hclosing : c ≠ '}') (halone : Alone c rest) :
    Sustains depth (c :: rest) ↔ Sustains depth rest := by
  have hcount : ∀ front, front <+: rest → closings (c :: front) = closings front ∧
      openings (c :: front) = openings front := by
    rintro front ⟨back, rfl⟩
    exact ⟨closings_char hclosing, openings_char halone.of_append⟩
  constructor
  · intro h front hfront
    obtain ⟨hclosings, hopenings⟩ := hcount front hfront
    rw [← hclosings, ← hopenings]
    exact h (c :: front) (by simpa using hfront)
  · intro h front hfront
    obtain rfl | ⟨inner, rfl, hinner⟩ := List.prefix_cons_iff.mp hfront
    · simp
    · obtain ⟨hclosings, hopenings⟩ := hcount inner hinner
      rw [hclosings, hopenings]
      exact h inner hinner

theorem balanced_iff : Balanced text ↔ Sustains 0 text ∧ openings text = closings text := by
  constructor
  · rintro ⟨hcloses, hclosed⟩
    exact ⟨by simpa [Sustains] using hcloses, hclosed⟩
  · rintro ⟨hsustains, hclosed⟩
    exact ⟨by simpa [Sustains] using hsustains, hclosed⟩

theorem Balanced.sustains (h : Balanced text) : Sustains 0 text := (balanced_iff.mp h).1

theorem balanced_nil : Balanced [] := balanced_iff.mpr ⟨sustains_nil, rfl⟩

theorem not_balanced_closing : ¬ Balanced ('}' :: rest) := by
  intro h
  exact not_sustains_closing h.sustains

theorem balanced_char (hclosing : c ≠ '}') (halone : Alone c rest) :
    Balanced (c :: rest) ↔ Balanced rest := by
  rw [balanced_iff, balanced_iff, sustains_char hclosing halone, openings_char halone,
    closings_char hclosing]

-- ---------------------------------------------------------------------------
-- Behind a balanced text
-- ---------------------------------------------------------------------------

/-- The count goes on as it was before the text. -/
theorem Balanced.sustains_append (h : Balanced front) (hback : ∀ back', back ≠ '{' :: back') :
    Sustains depth (front ++ back) ↔ Sustains depth back := by
  have hclosed := h.closed
  have hopenings : ∀ inner, inner <+: back →
      openings (front ++ inner) = openings front + openings inner := by
    rintro inner ⟨rest, rfl⟩
    apply openings_append
    rintro inner' rfl
    exact hback (inner' ++ rest) rfl
  constructor
  · intro hall inner hinner
    have hle := hall (front ++ inner) ((List.prefix_append_right_inj front).mpr hinner)
    rw [hopenings inner hinner, closings_append] at hle
    omega
  · rintro hall part ⟨rest, hpart⟩
    obtain ⟨inner, rfl, -⟩ | ⟨inner, rfl, rfl⟩ := List.append_eq_append_iff.mp hpart
    · have hle := h.closes part (List.prefix_append part inner)
      omega
    · have hle := hall inner (List.prefix_append inner rest)
      rw [hopenings inner (List.prefix_append inner rest), closings_append]
      omega

theorem Balanced.append_iff (h : Balanced front) (hback : ∀ back', back ≠ '{' :: back') :
    Balanced (front ++ back) ↔ Balanced back := by
  have hclosed := h.closed
  rw [balanced_iff, balanced_iff, h.sustains_append hback, openings_append hback, closings_append]
  refine and_congr_right fun _ => ?_
  omega

theorem balanced_placeholder (hbody : Balanced body) :
    Balanced ('$' :: '{' :: body ++ '}' :: after) ↔ Balanced after := by
  have hclosed := hbody.closed
  have hnext : ∀ after', '}' :: after ≠ '{' :: after' := by simp
  rw [balanced_iff, balanced_iff, List.cons_append, List.cons_append, sustains_opening,
    hbody.sustains_append hnext, sustains_closing, openings_opening, openings_append hnext,
    closings_opening, closings_append, openings_closing, closings_closing]
  refine and_congr_right fun _ => ?_
  omega

/-- Seen from the end, no more is opened than is closed. -/
theorem Balanced.openings_le (h : Balanced text) (hback : back <:+ text) :
    openings back ≤ closings back := by
  obtain ⟨front, rfl⟩ := hback
  have hfront := h.closes front (List.prefix_append front back)
  have hopenings := openings_append_le front back
  have hclosed := h.closed
  rw [closings_append] at hclosed
  omega

end

end Overlay.Template

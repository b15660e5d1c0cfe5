/-!
# Blank characters

Trimming drops the characters of the Unicode property `White_Space`, which has
25 members, at both ends of a text.
-/

namespace Overlay.Text

/-- The property `White_Space`. -/
def isBlank (c : Char) : Bool :=
  let n := c.toNat
  (0x9 ≤ n && n ≤ 0xd) || n == 0x20 || n == 0x85 || n == 0xa0 || n == 0x1680 ||
    (0x2000 ≤ n && n ≤ 0x200a) || n == 0x2028 || n == 0x2029 || n == 0x202f ||
    n == 0x205f || n == 0x3000

/-- Without the blanks in front. -/
def trimFront (cs : List Char) : List Char := cs.dropWhile isBlank

/-- Without the blanks at the end. -/
def trimBack (cs : List Char) : List Char := (cs.reverse.dropWhile isBlank).reverse

/-- Without the blanks at either end. -/
def trim (cs : List Char) : List Char := trimBack (trimFront cs)

/-- Neither end is blank. -/
def Trimmed (cs : List Char) : Prop :=
  (∀ c, cs.head? = some c → isBlank c = false) ∧ ∀ c, cs.getLast? = some c → isBlank c = false

theorem trimFront_head (cs : List Char) (c : Char) (h : (trimFront cs).head? = some c) :
    isBlank c = false := by
  have := List.head?_dropWhile_not isBlank cs
  simp_all [trimFront]

theorem trimBack_last (cs : List Char) (c : Char) (h : (trimBack cs).getLast? = some c) :
    isBlank c = false := by
  rw [trimBack, List.getLast?_reverse] at h
  exact trimFront_head cs.reverse c h

theorem trimFront_of_trimmed {cs : List Char} (h : Trimmed cs) : trimFront cs = cs := by
  cases cs with
  | nil => rfl
  | cons c cs => simp [trimFront, h.1 c rfl]

theorem trimBack_of_trimmed {cs : List Char} (h : Trimmed cs) : trimBack cs = cs := by
  have h2 := h.2
  rw [← List.head?_reverse] at h2
  generalize hr : cs.reverse = rs at h2
  have : cs = rs.reverse := by simp [← hr]
  subst this
  cases rs with
  | nil => rfl
  | cons c rs => simp [trimBack, h2 c rfl]

theorem trim_of_trimmed {cs : List Char} (h : Trimmed cs) : trim cs = cs := by
  rw [trim, trimFront_of_trimmed h, trimBack_of_trimmed h]

theorem trimBack_isPrefix (cs : List Char) : trimBack cs <+: cs := by
  have := List.dropWhile_suffix isBlank (l := cs.reverse)
  rw [← List.reverse_prefix] at this
  simpa [trimBack] using this

theorem trimmed_trim (cs : List Char) : Trimmed (trim cs) := by
  refine ⟨fun c hc => ?_, fun c hc => trimBack_last _ c hc⟩
  obtain ⟨rest, hrest⟩ := trimBack_isPrefix (trimFront cs)
  refine trimFront_head cs c ?_
  rw [← hrest]
  unfold trim at hc
  cases h : trimBack (trimFront cs) with
  | nil => simp [h] at hc
  | cons d ds => simpa [h] using hc

@[simp] theorem trim_trim (cs : List Char) : trim (trim cs) = trim cs :=
  trim_of_trimmed (trimmed_trim cs)

end Overlay.Text

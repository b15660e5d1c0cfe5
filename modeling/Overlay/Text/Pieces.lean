/-!
# Pieces between separators

Cutting text at every occurrence of a separator, from left to right and without
overlap. Text that holds none is one piece, so there is always a piece.
-/

namespace Overlay.Text

/-- The pieces of the text behind `skip` more characters of a separator. -/
def piecesAfter (separator : List Char) : Nat → List Char → List (List Char)
  | _, [] => [[]]
  | skip + 1, _ :: rest => piecesAfter separator skip rest
  | 0, c :: rest =>
    if separator.isPrefixOf (c :: rest) then
      [] :: piecesAfter separator (separator.length - 1) rest
    else
      match piecesAfter separator 0 rest with
      | piece :: pieces => (c :: piece) :: pieces
      | [] => [[c]]

/-- The text cut at a separator of at least one character. -/
def pieces (separator text : List Char) : List (List Char) := piecesAfter separator 0 text

/-- The text before the first occurrence of a character, and the text after it. -/
def cut (c : Char) : List Char → Option (List Char × List Char)
  | [] => none
  | d :: rest => if d = c then some ([], rest) else (cut c rest).map fun (a, b) => (d :: a, b)

theorem cut_eq_none_iff {c : Char} {text : List Char} : cut c text = none ↔ c ∉ text := by
  induction text with
  | nil => simp [cut]
  | cons d rest ih =>
    by_cases h : d = c
    · simp [cut, h]
    · simp [cut, h, ih, Ne.symm h]

theorem cut_eq_some_iff {c : Char} {text before after : List Char} :
    cut c text = some (before, after) ↔ text = before ++ c :: after ∧ c ∉ before := by
  induction text generalizing before with
  | nil => simp [cut]
  | cons d rest ih =>
    by_cases h : d = c
    · subst h
      cases before <;> grind [cut]
    · cases before with
      | nil => simp [cut, h]
      | cons e before => simp [cut, h, ih]; grind

end Overlay.Text

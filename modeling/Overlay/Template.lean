/-!
# Templates

A template is text with placeholders `${key}` or `${key:default}`, which may nest.
This module finds where the parts of a placeholder end. Both scans count the
openings met so far; an opening is a dollar sign followed by a brace, also where
a second dollar sign stands before it.
-/

namespace Overlay.Template

/-- The text before the brace that closes a placeholder, and the text after it.
The scan starts behind the opening, with `depth` further openings to close. -/
def splitClosing : Nat → List Char → Option (List Char × List Char)
  | _, [] => none
  | depth, '$' :: '{' :: rest =>
    (splitClosing (depth + 1) rest).map fun (body, after) => ('$' :: '{' :: body, after)
  | 0, '}' :: rest => some ([], rest)
  | depth + 1, '}' :: rest =>
    (splitClosing depth rest).map fun (body, after) => ('}' :: body, after)
  | depth, c :: rest => (splitClosing depth rest).map fun (body, after) => (c :: body, after)

/-- The key of a placeholder's body, and its default when a colon outside every
nested placeholder introduces one. -/
def splitDefault : Nat → List Char → List Char × Option (List Char)
  | _, [] => ([], none)
  | depth, '$' :: '{' :: rest =>
    let (key, fallback) := splitDefault (depth + 1) rest
    ('$' :: '{' :: key, fallback)
  | depth, '}' :: rest =>
    let (key, fallback) := splitDefault (depth - 1) rest
    ('}' :: key, fallback)
  | 0, ':' :: rest => ([], some rest)
  | depth, c :: rest =>
    let (key, fallback) := splitDefault depth rest
    (c :: key, fallback)

/-- A closing brace splits the text and nothing is lost. -/
theorem eq_of_splitClosing {depth : Nat} {text body after : List Char}
    (h : splitClosing depth text = some (body, after)) : text = body ++ '}' :: after := by
  fun_induction splitClosing depth text generalizing body after <;>
    grind [Option.map_eq_some_iff]

theorem splitClosing_length {depth : Nat} {text body after : List Char}
    (h : splitClosing depth text = some (body, after)) :
    body.length < text.length ∧ after.length < text.length := by
  have := eq_of_splitClosing h
  grind

/-- A default splits the body at a colon; without one the whole body is the key. -/
theorem eq_of_splitDefault (depth : Nat) (body : List Char) :
    body = (splitDefault depth body).1 ++
      ((splitDefault depth body).2.map (':' :: ·)).getD [] := by
  fun_induction splitDefault depth body <;> grind

theorem splitDefault_length (depth : Nat) (body : List Char) :
    (splitDefault depth body).1.length ≤ body.length ∧
      ∀ fallback, (splitDefault depth body).2 = some fallback → fallback.length < body.length := by
  have := eq_of_splitDefault depth body
  grind

end Overlay.Template

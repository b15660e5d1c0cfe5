import Overlay.Template
import Overlay.Entries

/-!
# Expanding templates

A placeholder stands for the value of its key, and that value is a template of
its own. Expansion keeps the keys whose values it is inside of; meeting one of
them again is a circular reference. Because a lookup defines finitely many keys
and each nested value takes one of them out of play, expansion ends
(`unused_append_lt`), whatever the values refer to.
-/

namespace Overlay.Template

/-- What becomes of a placeholder whose key has no value and that has no default. -/
inductive MissingPolicy
  | fail
  | passthrough
deriving DecidableEq, Repr

inductive TemplateError
  /-- The keys being expanded, from the repeated key to its repetition. -/
  | circular (chain : List String)
  | missing (key : String)
deriving DecidableEq, Repr

def TemplateError.message : TemplateError → String
  | .circular chain => "circular reference: " ++ " -> ".intercalate chain
  | .missing key => "unresolved placeholder '$\x7b" ++ key ++ "\x7d'"

/-- A source of values that defines finitely many keys. -/
structure Lookup where
  find : String → Option String
  keys : List String
  mem_keys : ∀ key, (find key).isSome → key ∈ keys

def Lookup.ofEntries (entries : Entries) : Lookup where
  find := entries.get?
  keys := entries.keys
  mem_keys := fun key h => (entries.mem_keys_iff key).mpr h

/-- How many of the lookup's keys are not being expanded. -/
def Lookup.unused (lookup : Lookup) (stack : List String) : Nat :=
  (lookup.keys.filter (· ∉ stack)).length

theorem Lookup.unused_append_lt (lookup : Lookup) {stack : List String} {key value : String}
    (hfind : lookup.find key = some value) (hkey : key ∉ stack) :
    lookup.unused (stack ++ [key]) < lookup.unused stack := by
  have hmem : key ∈ lookup.keys := lookup.mem_keys key (by simp [hfind])
  unfold Lookup.unused
  generalize lookup.keys = keys at hmem
  induction keys with
  | nil => simp at hmem
  | cons k ks ih =>
    have hle : (ks.filter (· ∉ stack ++ [key])).length ≤ (ks.filter (· ∉ stack)).length := by
      rw [← List.countP_eq_length_filter, ← List.countP_eq_length_filter]
      exact List.countP_mono_left fun a _ h => by grind
    by_cases h : k = key
    · subst h
      simp [hkey]
      grind
    · have := ih (by grind)
      simp only [List.filter_cons]
      grind

mutual

/-- The text with every placeholder replaced. `stack` holds the keys whose
values are being expanded, the outermost first. -/
def expand (policy : MissingPolicy) (lookup : Lookup) (stack : List String) :
    List Char → Except TemplateError (List Char)
  | [] => .ok []
  | '$' :: '$' :: '{' :: rest => do
    let tail ← expand policy lookup stack rest
    return '$' :: '{' :: tail
  | '$' :: '{' :: rest =>
    match _h : splitClosing 0 rest with
    | none => .ok ('$' :: '{' :: rest)
    | some (body, after) => do
      let value ← substitute policy lookup stack body
      let tail ← expand policy lookup stack after
      return value ++ tail
  | c :: rest => do
    let tail ← expand policy lookup stack rest
    return c :: tail
termination_by text => (lookup.unused stack, 2 * text.length)
decreasing_by
  all_goals first
    | (have hlength := splitClosing_length _h
       exact Prod.Lex.right _ (by simp only [List.length_cons]; omega))
    | exact Prod.Lex.right _ (by simp only [List.length_cons]; omega)

/-- What stands for the placeholder with this body. The key may hold
placeholders; the default is expanded only when the key has no value. -/
def substitute (policy : MissingPolicy) (lookup : Lookup) (stack : List String)
    (body : List Char) : Except TemplateError (List Char) := do
  let key := String.ofList (← expand policy lookup stack (splitDefault 0 body).1)
  if _hkey : key ∈ stack then
    throw (.circular (stack.dropWhile (· != key) ++ [key]))
  else
    match _hfind : lookup.find key with
    | some value => expand policy lookup (stack ++ [key]) value.toList
    | none =>
      match _hdefault : (splitDefault 0 body).2 with
      | some fallback => expand policy lookup stack fallback
      | none =>
        match policy with
        | .fail => throw (.missing key)
        | .passthrough => return '$' :: '{' :: body ++ ['}']
termination_by (lookup.unused stack, 2 * body.length + 1)
decreasing_by
  · have := (splitDefault_length 0 body).1
    exact Prod.Lex.right _ (by omega)
  · exact Prod.Lex.left _ _ (lookup.unused_append_lt _hfind _hkey)
  · have := (splitDefault_length 0 body).2 _ _hdefault
    exact Prod.Lex.right _ (by omega)

end

/-- The template with every placeholder replaced. -/
def resolve (policy : MissingPolicy) (lookup : Lookup) (template : String) :
    Except TemplateError String :=
  String.ofList <$> expand policy lookup [] template.toList

end Overlay.Template

import Mathlib.Data.List.Perm.Subperm
import Overlay.Template.Expand

/-!
# The course of an expansion

`Runs` says what `expand` and `substitute` do without being a function: it has a
rule for each way on, and a derivation lists the calls that are made, each with
the keys that are being expanded at the time. A derivation is finite, so that
there is one for every call (`exists_runs`) means that every expansion ends; and
what all derivations have in common holds for every call that is made.
-/

namespace Overlay.Template

-- ---------------------------------------------------------------------------
-- The first piece of a text
-- ---------------------------------------------------------------------------

inductive Head
  | done
  /-- An opening that stands for itself. -/
  | escaped (rest : List Char)
  /-- An opening that nothing closes: the text stays as it is. -/
  | unclosed
  | placeholder (body after : List Char)
  | char (c : Char) (rest : List Char)

def head : List Char → Head
  | [] => .done
  | '$' :: '$' :: '{' :: rest => .escaped rest
  | '$' :: '{' :: rest =>
    match splitClosing 0 rest with
    | none => .unclosed
    | some (body, after) => .placeholder body after
  | c :: rest => .char c rest

section
variable {policy : MissingPolicy} {lookup : Lookup} {stack : List String} {text body : List Char}

theorem expand_eq : expand policy lookup stack text =
    match head text with
    | .done => .ok []
    | .escaped rest => (fun tail => '$' :: '{' :: tail) <$> expand policy lookup stack rest
    | .unclosed => .ok text
    | .placeholder body after => do
      let value ← substitute policy lookup stack body
      let tail ← expand policy lookup stack after
      return value ++ tail
    | .char c rest => (c :: ·) <$> expand policy lookup stack rest := by
  fun_cases head text with
  | case1 => simp [expand]
  | case2 rest => simp [expand]
  | case3 rest h =>
    simp only [expand]
    split
    · rfl
    · rename_i hsome
      exact absurd (h.symm.trans hsome) (by simp)
  | case4 rest body after h =>
    simp only [expand]
    split
    · rename_i hnone
      exact absurd (h.symm.trans hnone) (by simp)
    · rename_i hsome
      cases Option.some.inj (h.symm.trans hsome)
      rfl
  | case5 c rest hescaped hopening => simp [expand]

/-- What becomes of a placeholder that has neither a value nor a default. -/
def absent (policy : MissingPolicy) (key : String) (body : List Char) :
    Except TemplateError (List Char) :=
  match policy with
  | .fail => .error (.missing key)
  | .passthrough => .ok ('$' :: '{' :: body ++ ['}'])

/-- The way on once the key of a placeholder is known. -/
def proceed (policy : MissingPolicy) (lookup : Lookup) (stack : List String) (body : List Char)
    (key : String) : Except TemplateError (List Char) :=
  if key ∈ stack then .error (.circular (stack.dropWhile (· != key) ++ [key]))
  else
    match lookup.find key, (splitDefault 0 body).2 with
    | some value, _ => expand policy lookup (stack ++ [key]) value.toList
    | none, some fallback => expand policy lookup stack fallback
    | none, none => absent policy key body

theorem substitute_eq : substitute policy lookup stack body =
    (expand policy lookup stack (splitDefault 0 body).1).bind fun key =>
      proceed policy lookup stack body (String.ofList key) := by
  rw [substitute]
  congr 1
  funext key
  unfold proceed
  dsimp only
  split
  · rfl
  · split
    · rename_i hfind
      simp [hfind]
    · rename_i hfind
      split
      · rename_i hdefault
        simp [hfind, hdefault]
      · rename_i hdefault
        simp only [hfind, hdefault]
        cases policy with
        | fail => rfl
        | passthrough => rfl

theorem expand_of_escaped {rest : List Char} (h : head text = .escaped rest) :
    expand policy lookup stack text =
      (fun tail => '$' :: '{' :: tail) <$> expand policy lookup stack rest := by
  rw [expand_eq, h]

theorem expand_of_char {c : Char} {rest : List Char} (h : head text = .char c rest) :
    expand policy lookup stack text =
      (fun tail => c :: tail) <$> expand policy lookup stack rest := by
  rw [expand_eq, h]

theorem expand_of_badBody {after : List Char} {error : TemplateError}
    (h : head text = .placeholder body after)
    (hbody : substitute policy lookup stack body = .error error) :
    expand policy lookup stack text = .error error := by
  rw [expand_eq, h]
  dsimp only
  rw [hbody]
  rfl

theorem expand_of_placeholder {value after : List Char} (h : head text = .placeholder body after)
    (hbody : substitute policy lookup stack body = .ok value) :
    expand policy lookup stack text =
      (fun tail => value ++ tail) <$> expand policy lookup stack after := by
  rw [expand_eq, h]
  dsimp only
  rw [hbody]
  rfl

theorem substitute_of_badKey {error : TemplateError}
    (hkey : expand policy lookup stack (splitDefault 0 body).1 = .error error) :
    substitute policy lookup stack body = .error error := by
  rw [substitute_eq, hkey, Except.bind]

theorem substitute_of_key {key : List Char}
    (hkey : expand policy lookup stack (splitDefault 0 body).1 = .ok key) :
    substitute policy lookup stack body =
      proceed policy lookup stack body (String.ofList key) := by
  rw [substitute_eq, hkey, Except.bind]

section
variable {key : String}

theorem proceed_of_mem (hmem : key ∈ stack) : proceed policy lookup stack body key =
    .error (.circular (stack.dropWhile (· != key) ++ [key])) := by
  rw [proceed, if_pos hmem]

theorem proceed_of_value {value : String} (hnew : key ∉ stack)
    (hfind : lookup.find key = some value) :
    proceed policy lookup stack body key =
      expand policy lookup (stack ++ [key]) value.toList := by
  rw [proceed, if_neg hnew, hfind]

theorem proceed_of_default {fallback : List Char} (hnew : key ∉ stack)
    (hfind : lookup.find key = none) (hdefault : (splitDefault 0 body).2 = some fallback) :
    proceed policy lookup stack body key = expand policy lookup stack fallback := by
  rw [proceed, if_neg hnew, hfind, hdefault]

theorem proceed_of_absent (hnew : key ∉ stack) (hfind : lookup.find key = none)
    (hdefault : (splitDefault 0 body).2 = none) :
    proceed policy lookup stack body key = absent policy key body := by
  rw [proceed, if_neg hnew, hfind, hdefault]

end

end

-- ---------------------------------------------------------------------------
-- Calls
-- ---------------------------------------------------------------------------

abbrev Outcome := Except TemplateError (List Char)

/-- A call of one of the two functions, with the keys that are being expanded. -/
inductive Call
  | expand (stack : List String) (text : List Char)
  | substitute (stack : List String) (body : List Char)

def Call.stack : Call → List String
  | .expand stack _ | .substitute stack _ => stack

/-- What the call returns. -/
def Call.run (policy : MissingPolicy) (lookup : Lookup) : Call → Outcome
  | .expand stack text => Template.expand policy lookup stack text
  | .substitute stack body => Template.substitute policy lookup stack body

/-- The calls that lead on from the first piece of a text. -/
def Head.Forall (motive : Call → Prop) (stack : List String) : Head → Prop
  | .done | .unclosed => True
  | .escaped rest | .char _ rest => motive (.expand stack rest)
  | .placeholder body after => motive (.substitute stack body) ∧ motive (.expand stack after)

/-- Induction along the measure that the functions go down by: the keys not yet in
use, and then the text. -/
theorem Call.induction (lookup : Lookup) {motive : Call → Prop}
    (expand : ∀ stack text, (head text).Forall motive stack → motive (.expand stack text))
    (substitute : ∀ stack body, motive (.expand stack (splitDefault 0 body).1) →
      (∀ key, String.ofList key ∉ stack → ∀ value, lookup.find (String.ofList key) = some value →
        motive (.expand (stack ++ [String.ofList key]) value.toList)) →
      (∀ fallback, (splitDefault 0 body).2 = some fallback → motive (.expand stack fallback)) →
      motive (.substitute stack body)) (call : Call) : motive call := by
  have hall := Template.expand.mutual_induct lookup (fun stack text => motive (.expand stack text))
    (fun stack body => motive (.substitute stack body)) ?done ?escaped ?unclosed ?placeholder
    ?char substitute
  · cases call with
    | expand stack text => exact hall.1 stack text
    | substitute stack body => exact hall.2 stack body
  case done => exact fun stack => expand stack [] trivial
  case escaped => exact fun stack rest hrest => expand stack _ hrest
  case unclosed =>
    intro stack rest h
    refine expand stack _ ?_
    simp [head, h, Head.Forall]
  case placeholder =>
    intro stack rest body after h hbody hafter
    refine expand stack _ ?_
    simp [head, h, Head.Forall, hbody, hafter]
  case char =>
    intro stack c rest hescaped hopening hrest
    refine expand stack _ ?_
    rw [head]
    · exact hrest
    · exact hescaped
    · exact hopening

/-- The first call makes these calls, itself included, and has this outcome. -/
inductive Runs (policy : MissingPolicy) (lookup : Lookup) : Call → List Call → Outcome → Prop
  | done (h : head text = .done) :
      Runs policy lookup (.expand stack text) [.expand stack text] (.ok [])
  | escaped (h : head text = .escaped rest)
      (hrest : Runs policy lookup (.expand stack rest) calls outcome) :
      Runs policy lookup (.expand stack text) (.expand stack text :: calls)
        ((fun tail => '$' :: '{' :: tail) <$> outcome)
  | unclosed (h : head text = .unclosed) :
      Runs policy lookup (.expand stack text) [.expand stack text] (.ok text)
  | badBody (h : head text = .placeholder body after)
      (hbody : Runs policy lookup (.substitute stack body) calls (.error error)) :
      Runs policy lookup (.expand stack text) (.expand stack text :: calls) (.error error)
  | placeholder (h : head text = .placeholder body after)
      (hbody : Runs policy lookup (.substitute stack body) calls (.ok value))
      (hafter : Runs policy lookup (.expand stack after) more outcome) :
      Runs policy lookup (.expand stack text) (.expand stack text :: (calls ++ more))
        ((fun tail => value ++ tail) <$> outcome)
  | char (h : head text = .char c rest)
      (hrest : Runs policy lookup (.expand stack rest) calls outcome) :
      Runs policy lookup (.expand stack text) (.expand stack text :: calls)
        ((fun tail => c :: tail) <$> outcome)
  | badKey
      (hkey : Runs policy lookup (.expand stack (splitDefault 0 body).1) calls (.error error)) :
      Runs policy lookup (.substitute stack body) (.substitute stack body :: calls) (.error error)
  | circular (hkey : Runs policy lookup (.expand stack (splitDefault 0 body).1) calls (.ok key))
      (hmem : String.ofList key ∈ stack) :
      Runs policy lookup (.substitute stack body) (.substitute stack body :: calls)
        (.error (.circular (stack.dropWhile (· != String.ofList key) ++ [String.ofList key])))
  | value (hkey : Runs policy lookup (.expand stack (splitDefault 0 body).1) calls (.ok key))
      (hnew : String.ofList key ∉ stack) (hfind : lookup.find (String.ofList key) = some value)
      (hvalue : Runs policy lookup (.expand (stack ++ [String.ofList key]) value.toList) more
        outcome) :
      Runs policy lookup (.substitute stack body) (.substitute stack body :: (calls ++ more))
        outcome
  | fallback (hkey : Runs policy lookup (.expand stack (splitDefault 0 body).1) calls (.ok key))
      (hnew : String.ofList key ∉ stack) (hfind : lookup.find (String.ofList key) = none)
      (hdefault : (splitDefault 0 body).2 = some fallback)
      (hfallback : Runs policy lookup (.expand stack fallback) more outcome) :
      Runs policy lookup (.substitute stack body) (.substitute stack body :: (calls ++ more))
        outcome
  | absent (hkey : Runs policy lookup (.expand stack (splitDefault 0 body).1) calls (.ok key))
      (hnew : String.ofList key ∉ stack) (hfind : lookup.find (String.ofList key) = none)
      (hdefault : (splitDefault 0 body).2 = none) :
      Runs policy lookup (.substitute stack body) (.substitute stack body :: calls)
        (absent policy (String.ofList key) body)

section
variable {policy : MissingPolicy} {lookup : Lookup} {call : Call} {calls : List Call}
  {outcome : Outcome}

/-- A derivation ends with what the function returns. -/
theorem Runs.run_eq (h : Runs policy lookup call calls outcome) :
    call.run policy lookup = outcome := by
  induction h with
  | done h => rw [Call.run, expand_eq, h]
  | escaped h _ ih => exact (expand_of_escaped h).trans (congrArg _ ih)
  | unclosed h => rw [Call.run, expand_eq, h]
  | badBody h _ ih => exact expand_of_badBody h ih
  | placeholder h _ _ ihbody ihafter =>
    exact (expand_of_placeholder h ihbody).trans (congrArg _ ihafter)
  | char h _ ih => exact (expand_of_char h).trans (congrArg _ ih)
  | badKey _ ih => exact substitute_of_badKey ih
  | circular _ hmem ihkey => exact (substitute_of_key ihkey).trans (proceed_of_mem hmem)
  | value _ hnew hfind _ ihkey ihvalue =>
    have hproceed := (substitute_of_key ihkey).trans (proceed_of_value hnew hfind)
    exact hproceed.trans ihvalue
  | fallback _ hnew hfind hdefault _ ihkey ihfallback =>
    have hproceed := (substitute_of_key ihkey).trans (proceed_of_default hnew hfind hdefault)
    exact hproceed.trans ihfallback
  | absent _ hnew hfind hdefault ihkey =>
    exact (substitute_of_key ihkey).trans (proceed_of_absent hnew hfind hdefault)

/-- A derivation for the key, and one for whatever the key leads to. -/
theorem exists_runs_substitute {stack : List String} {body : List Char}
    (hkey : ∃ calls, Runs policy lookup (.expand stack (splitDefault 0 body).1) calls
      (expand policy lookup stack (splitDefault 0 body).1))
    (hvalue : ∀ key, String.ofList key ∉ stack → ∀ value,
      lookup.find (String.ofList key) = some value →
        ∃ calls, Runs policy lookup (.expand (stack ++ [String.ofList key]) value.toList) calls
          (expand policy lookup (stack ++ [String.ofList key]) value.toList))
    (hfallback : ∀ fallback, (splitDefault 0 body).2 = some fallback →
      ∃ calls, Runs policy lookup (.expand stack fallback) calls
        (expand policy lookup stack fallback)) :
    ∃ calls, Runs policy lookup (.substitute stack body) calls
      (substitute policy lookup stack body) := by
  obtain ⟨calls, hkey⟩ := hkey
  rw [substitute_eq]
  cases hresult : expand policy lookup stack (splitDefault 0 body).1 with
  | error error =>
    rw [hresult] at hkey
    exact ⟨_, .badKey hkey⟩
  | ok key =>
    rw [hresult] at hkey
    rw [Except.bind, proceed]
    split
    · rename_i hmem
      exact ⟨_, .circular hkey hmem⟩
    · rename_i hnew
      split
      · rename_i value hfind
        obtain ⟨more, hmore⟩ := hvalue key hnew value hfind
        exact ⟨_, .value hkey hnew hfind hmore⟩
      · rename_i fallback hfind hdefault
        obtain ⟨more, hmore⟩ := hfallback fallback hdefault
        exact ⟨_, .fallback hkey hnew hfind hdefault hmore⟩
      · rename_i hfind hdefault
        exact ⟨_, .absent hkey hnew hfind hdefault⟩

theorem exists_runs_expand {stack : List String} {text : List Char}
    (hparts : (head text).Forall (fun call => ∃ calls, Runs policy lookup call calls
      (call.run policy lookup)) stack) :
    ∃ calls, Runs policy lookup (.expand stack text) calls (expand policy lookup stack text) := by
  rw [expand_eq]
  cases h : head text with
  | done => exact ⟨_, .done h⟩
  | escaped rest =>
    obtain ⟨calls, hrest⟩ := (h ▸ hparts : (Head.escaped rest).Forall _ _)
    exact ⟨_, .escaped h hrest⟩
  | unclosed => exact ⟨_, .unclosed h⟩
  | placeholder body after =>
    obtain ⟨⟨calls, hbody⟩, more, hafter⟩ := (h ▸ hparts : (Head.placeholder body after).Forall _ _)
    rw [Call.run] at hbody
    dsimp only
    cases hresult : substitute policy lookup stack body with
    | error error =>
      rw [hresult] at hbody
      exact ⟨_, .badBody h hbody⟩
    | ok value =>
      rw [hresult] at hbody
      exact ⟨_, .placeholder h hbody hafter⟩
  | char c rest =>
    obtain ⟨calls, hrest⟩ := (h ▸ hparts : (Head.char c rest).Forall _ _)
    exact ⟨_, .char h hrest⟩

/-- Every call has a derivation, and so ends. -/
theorem exists_runs (policy : MissingPolicy) (lookup : Lookup) (call : Call) :
    ∃ calls, Runs policy lookup call calls (call.run policy lookup) := by
  induction call using Call.induction lookup with
  | expand stack text hparts => exact exists_runs_expand hparts
  | substitute stack body hkey hvalue hfallback =>
    exact exists_runs_substitute hkey hvalue hfallback

end

-- ---------------------------------------------------------------------------
-- The keys that are being expanded
-- ---------------------------------------------------------------------------

/-- The number of keys that have a value. -/
def Lookup.size (lookup : Lookup) : Nat :=
  (lookup.keys.filter fun key => (lookup.find key).isSome).eraseDups.length

/-- The keys have values, and none is there twice. -/
structure Lookup.Fits (lookup : Lookup) (stack : List String) : Prop where
  nodup : stack.Nodup
  defined : ∀ key ∈ stack, (lookup.find key).isSome

section
variable {policy : MissingPolicy} {lookup : Lookup} {stack : List String} {call : Call}
  {calls : List Call} {outcome : Outcome}

theorem Lookup.fits_nil (lookup : Lookup) : lookup.Fits [] := ⟨List.nodup_nil, by simp⟩

theorem Lookup.Fits.push (h : lookup.Fits stack) {key value : String} (hnew : key ∉ stack)
    (hfind : lookup.find key = some value) : lookup.Fits (stack ++ [key]) where
  nodup := List.nodup_append.mpr ⟨h.nodup, by simp, by
    rintro _ hmem _ hlast rfl
    exact hnew (List.mem_singleton.mp hlast ▸ hmem)⟩
  defined other hmem := by
    rcases List.mem_append.mp hmem with hmem | hlast
    · exact h.defined other hmem
    · rw [List.mem_singleton.mp hlast, hfind]
      rfl

theorem Lookup.Fits.length_le (h : lookup.Fits stack) : stack.length ≤ lookup.size := by
  refine (List.subperm_of_subset h.nodup fun key hkey => ?_).length_le
  have hdefined := h.defined key hkey
  exact List.mem_eraseDups.mpr (List.mem_filter.mpr ⟨lookup.mem_keys key hdefined, hdefined⟩)

/-- A call that begins well makes no call that does not. -/
theorem Runs.fits (h : Runs policy lookup call calls outcome) (hcall : lookup.Fits call.stack) :
    ∀ made ∈ calls, lookup.Fits made.stack := by
  induction h with
  | done _ => simpa using hcall
  | unclosed _ => simpa using hcall
  | escaped _ _ ih => exact List.forall_mem_cons.mpr ⟨hcall, ih hcall⟩
  | char _ _ ih => exact List.forall_mem_cons.mpr ⟨hcall, ih hcall⟩
  | badBody _ _ ih => exact List.forall_mem_cons.mpr ⟨hcall, ih hcall⟩
  | badKey _ ih => exact List.forall_mem_cons.mpr ⟨hcall, ih hcall⟩
  | circular _ _ ih => exact List.forall_mem_cons.mpr ⟨hcall, ih hcall⟩
  | absent _ _ _ _ ih => exact List.forall_mem_cons.mpr ⟨hcall, ih hcall⟩
  | placeholder _ _ _ ihbody ihafter =>
    have hparts := List.forall_mem_append.mpr ⟨ihbody hcall, ihafter hcall⟩
    exact List.forall_mem_cons.mpr ⟨hcall, hparts⟩
  | fallback _ _ _ _ _ ihkey ihfallback =>
    have hparts := List.forall_mem_append.mpr ⟨ihkey hcall, ihfallback hcall⟩
    exact List.forall_mem_cons.mpr ⟨hcall, hparts⟩
  | value _ hnew hfind _ ihkey ihvalue =>
    -- the only place where the stack grows
    have hpush := Lookup.Fits.push hcall hnew hfind
    have hparts := List.forall_mem_append.mpr ⟨ihkey hcall, ihvalue hpush⟩
    exact List.forall_mem_cons.mpr ⟨hcall, hparts⟩

/-- Whatever the values refer to, resolving a template ends after finitely many
calls, and in none of them is a key being expanded twice, or are more keys being
expanded than have values. -/
theorem resolve_finishes (policy : MissingPolicy) (lookup : Lookup) (template : String) :
    (∃ calls outcome, Runs policy lookup (.expand [] template.toList) calls outcome) ∧
      ∀ calls outcome, Runs policy lookup (.expand [] template.toList) calls outcome →
        resolve policy lookup template = String.ofList <$> outcome ∧
        ∀ call ∈ calls, call.stack.Nodup ∧ call.stack.length ≤ lookup.size := by
  constructor
  · obtain ⟨calls, hruns⟩ := exists_runs policy lookup (.expand [] template.toList)
    exact ⟨calls, _, hruns⟩
  · intro calls outcome hruns
    refine ⟨?_, fun call hcall => ?_⟩
    · rw [resolve, ← hruns.run_eq, Call.run]
    · have hfits := hruns.fits lookup.fits_nil call hcall
      exact ⟨hfits.nodup, hfits.length_le⟩

end

/-- Two keys that refer to each other. -/
def Lookup.pair : Lookup where
  find key :=
    if key = "a" then some "$\x7bb\x7d" else if key = "b" then some "$\x7ba\x7d" else none
  keys := ["a", "b"]
  mem_keys key h := by
    split at h
    · simp_all
    · split at h
      · simp_all
      · exact absurd h (by simp)

theorem resolve_finishes_pair :
    ∃ calls outcome, Runs .fail .pair (.expand [] "$\x7ba\x7d".toList) calls outcome ∧
      resolve .fail .pair "$\x7ba\x7d" = String.ofList <$> outcome ∧
      ∀ call ∈ calls, call.stack.Nodup ∧ call.stack.length ≤ Lookup.pair.size := by
  obtain ⟨⟨calls, outcome, hruns⟩, hall⟩ := resolve_finishes .fail .pair "$\x7ba\x7d"
  exact ⟨calls, outcome, hruns, hall calls outcome hruns⟩

end Overlay.Template

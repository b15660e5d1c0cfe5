import Overlay.Proofs.Template.Sources

/-!
# Keys that are asked for

`expandAsking` expands a text as `expand` does (`outcome_inquire`), and keeps the keys
that the lookup is asked for on the way, in their order: those that the calls of the
expansion ask for (`Runs.keys_perm`). The lookup is asked in one
place, once the text of a key has been expanded and the key is not being expanded
already; its default is a matter for later, and only when there is no value.

An expansion knows of its lookup what it has been answered, and nothing else: a lookup
that gives the same answers is asked the same questions, to the same end
(`inquire_congr`). So one can say what a source of values without end is asked for
(`Asks`).
-/

namespace Overlay.Template

/-- An outcome, and the keys that were asked for on the way there. -/
@[ext]
structure Inquiry (α : Type) where
  keys : List String
  outcome : Except TemplateError α

namespace Inquiry

variable {α β γ : Type}

/-- The lookup is asked for this key. -/
def ask (key : String) : Inquiry Unit := ⟨[key], .ok ()⟩

/-- The end, without a further question. -/
def finish (outcome : Except TemplateError α) : Inquiry α := ⟨[], outcome⟩

/-- After a success there may be more to ask; after an error there is not. -/
def andThen (inquiry : Inquiry α) (next : α → Inquiry β) : Inquiry β :=
  match inquiry.outcome with
  | .ok value => ⟨inquiry.keys ++ (next value).keys, (next value).outcome⟩
  | .error error => ⟨inquiry.keys, .error error⟩

instance : Monad Inquiry where
  pure value := finish (.ok value)
  bind := andThen

theorem bind_of_ok {inquiry : Inquiry α} {value : α} (h : inquiry.outcome = .ok value)
    (next : α → Inquiry β) :
    inquiry >>= next = ⟨inquiry.keys ++ (next value).keys, (next value).outcome⟩ := by
  show inquiry.andThen next = _
  rw [andThen, h]

theorem bind_of_error {inquiry : Inquiry α} {error : TemplateError}
    (h : inquiry.outcome = .error error) (next : α → Inquiry β) :
    inquiry >>= next = ⟨inquiry.keys, .error error⟩ := by
  show inquiry.andThen next = _
  rw [andThen, h]

theorem bind_pure (inquiry : Inquiry α) : inquiry >>= pure = inquiry := by
  cases h : inquiry.outcome with
  | error error => rw [bind_of_error h, ← h]
  | ok value =>
    rw [bind_of_ok h]
    show (⟨inquiry.keys ++ [], .ok value⟩ : Inquiry α) = inquiry
    rw [List.append_nil, ← h]

theorem pure_bind (value : α) (next : α → Inquiry β) : pure value >>= next = next value :=
  bind_of_ok rfl next

theorem bind_assoc (inquiry : Inquiry α) (next : α → Inquiry β) (last : β → Inquiry γ) :
    inquiry >>= next >>= last = inquiry >>= fun value => next value >>= last := by
  cases h : inquiry.outcome with
  | error error =>
    rw [bind_of_error h next, bind_of_error h, bind_of_error rfl]
  | ok value =>
    rw [bind_of_ok h next, bind_of_ok h]
    cases h' : (next value).outcome with
    | error error => rw [bind_of_error h', bind_of_error rfl]
    | ok value' => rw [bind_of_ok h', bind_of_ok rfl, List.append_assoc]

instance : LawfulMonad Inquiry := .mk' Inquiry bind_pure pure_bind bind_assoc

@[simp] theorem outcome_pure (value : α) : (pure value : Inquiry α).outcome = .ok value := rfl

@[simp] theorem keys_pure (value : α) : (pure value : Inquiry α).keys = [] := rfl

/-- The questions change nothing. -/
theorem outcome_bind (inquiry : Inquiry α) (next : α → Inquiry β) :
    (inquiry >>= next).outcome = inquiry.outcome.bind fun value => (next value).outcome := by
  cases h : inquiry.outcome with
  | error error => rw [bind_of_error h, Except.bind]
  | ok value => rw [bind_of_ok h, Except.bind]

theorem outcome_map (f : α → β) (inquiry : Inquiry α) :
    (f <$> inquiry).outcome = f <$> inquiry.outcome := by
  rw [map_eq_pure_bind, outcome_bind]
  cases inquiry.outcome <;> rfl

theorem keys_map (f : α → β) (inquiry : Inquiry α) : (f <$> inquiry).keys = inquiry.keys := by
  rw [map_eq_pure_bind]
  cases h : inquiry.outcome with
  | error error => rw [bind_of_error h]
  | ok value => rw [bind_of_ok h, keys_pure, List.append_nil]

/-- The first questions of a longer inquiry. -/
theorem mem_bind_of_mem {inquiry : Inquiry α} {key : String} (h : key ∈ inquiry.keys)
    (next : α → Inquiry β) : key ∈ (inquiry >>= next).keys := by
  cases houtcome : inquiry.outcome with
  | error error => rwa [bind_of_error houtcome]
  | ok value =>
    rw [bind_of_ok houtcome]
    exact List.mem_append_left _ h

theorem mem_bind_of_ok {inquiry : Inquiry α} {value : α} (houtcome : inquiry.outcome = .ok value)
    {next : α → Inquiry β} {key : String} (h : key ∈ (next value).keys) :
    key ∈ (inquiry >>= next).keys := by
  rw [bind_of_ok houtcome]
  exact List.mem_append_right _ h

/-- What follows matters only after a success. -/
theorem bind_congr_of_ok {inquiry : Inquiry α} {next next' : α → Inquiry β}
    (h : ∀ value, inquiry.outcome = .ok value → next' value = next value) :
    inquiry >>= next' = inquiry >>= next := by
  cases houtcome : inquiry.outcome with
  | error error => rw [bind_of_error houtcome, bind_of_error houtcome]
  | ok value => rw [bind_of_ok houtcome, bind_of_ok houtcome, h value houtcome]

end Inquiry

-- ---------------------------------------------------------------------------
-- Expanding
-- ---------------------------------------------------------------------------

theorem eq_of_head_done {text : List Char} (h : head text = .done) : text = [] := by
  fun_cases head text <;> grind [head]

theorem eq_of_head_escaped {text rest : List Char} (h : head text = .escaped rest) :
    text = '$' :: '$' :: '{' :: rest := by
  fun_cases head text <;> grind [head]

theorem eq_of_head_unclosed {text : List Char} (h : head text = .unclosed) :
    ∃ rest, text = '$' :: '{' :: rest ∧ splitClosing 0 rest = none := by
  fun_cases head text <;> grind [head]

theorem eq_of_head_placeholder {text body after : List Char}
    (h : head text = .placeholder body after) :
    ∃ rest, text = '$' :: '{' :: rest ∧ splitClosing 0 rest = some (body, after) := by
  fun_cases head text <;> grind [head]

theorem eq_of_head_char {c : Char} {text rest : List Char} (h : head text = .char c rest) :
    text = c :: rest := by
  fun_cases head text <;> grind [head]

/-- The braces of a placeholder are in neither of its parts. -/
theorem length_lt_of_head_placeholder {text body after : List Char}
    (h : head text = .placeholder body after) :
    body.length + 1 < text.length ∧ after.length < text.length := by
  obtain ⟨rest, rfl, hsplit⟩ := eq_of_head_placeholder h
  have := splitClosing_length hsplit
  simp only [List.length_cons]
  omega

mutual

/-- `expand`, with the questions. -/
def expandAsking (policy : MissingPolicy) (lookup : Lookup) (stack : List String)
    (text : List Char) : Inquiry (List Char) :=
  match _h : head text with
  | .done => return []
  | .escaped rest => do
    let tail ← expandAsking policy lookup stack rest
    return '$' :: '{' :: tail
  | .unclosed => return text
  | .placeholder body after => do
    let value ← substituteAsking policy lookup stack body
    let tail ← expandAsking policy lookup stack after
    return value ++ tail
  | .char c rest => do
    let tail ← expandAsking policy lookup stack rest
    return c :: tail
termination_by (lookup.unused stack, 2 * text.length)
decreasing_by
  · rw [eq_of_head_escaped _h]
    exact Prod.Lex.right _ (by simp only [List.length_cons]; omega)
  · have := length_lt_of_head_placeholder _h
    exact Prod.Lex.right _ (by omega)
  · have := length_lt_of_head_placeholder _h
    exact Prod.Lex.right _ (by omega)
  · rw [eq_of_head_char _h]
    exact Prod.Lex.right _ (by simp only [List.length_cons]; omega)

/-- `substitute`, with the questions. -/
def substituteAsking (policy : MissingPolicy) (lookup : Lookup) (stack : List String)
    (body : List Char) : Inquiry (List Char) := do
  let key := String.ofList (← expandAsking policy lookup stack (splitDefault 0 body).1)
  if _hkey : key ∈ stack then
    .finish (.error (.circular (stack.dropWhile (· != key) ++ [key])))
  else
    .ask key
    match _hfind : lookup.find key with
    | some value => expandAsking policy lookup (stack ++ [key]) value.toList
    | none =>
      match _hdefault : (splitDefault 0 body).2 with
      | some fallback => expandAsking policy lookup stack fallback
      | none => .finish (absent policy key body)
termination_by (lookup.unused stack, 2 * body.length + 1)
decreasing_by
  · have := (splitDefault_length 0 body).1
    exact Prod.Lex.right _ (by omega)
  · exact Prod.Lex.left _ _ (lookup.unused_append_lt _hfind _hkey)
  · have := (splitDefault_length 0 body).2 _ _hdefault
    exact Prod.Lex.right _ (by omega)

end

/-- What the call asks for, and what it returns. -/
def Call.inquire (policy : MissingPolicy) (lookup : Lookup) : Call → Inquiry (List Char)
  | .expand stack text => expandAsking policy lookup stack text
  | .substitute stack body => substituteAsking policy lookup stack body

section
variable {policy : MissingPolicy} {lookup other : Lookup} {stack : List String}
  {text body : List Char}

theorem expandAsking_of_done (h : head text = .done) :
    expandAsking policy lookup stack text = pure [] := by
  rw [expandAsking]
  split <;> simp_all

theorem expandAsking_of_unclosed (h : head text = .unclosed) :
    expandAsking policy lookup stack text = pure text := by
  rw [expandAsking]
  split <;> simp_all

theorem expandAsking_of_escaped {rest : List Char} (h : head text = .escaped rest) :
    expandAsking policy lookup stack text =
      (fun tail => '$' :: '{' :: tail) <$> expandAsking policy lookup stack rest := by
  rw [expandAsking]
  split <;> simp_all

theorem expandAsking_of_char {c : Char} {rest : List Char} (h : head text = .char c rest) :
    expandAsking policy lookup stack text =
      (fun tail => c :: tail) <$> expandAsking policy lookup stack rest := by
  rw [expandAsking]
  split <;> simp_all

theorem expandAsking_of_placeholder {after : List Char} (h : head text = .placeholder body after) :
    expandAsking policy lookup stack text =
      substituteAsking policy lookup stack body >>= fun value =>
        (fun tail => value ++ tail) <$> expandAsking policy lookup stack after := by
  rw [expandAsking]
  split <;> simp_all

/-- The way on once the key of a placeholder is known. -/
def proceedAsking (policy : MissingPolicy) (lookup : Lookup) (stack : List String)
    (body : List Char) (key : String) : Inquiry (List Char) :=
  if key ∈ stack then .finish (.error (.circular (stack.dropWhile (· != key) ++ [key])))
  else do
    .ask key
    match lookup.find key, (splitDefault 0 body).2 with
    | some value, _ => expandAsking policy lookup (stack ++ [key]) value.toList
    | none, some fallback => expandAsking policy lookup stack fallback
    | none, none => .finish (absent policy key body)

theorem substituteAsking_eq : substituteAsking policy lookup stack body =
    expandAsking policy lookup stack (splitDefault 0 body).1 >>= fun key =>
      proceedAsking policy lookup stack body (String.ofList key) := by
  rw [substituteAsking]
  congr 1
  funext key
  unfold proceedAsking
  dsimp only
  split
  · rfl
  · congr 1
    funext _
    split
    · rename_i hfind
      simp [hfind]
    · rename_i hfind
      split
      · rename_i hdefault
        simp [hfind, hdefault]
      · rename_i hdefault
        simp [hfind, hdefault]

-- ---------------------------------------------------------------------------
-- The questions and the answers
-- ---------------------------------------------------------------------------

theorem proceedAsking_of_mem {key : String} (hmem : key ∈ stack) :
    proceedAsking policy lookup stack body key =
      .finish (.error (.circular (stack.dropWhile (· != key) ++ [key]))) := if_pos hmem

/-- A key is asked for as soon as it is known to be none of those being expanded. -/
theorem proceedAsking_of_new {key : String} (hnew : key ∉ stack) :
    proceedAsking policy lookup stack body key = .ask key >>= fun _ =>
      match lookup.find key, (splitDefault 0 body).2 with
      | some value, _ => expandAsking policy lookup (stack ++ [key]) value.toList
      | none, some fallback => expandAsking policy lookup stack fallback
      | none, none => .finish (absent policy key body) := if_neg hnew

theorem outcome_proceedAsking {key : String}
    (hvalue : ∀ value, key ∉ stack → lookup.find key = some value →
      (expandAsking policy lookup (stack ++ [key]) value.toList).outcome =
        expand policy lookup (stack ++ [key]) value.toList)
    (hfallback : ∀ fallback, (splitDefault 0 body).2 = some fallback →
      (expandAsking policy lookup stack fallback).outcome = expand policy lookup stack fallback) :
    (proceedAsking policy lookup stack body key).outcome =
      proceed policy lookup stack body key := by
  by_cases hmem : key ∈ stack
  · rw [proceedAsking_of_mem hmem, proceed_of_mem hmem]
    rfl
  · rw [proceedAsking_of_new hmem, Inquiry.outcome_bind, proceed, if_neg hmem]
    show Inquiry.outcome _ = _
    cases hfind : lookup.find key with
    | some value => exact hvalue value hmem hfind
    | none =>
      cases hdefault : (splitDefault 0 body).2 with
      | some fallback => exact hfallback fallback hdefault
      | none => rfl

/-- Keeping the questions changes nothing about the end. -/
theorem outcome_inquire (policy : MissingPolicy) (lookup : Lookup) (call : Call) :
    (call.inquire policy lookup).outcome = call.run policy lookup := by
  induction call using Call.induction lookup with
  | expand stack text hparts =>
    simp only [Call.inquire, Call.run]
    cases h : head text with
    | done => rw [expandAsking_of_done h, expand_eq, h]; rfl
    | unclosed => rw [expandAsking_of_unclosed h, expand_eq, h]; rfl
    | escaped rest =>
      rw [h, Head.Forall] at hparts
      rw [expandAsking_of_escaped h, expand_of_escaped h, Inquiry.outcome_map]
      exact congrArg _ hparts
    | char c rest =>
      rw [h, Head.Forall] at hparts
      rw [expandAsking_of_char h, expand_of_char h, Inquiry.outcome_map]
      exact congrArg _ hparts
    | placeholder body after =>
      rw [h, Head.Forall] at hparts
      obtain ⟨hbody, hafter⟩ := hparts
      simp only [Call.inquire, Call.run] at hbody hafter
      rw [expandAsking_of_placeholder h, Inquiry.outcome_bind, hbody]
      cases hresult : substitute policy lookup stack body with
      | error error => exact (expand_of_badBody h hresult).symm
      | ok value =>
        rw [expand_of_placeholder h hresult, ← hafter]
        exact Inquiry.outcome_map _ _
  | substitute stack body hkey hvalue hfallback =>
    simp only [Call.inquire, Call.run] at hkey hvalue hfallback ⊢
    rw [substituteAsking_eq, substitute_eq, Inquiry.outcome_bind, hkey]
    congr 1
    funext key
    exact outcome_proceedAsking (fun value hnew hfind => hvalue key hnew value hfind) hfallback

theorem proceedAsking_congr {key : String}
    (hsame : ∀ asked ∈ (proceedAsking policy lookup stack body key).keys,
      other.find asked = lookup.find asked)
    (hvalue : ∀ value, key ∉ stack → lookup.find key = some value →
      (∀ asked ∈ (expandAsking policy lookup (stack ++ [key]) value.toList).keys,
        other.find asked = lookup.find asked) →
      expandAsking policy other (stack ++ [key]) value.toList =
        expandAsking policy lookup (stack ++ [key]) value.toList)
    (hfallback : ∀ fallback, (splitDefault 0 body).2 = some fallback →
      (∀ asked ∈ (expandAsking policy lookup stack fallback).keys,
        other.find asked = lookup.find asked) →
      expandAsking policy other stack fallback = expandAsking policy lookup stack fallback) :
    proceedAsking policy other stack body key = proceedAsking policy lookup stack body key := by
  by_cases hmem : key ∈ stack
  · rw [proceedAsking_of_mem hmem, proceedAsking_of_mem hmem]
  · rw [proceedAsking_of_new hmem] at hsame ⊢
    rw [proceedAsking_of_new hmem]
    have hanswer : other.find key = lookup.find key :=
      hsame key (Inquiry.mem_bind_of_mem (List.mem_singleton.mpr rfl) _)
    refine Inquiry.bind_congr_of_ok fun value _ => ?_
    have hlater := fun asked hmem => hsame asked (Inquiry.mem_bind_of_ok rfl hmem)
    rw [hanswer]
    cases hfind : lookup.find key with
    | some value =>
      simp only [hfind] at hlater
      exact hvalue value hmem hfind hlater
    | none =>
      cases hdefault : (splitDefault 0 body).2 with
      | some fallback =>
        simp only [hfind, hdefault] at hlater
        exact hfallback fallback hdefault hlater
      | none => rfl

/-- What is asked and what comes of it is decided by the answers. -/
theorem inquire_congr {call : Call}
    (hsame : ∀ asked ∈ (call.inquire policy lookup).keys, other.find asked = lookup.find asked) :
    call.inquire policy other = call.inquire policy lookup := by
  induction call using Call.induction lookup with
  | expand stack text hparts =>
    simp only [Call.inquire] at hsame ⊢
    cases h : head text with
    | done => rw [expandAsking_of_done h, expandAsking_of_done h]
    | unclosed => rw [expandAsking_of_unclosed h, expandAsking_of_unclosed h]
    | escaped rest =>
      rw [h, Head.Forall] at hparts
      rw [expandAsking_of_escaped h, Inquiry.keys_map] at hsame
      rw [expandAsking_of_escaped h, expandAsking_of_escaped h]
      exact congrArg _ (hparts hsame)
    | char c rest =>
      rw [h, Head.Forall] at hparts
      rw [expandAsking_of_char h, Inquiry.keys_map] at hsame
      rw [expandAsking_of_char h, expandAsking_of_char h]
      exact congrArg _ (hparts hsame)
    | placeholder body after =>
      rw [h, Head.Forall] at hparts
      obtain ⟨hbody, hafter⟩ := hparts
      simp only [Call.inquire] at hbody hafter
      rw [expandAsking_of_placeholder h] at hsame
      rw [expandAsking_of_placeholder h, expandAsking_of_placeholder h,
        hbody fun asked hmem => hsame asked (Inquiry.mem_bind_of_mem hmem _)]
      refine Inquiry.bind_congr_of_ok fun value hvalue => congrArg _ (hafter fun asked hmem => ?_)
      exact hsame asked (Inquiry.mem_bind_of_ok hvalue ((Inquiry.keys_map _ _).symm ▸ hmem))
  | substitute stack body hkey hvalue hfallback =>
    simp only [Call.inquire] at hsame hkey hvalue hfallback ⊢
    rw [substituteAsking_eq] at hsame
    rw [substituteAsking_eq, substituteAsking_eq,
      hkey fun asked hmem => hsame asked (Inquiry.mem_bind_of_mem hmem _)]
    refine Inquiry.bind_congr_of_ok fun key hresult => proceedAsking_congr ?_ ?_ hfallback
    · exact fun asked hmem => hsame asked (Inquiry.mem_bind_of_ok hresult hmem)
    · exact fun value hnew hfind => hvalue key hnew value hfind

-- ---------------------------------------------------------------------------
-- The questions of a placeholder
-- ---------------------------------------------------------------------------

theorem outcome_expandAsking :
    (expandAsking policy lookup stack text).outcome = expand policy lookup stack text :=
  outcome_inquire policy lookup (.expand stack text)

theorem outcome_substituteAsking :
    (substituteAsking policy lookup stack body).outcome = substitute policy lookup stack body :=
  outcome_inquire policy lookup (.substitute stack body)

theorem keys_substituteAsking_of_error {error : TemplateError}
    (hkey : expand policy lookup stack (splitDefault 0 body).1 = .error error) :
    (substituteAsking policy lookup stack body).keys =
      (expandAsking policy lookup stack (splitDefault 0 body).1).keys := by
  rw [substituteAsking_eq, Inquiry.bind_of_error (outcome_expandAsking.trans hkey)]

theorem keys_substituteAsking_of_mem {key : List Char}
    (hkey : expand policy lookup stack (splitDefault 0 body).1 = .ok key)
    (hmem : String.ofList key ∈ stack) :
    (substituteAsking policy lookup stack body).keys =
      (expandAsking policy lookup stack (splitDefault 0 body).1).keys := by
  rw [substituteAsking_eq, Inquiry.bind_of_ok (outcome_expandAsking.trans hkey),
    proceedAsking_of_mem hmem]
  exact List.append_nil _

/-- A key is asked for behind the keys in its own text, and in front of those in its value or, if it
has none, in its default. -/
theorem keys_substituteAsking_of_new {key : List Char}
    (hkey : expand policy lookup stack (splitDefault 0 body).1 = .ok key)
    (hnew : String.ofList key ∉ stack) :
    (substituteAsking policy lookup stack body).keys =
      (expandAsking policy lookup stack (splitDefault 0 body).1).keys ++ String.ofList key ::
        match lookup.find (String.ofList key), (splitDefault 0 body).2 with
        | some value, _ =>
          (expandAsking policy lookup (stack ++ [String.ofList key]) value.toList).keys
        | none, some fallback => (expandAsking policy lookup stack fallback).keys
        | none, none => [] := by
  rw [substituteAsking_eq, Inquiry.bind_of_ok (outcome_expandAsking.trans hkey),
    proceedAsking_of_new hnew, Inquiry.bind_of_ok rfl]
  cases lookup.find (String.ofList key) with
  | some value => rfl
  | none => cases (splitDefault 0 body).2 <;> rfl

theorem Call.asks?_of_error {error : TemplateError}
    (hkey : Template.expand policy lookup stack (splitDefault 0 body).1 = .error error) :
    (Call.substitute stack body).asks? policy lookup = none := by
  rw [asks?, hkey]

theorem Call.asks?_of_mem {key : List Char}
    (hkey : Template.expand policy lookup stack (splitDefault 0 body).1 = .ok key)
    (hmem : String.ofList key ∈ stack) :
    (Call.substitute stack body).asks? policy lookup = none := by
  rw [asks?, hkey]
  exact if_pos hmem

/-- Asked for are the keys that the calls of the expansion ask for, each as often. -/
theorem Runs.keys_perm {call : Call} {calls : List Call} {outcome : Outcome}
    (h : Runs policy lookup call calls outcome) :
    (call.inquire policy lookup).keys.Perm (calls.filterMap (·.asks? policy lookup)) := by
  induction h with
  | done h => simp [Call.inquire, expandAsking_of_done h, Call.asks?]
  | unclosed h => simp [Call.inquire, expandAsking_of_unclosed h, Call.asks?]
  | escaped h _ ih =>
    simp only [Call.inquire] at ih ⊢
    rw [expandAsking_of_escaped h, Inquiry.keys_map]
    exact ih
  | char h _ ih =>
    simp only [Call.inquire] at ih ⊢
    rw [expandAsking_of_char h, Inquiry.keys_map]
    exact ih
  | badBody h hbody ih =>
    simp only [Call.inquire] at ih ⊢
    rw [expandAsking_of_placeholder h,
      Inquiry.bind_of_error (outcome_substituteAsking.trans hbody.run_eq)]
    exact ih
  | placeholder h hbody _ ihbody ihafter =>
    simp only [Call.inquire] at ihbody ihafter ⊢
    rw [expandAsking_of_placeholder h,
      Inquiry.bind_of_ok (outcome_substituteAsking.trans hbody.run_eq), Inquiry.keys_map,
      List.filterMap_cons_none rfl, List.filterMap_append]
    exact ihbody.append ihafter
  | badKey hkey ih =>
    simp only [Call.inquire] at ih ⊢
    rw [List.filterMap_cons_none (Call.asks?_of_error hkey.run_eq),
      keys_substituteAsking_of_error hkey.run_eq]
    exact ih
  | circular hkey hmem ih =>
    simp only [Call.inquire] at ih ⊢
    rw [List.filterMap_cons_none (Call.asks?_of_mem hkey.run_eq hmem),
      keys_substituteAsking_of_mem hkey.run_eq hmem]
    exact ih
  | value hkey hnew hfind _ ihkey ihvalue =>
    simp only [Call.inquire] at ihkey ihvalue ⊢
    rw [List.filterMap_cons_some (Call.asks?_of_key hkey.run_eq hnew), List.filterMap_append,
      keys_substituteAsking_of_new hkey.run_eq hnew, hfind]
    exact List.perm_middle.trans ((ihkey.append ihvalue).cons _)
  | fallback hkey hnew hfind hdefault _ ihkey ihfallback =>
    simp only [Call.inquire] at ihkey ihfallback ⊢
    rw [List.filterMap_cons_some (Call.asks?_of_key hkey.run_eq hnew), List.filterMap_append,
      keys_substituteAsking_of_new hkey.run_eq hnew, hfind, hdefault]
    exact List.perm_middle.trans ((ihkey.append ihfallback).cons _)
  | absent hkey hnew hfind hdefault ih =>
    simp only [Call.inquire] at ih ⊢
    rw [List.filterMap_cons_some (Call.asks?_of_key hkey.run_eq hnew),
      keys_substituteAsking_of_new hkey.run_eq hnew, hfind, hdefault]
    exact List.perm_middle.trans ((List.append_nil _).symm ▸ ih.cons _)

end

-- ---------------------------------------------------------------------------
-- Templates
-- ---------------------------------------------------------------------------

/-- `resolve`, with the questions. -/
def resolveAsking (policy : MissingPolicy) (lookup : Lookup) (template : String) :
    Inquiry String :=
  String.ofList <$> expandAsking policy lookup [] template.toList

/-- The keys that the lookup is asked for when a template is resolved, in their order. -/
def asked (policy : MissingPolicy) (lookup : Lookup) (template : String) : List String :=
  (resolveAsking policy lookup template).keys

/-- Resolving the template with values from this source asks for these keys, and ends so. -/
def Asks (policy : MissingPolicy) (find : String → Option String) (template : String)
    (keys : List String) (outcome : Except TemplateError String) : Prop :=
  resolveAsking policy (.part find keys) template = ⟨keys, outcome⟩

section
variable {policy : MissingPolicy} {lookup other : Lookup} {stack : List String}
  {body key : List Char} {template value : String}

theorem outcome_resolveAsking (policy : MissingPolicy) (lookup : Lookup) (template : String) :
    (resolveAsking policy lookup template).outcome = resolve policy lookup template := by
  rw [resolveAsking, Inquiry.outcome_map, resolve]
  exact congrArg _ (outcome_inquire policy lookup (.expand [] template.toList))

theorem resolveAsking_congr
    (hsame : ∀ key ∈ asked policy lookup template, other.find key = lookup.find key) :
    resolveAsking policy other template = resolveAsking policy lookup template := by
  rw [asked, resolveAsking, Inquiry.keys_map] at hsame
  have hcall : ∀ key ∈ ((Call.expand [] template.toList).inquire policy lookup).keys,
      other.find key = lookup.find key := hsame
  exact congrArg (String.ofList <$> ·) (inquire_congr hcall)

theorem asks_iff {keys : List String} {outcome : Except TemplateError String} :
    Asks policy lookup.find template keys outcome ↔
      asked policy lookup template = keys ∧ resolve policy lookup template = outcome := by
  have hinquiry : asked policy lookup template = keys ∧ resolve policy lookup template = outcome ↔
      resolveAsking policy lookup template = ⟨keys, outcome⟩ := by
    rw [← outcome_resolveAsking, asked, Inquiry.ext_iff]
  rw [hinquiry, Asks]
  constructor
  · intro h
    rw [← h]
    refine resolveAsking_congr fun key hmem => ?_
    rw [asked, h] at hmem
    exact (Lookup.find_part hmem).symm
  · intro h
    rw [← h]
    refine resolveAsking_congr fun key hmem => ?_
    rw [asked, h] at hmem
    exact Lookup.find_part hmem

end

/-- What a template resolves to is decided by the answers to what is asked for: a lookup that gives
the same answers is asked for the same keys in the same order, to the same end. The default of a
key that has a value is no part of this: asked for are the keys in the text of the key, the key
itself, and the keys in its value. -/
theorem resolve_determined_by_asked (policy : MissingPolicy) (lookup : Lookup) (template : String) :
    (resolveAsking policy lookup template).outcome = resolve policy lookup template ∧
    (∀ other : Lookup,
      (∀ key ∈ asked policy lookup template, other.find key = lookup.find key) →
      resolve policy other template = resolve policy lookup template ∧
        asked policy other template = asked policy lookup template) ∧
    ∀ stack body key value,
      expand policy lookup stack (splitDefault 0 body).1 = .ok key →
      String.ofList key ∉ stack → lookup.find (String.ofList key) = some value →
      (substituteAsking policy lookup stack body).keys =
        (expandAsking policy lookup stack (splitDefault 0 body).1).keys ++ String.ofList key ::
          (expandAsking policy lookup (stack ++ [String.ofList key]) value.toList).keys := by
  refine ⟨outcome_resolveAsking policy lookup template, fun other hsame => ?_, ?_⟩
  · have heq := resolveAsking_congr hsame
    refine ⟨?_, congrArg Inquiry.keys heq⟩
    rw [← outcome_resolveAsking, ← outcome_resolveAsking, heq]
  · intro stack body key value hkey hnew hfind
    rw [keys_substituteAsking_of_new hkey hnew, hfind]

/-- A stage, and the host of that stage. -/
def stages (key : String) : Option String :=
  if key = "env" then some "prod" else if key = "prod.host" then some "db" else none

/-- The key of the default need not be known, and whoever knows it is not asked. -/
theorem resolve_determined_by_asked_stages :
    asked .fail (.part stages ["env", "prod.host"]) "$\x7b$\x7benv\x7d.host:$\x7bc\x7d\x7d" =
        ["env", "prod.host"] ∧
      (substituteAsking .fail (.part stages ["env", "prod.host"]) []
        "$\x7benv\x7d.host:$\x7bc\x7d".toList).keys = ["env", "prod.host"] ∧
      resolve .fail (.part (fun key => (stages key).or (some key)) ["c", "env", "prod.host"])
        "$\x7b$\x7benv\x7d.host:$\x7bc\x7d\x7d" = .ok "db" := by
  obtain ⟨-, hother, hdefault⟩ := resolve_determined_by_asked .fail
    (.part stages ["env", "prod.host"]) "$\x7b$\x7benv\x7d.host:$\x7bc\x7d\x7d"
  have hasked : asked .fail (.part stages ["env", "prod.host"])
      "$\x7b$\x7benv\x7d.host:$\x7bc\x7d\x7d" = ["env", "prod.host"] := by cbv
  have hresult : resolve .fail (.part stages ["env", "prod.host"])
      "$\x7b$\x7benv\x7d.host:$\x7bc\x7d\x7d" = .ok "db" := by cbv
  have hkey : expand .fail (.part stages ["env", "prod.host"]) []
      (splitDefault 0 "$\x7benv\x7d.host:$\x7bc\x7d".toList).1 = .ok "prod.host".toList := by cbv
  refine ⟨hasked, ?_, (hother _ ?_).1.trans hresult⟩
  · exact (hdefault [] _ _ "db" hkey List.not_mem_nil (by cbv)).trans (by cbv)
  · rw [hasked]
    decide

end Overlay.Template

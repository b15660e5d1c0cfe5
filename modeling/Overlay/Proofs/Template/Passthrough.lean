import Overlay.Proofs.Template.Inquiries

/-!
# Passing placeholders through

A placeholder without a value stays as it stands in the template. Its key is expanded all
the same, only to find that it has no value, and what stays is the body as it was written.
So in a template whose placeholders have no defaults and no escapes nothing changes at all,
however they nest and whether or not they are closed (`resolve_passthrough`).
-/

namespace Overlay.Template

/-- The text has neither a default nor an escaped opening. -/
structure Bare (text : List Char) : Prop where
  colon : ':' ∉ text
  escape : ¬ ['$', '$', '{'] <:+: text

section
variable {lookup : Lookup} {stack : List String} {text part body after rest : List Char}

theorem Bare.of_infix (h : Bare text) (hpart : part <:+: text) : Bare part where
  colon hmem := h.colon (hpart.subset hmem)
  escape hescape := h.escape (hescape.trans hpart)

theorem Bare.splitDefault (h : Bare body) : splitDefault 0 body = (body, none) := by
  have hsplit := eq_of_splitDefault 0 body
  have hcolon := h.colon
  cases hdefault : (Template.splitDefault 0 body).2 with
  | none =>
    rw [hdefault, Option.map_none, Option.getD_none, List.append_nil] at hsplit
    exact Prod.ext hsplit.symm hdefault
  | some fallback =>
    rw [hsplit, hdefault] at hcolon
    exact absurd hcolon (by simp)

theorem Bare.head_ne_escaped (h : Bare text) : head text ≠ .escaped rest := by
  intro hhead
  obtain rfl := eq_of_head_escaped hhead
  exact h.escape ⟨[], rest, rfl⟩

/-- The parts of a template that a placeholder begins. -/
theorem Bare.of_head_placeholder (h : Bare text) (hhead : head text = .placeholder body after) :
    text = '$' :: '{' :: body ++ '}' :: after ∧ Bare body ∧ Bare after := by
  obtain ⟨rest, rfl, hsplit⟩ := eq_of_head_placeholder hhead
  obtain rfl := eq_of_splitClosing hsplit
  refine ⟨rfl, h.of_infix ⟨['$', '{'], '}' :: after, ?_⟩,
    h.of_infix ⟨'$' :: '{' :: body ++ ['}'], [], ?_⟩⟩
  · simp
  · simp

/-- What a call gives when it changes nothing. -/
def Call.Unchanged (lookup : Lookup) : Call → Prop
  | .expand stack text =>
    stack = [] → Bare text → Template.expand .passthrough lookup stack text = .ok text
  | .substitute stack body =>
    stack = [] → Bare body →
      Template.substitute .passthrough lookup stack body = .ok ('$' :: '{' :: body ++ ['}'])

/-- No key has a value, so none is ever being expanded. -/
theorem Call.unchanged (hnone : ∀ key, lookup.find key = none) (call : Call) :
    call.Unchanged lookup := by
  refine Call.induction lookup (fun stack text ih => ?expand) (fun stack body ih _ _ => ?substitute)
    call
  case expand =>
    rintro rfl hbare
    cases hhead : head text with
    | done =>
      rw [expand_eq, hhead, eq_of_head_done hhead]
    | escaped rest => exact absurd hhead hbare.head_ne_escaped
    | unclosed => rw [expand_eq, hhead]
    | placeholder body after =>
      rw [hhead] at ih
      obtain ⟨htext, hbody, hafter⟩ := hbare.of_head_placeholder hhead
      rw [expand_of_placeholder hhead (ih.1 rfl hbody), ih.2 rfl hafter, htext]
      simp
    | char c rest =>
      rw [hhead] at ih
      obtain rfl := eq_of_head_char hhead
      rw [expand_of_char hhead, ih rfl (hbare.of_infix (List.suffix_cons c rest).isInfix)]
      rfl
  case substitute =>
    rintro rfl hbare
    rw [hbare.splitDefault] at ih
    have hkey := ih rfl hbare
    rw [substitute_of_key (by rw [hbare.splitDefault]; exact hkey),
      proceed_of_absent List.not_mem_nil (hnone _) (by rw [hbare.splitDefault])]
    rfl

end

/-- A template without defaults and escapes comes back as it is when no key has a value and
missing keys are passed through. -/
theorem resolve_passthrough (lookup : Lookup) (hnone : ∀ key, lookup.find key = none)
    (template : String) (hcolon : ':' ∉ template.toList)
    (hescape : ¬ "$$\x7b".toList <:+: template.toList) :
    resolve .passthrough lookup template = .ok template := by
  have hexpand := Call.unchanged hnone (.expand [] template.toList) rfl ⟨hcolon, hescape⟩
  rw [resolve, hexpand]
  exact congrArg Except.ok String.ofList_toList

/-- A placeholder in a key, stray braces and dollar signs, and one that is not closed. -/
theorem resolve_passthrough_nested :
    resolve .passthrough (.part (fun _ => none) [])
        "$\x7ba$\x7bb\x7d$\x7d\x7d$$\x7d$\x7bc$\x7bd\x7d" =
      .ok "$\x7ba$\x7bb\x7d$\x7d\x7d$$\x7d$\x7bc$\x7bd\x7d" := by
  refine resolve_passthrough _ (fun _ => ?_) _ ?_ ?_
  · simp [Lookup.part]
  · simp
  · simp [List.infix_cons_iff]

end Overlay.Template

import Overlay.Proofs.Template.Inquiries

/-!
# Concatenation

Expansion goes through a text piece by piece. It looks ahead for the brace that closes a
placeholder, and for what stands behind a dollar sign. In a text that closes all its
openings (`Closed`) and does not end in a dollar sign it never looks past the end
(`head_append_of_placeholder`, `head_append_of_char`). So what is put behind such a text
is expanded by itself, and what a placeholder stands for is not looked at again
(`resolve_append`).
-/

namespace Overlay.Template

/-- Every opening that is met in going through the text is escaped, or closed in the text. -/
inductive Closed : List Char → Prop
  | done {text} (h : head text = .done) : Closed text
  | escaped {text rest} (h : head text = .escaped rest) (hrest : Closed rest) : Closed text
  | placeholder {text body after} (h : head text = .placeholder body after)
      (hafter : Closed after) : Closed text
  | char {text c rest} (h : head text = .char c rest) (hrest : Closed rest) : Closed text

section
variable {policy : MissingPolicy} {lookup : Lookup} {stack : List String}
  {text rest body after front : List Char} {c : Char}

theorem closed_iff : Closed text ↔
    match head text with
    | .done => True
    | .escaped rest | .placeholder _ rest | .char _ rest => Closed rest
    | .unclosed => False := by
  constructor
  · rintro (h | ⟨h, hrest⟩ | ⟨h, hrest⟩ | ⟨h, hrest⟩)
    · rw [h]
      trivial
    · rwa [h]
    · rwa [h]
    · rwa [h]
  · intro hrest
    cases h : head text with
    | done => exact .done h
    | escaped rest =>
      rw [h] at hrest
      exact .escaped h hrest
    | unclosed =>
      rw [h] at hrest
      exact hrest.elim
    | placeholder body after =>
      rw [h] at hrest
      exact .placeholder h hrest
    | char c rest =>
      rw [h] at hrest
      exact .char h hrest

-- ---------------------------------------------------------------------------
-- Looking ahead
-- ---------------------------------------------------------------------------

/-- The brace that closes a placeholder is found whatever comes behind it. -/
theorem splitClosing_append {depth : Nat} (h : splitClosing depth text = some (body, after))
    (more : List Char) : splitClosing depth (text ++ more) = some (body, after ++ more) := by
  fun_induction splitClosing depth text generalizing body after with
  | case1 => exact absurd h (by simp)
  | case2 depth rest ih =>
    obtain ⟨⟨body, after⟩, hrest, hsplit⟩ := Option.map_eq_some_iff.mp h
    cases hsplit
    simp [splitClosing, ih hrest]
  | case3 rest =>
    cases h
    simp [splitClosing]
  | case4 depth rest ih =>
    obtain ⟨⟨body, after⟩, hrest, hsplit⟩ := Option.map_eq_some_iff.mp h
    cases hsplit
    simp [splitClosing, ih hrest]
  | case5 depth c rest hopening hclosing hclosing' ih =>
    obtain ⟨⟨body, after⟩, hrest, hsplit⟩ := Option.map_eq_some_iff.mp h
    cases hsplit
    -- A brace is found in the rest, so the character is not the last, and what comes
    -- next does not change.
    cases rest with
    | nil => exact absurd hrest (by simp [splitClosing])
    | cons d rest =>
      have hnext := ih hrest
      rw [List.cons_append] at hnext
      rw [List.cons_append, List.cons_append, splitClosing, hnext]
      · rfl
      · intro rest' hc hrest'
        exact hopening rest hc (by rw [(List.cons.inj hrest').1])
      · exact hclosing
      · exact hclosing'

theorem head_append_of_escaped (h : head text = .escaped rest) (more : List Char) :
    head (text ++ more) = .escaped (rest ++ more) := by
  obtain rfl := eq_of_head_escaped h
  rfl

theorem head_append_of_placeholder (h : head text = .placeholder body after) (more : List Char) :
    head (text ++ more) = .placeholder body (after ++ more) := by
  obtain ⟨rest, rfl, hsplit⟩ := eq_of_head_placeholder h
  simp [head, splitClosing_append hsplit]

/-- A character that stands for itself still does, unless it is a dollar sign at the end. -/
theorem head_append_of_char (h : head text = .char c rest) (hend : text.getLast? ≠ some '$')
    (more : List Char) : head (text ++ more) = .char c (rest ++ more) := by
  fun_cases head text with
  | case5 c rest hescaped hopening =>
    rw [head] at h
    · cases h
      rw [List.cons_append, head]
      · intro rest' hc hnext
        obtain _ | ⟨x, _ | ⟨y, rest⟩⟩ := rest <;> simp_all
      · intro rest' hc hnext
        obtain _ | ⟨x, rest⟩ := rest <;> simp_all
    · exact hescaped
    · exact hopening
  | _ => simp_all [head]

theorem suffix_of_head_placeholder (h : head text = .placeholder body after) : after <:+ text := by
  obtain ⟨rest, rfl, hsplit⟩ := eq_of_head_placeholder h
  exact ⟨'$' :: '{' :: body ++ ['}'], by simp [eq_of_splitClosing hsplit]⟩

theorem getLast?_ne_of_suffix (h : rest <:+ text) (hend : text.getLast? ≠ some c) :
    rest.getLast? ≠ some c := by
  obtain ⟨front, rfl⟩ := h
  intro hrest
  apply hend
  simp [hrest]

-- ---------------------------------------------------------------------------
-- Expanding
-- ---------------------------------------------------------------------------

theorem expandAsking_append (hclosed : Closed front) (hend : front.getLast? ≠ some '$')
    (back : List Char) :
    expandAsking policy lookup stack (front ++ back) = (do
      let first ← expandAsking policy lookup stack front
      let second ← expandAsking policy lookup stack back
      return first ++ second) := by
  induction hclosed with
  | done h =>
    rw [expandAsking_of_done h, eq_of_head_done h]
    simp
  | escaped h _ ih =>
    have hrest := getLast?_ne_of_suffix ⟨['$', '$', '{'], (eq_of_head_escaped h).symm⟩ hend
    rw [expandAsking_of_escaped h, expandAsking_of_escaped (head_append_of_escaped h back),
      ih hrest]
    simp
  | placeholder h _ ih =>
    have hafter := getLast?_ne_of_suffix (suffix_of_head_placeholder h) hend
    rw [expandAsking_of_placeholder h,
      expandAsking_of_placeholder (head_append_of_placeholder h back), ih hafter]
    simp [← List.append_assoc]
  | char h _ ih =>
    have hrest := getLast?_ne_of_suffix ⟨[_], (eq_of_head_char h).symm⟩ hend
    rw [expandAsking_of_char h, expandAsking_of_char (head_append_of_char h hend back), ih hrest]
    simp

theorem resolveAsking_append (policy : MissingPolicy) (lookup : Lookup) {front : String}
    (hclosed : Closed front.toList) (hend : front.toList.getLast? ≠ some '$') (back : String) :
    resolveAsking policy lookup (front ++ back) = (do
      let first ← resolveAsking policy lookup front
      let second ← resolveAsking policy lookup back
      return first ++ second) := by
  rw [resolveAsking, resolveAsking, resolveAsking, String.toList_append,
    expandAsking_append hclosed hend]
  simp

end

/-- Two texts are resolved one after the other when the first leaves nothing open: together they
give both results, or the first error. Nothing else is asked for, so the text that stands for a
placeholder is not read together with what stands around it. -/
theorem resolve_append (policy : MissingPolicy) (lookup : Lookup) {front : String}
    (hclosed : Closed front.toList) (hend : front.toList.getLast? ≠ some '$') (back : String) :
    resolve policy lookup (front ++ back) = (do
      let first ← resolve policy lookup front
      let second ← resolve policy lookup back
      return first ++ second) ∧
    asked policy lookup (front ++ back) = asked policy lookup front ++
      match resolve policy lookup front with
      | .ok _ => asked policy lookup back
      | .error _ => [] := by
  have h := resolveAsking_append policy lookup hclosed hend back
  constructor
  · have houtcome := congrArg Inquiry.outcome h
    rw [Inquiry.outcome_bind] at houtcome
    simp only [Inquiry.outcome_bind, outcome_resolveAsking] at houtcome
    exact houtcome
  · rw [asked, h]
    cases hfront : resolve policy lookup front with
    | error error =>
      rw [Inquiry.bind_of_error ((outcome_resolveAsking policy lookup front).trans hfront)]
      exact (List.append_nil _).symm
    | ok value =>
      rw [Inquiry.bind_of_ok ((outcome_resolveAsking policy lookup front).trans hfront)]
      simp only [bind_pure_comp, Inquiry.keys_map]
      rfl

/-- A dollar sign that comes out of a placeholder opens nothing. -/
theorem resolve_append_dollar :
    resolve .fail (.part (fun _ => some "$") ["d"]) ("$\x7bd\x7d" ++ "\x7bx\x7d") =
      .ok "$\x7bx\x7d" := by
  have hclosed : Closed "$\x7bd\x7d".toList := .placeholder rfl (.done rfl)
  obtain ⟨hresolve, -⟩ := resolve_append .fail (.part (fun _ => some "$") ["d"]) hclosed
    (by decide) "\x7bx\x7d"
  exact hresolve.trans (by cbv)

end Overlay.Template

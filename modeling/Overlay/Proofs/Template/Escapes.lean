import Overlay.Proofs.Template.Inquiries

/-!
# Escaping

An opening is escaped by one more dollar sign. Expansion tells an escaped opening from a
dollar sign that stands for itself by looking two characters ahead, so what matters of an
escaped text is how it begins: with a brace only where the text does
(`eq_of_escape_brace`), and never with an opening (`escape_ne_opening`). Then every text
comes back from its escaped form, wherever that is expanded (`expandAsking_escape`).
-/

namespace Overlay.Template

/-- Every opening with one more dollar sign in front. -/
def escape : List Char → List Char
  | [] => []
  | '$' :: '{' :: rest => '$' :: '$' :: '{' :: escape rest
  | c :: rest => c :: escape rest

def escaped (text : String) : String := String.ofList (escape text.toList)

section
variable {policy : MissingPolicy} {lookup : Lookup} {stack : List String}
  {text rest key : List Char} {c : Char}

-- ---------------------------------------------------------------------------
-- The beginning of an escaped text
-- ---------------------------------------------------------------------------

theorem eq_of_escape_brace (h : escape text = '{' :: rest) : ∃ rest', text = '{' :: rest' := by
  fun_cases escape text with
  | case1 => exact absurd h (by simp [escape])
  | case2 text => exact absurd h (by simp [escape])
  | case3 c text hopening =>
    rw [escape] at h
    · obtain ⟨rfl, -⟩ := List.cons.inj h
      exact ⟨text, rfl⟩
    · exact hopening

theorem escape_ne_opening (text rest : List Char) : escape text ≠ '$' :: '{' :: rest := by
  intro h
  fun_cases escape text with
  | case1 => exact absurd h (by simp [escape])
  | case2 text => exact absurd h (by simp [escape])
  | case3 c text hopening =>
    rw [escape] at h
    · obtain ⟨hc, hrest⟩ := List.cons.inj h
      obtain ⟨rest', hbrace⟩ := eq_of_escape_brace hrest
      exact hopening rest' hc hbrace
    · exact hopening

theorem head_escape_cons (hopening : ∀ rest', c = '$' → rest ≠ '{' :: rest') :
    head (c :: escape rest) = .char c (escape rest) := by
  rw [head]
  · intro rest' _ hrest
    exact escape_ne_opening rest rest' hrest
  · intro rest' hc hrest
    obtain ⟨rest', hbrace⟩ := eq_of_escape_brace hrest
    exact hopening rest' hc hbrace

-- ---------------------------------------------------------------------------
-- Expanding an escaped text
-- ---------------------------------------------------------------------------

/-- Whatever is being expanded, the text comes back, and nothing is asked for. -/
theorem expandAsking_escape (policy : MissingPolicy) (lookup : Lookup) (stack : List String)
    (text : List Char) : expandAsking policy lookup stack (escape text) = pure text := by
  induction text using escape.induct with
  | case1 => exact expandAsking_of_done rfl
  | case2 rest ih => rw [escape, expandAsking_of_escaped rfl, ih, map_pure]
  | case3 c rest hopening ih =>
    rw [escape, expandAsking_of_char (head_escape_cons hopening), ih, map_pure]
    exact hopening

-- ---------------------------------------------------------------------------
-- Keys without a mark
-- ---------------------------------------------------------------------------

/-- The key can be written between braces as it is. -/
def IsPlain (key : List Char) : Prop := ∀ c ∈ key, c ≠ '$' ∧ c ≠ '}' ∧ c ≠ ':'

theorem IsPlain.tail (h : IsPlain (c :: key)) : IsPlain key := by
  intro c' hmem
  exact h c' (List.mem_cons_of_mem c hmem)

theorem IsPlain.splitClosing (h : IsPlain key) (rest : List Char) :
    splitClosing 0 (key ++ '}' :: rest) = some (key, rest) := by
  induction key with
  | nil => rfl
  | cons c key ih =>
    obtain ⟨hdollar, hclosing, -⟩ := h c List.mem_cons_self
    rw [List.cons_append, Template.splitClosing, ih h.tail]
    · rfl
    · intro _ hc
      exact absurd hc hdollar
    · intro _ hc
      exact hclosing hc
    · simp

theorem IsPlain.splitDefault (h : IsPlain key) : splitDefault 0 key = (key, none) := by
  induction key with
  | nil => rfl
  | cons c key ih =>
    obtain ⟨hdollar, hclosing, hcolon⟩ := h c List.mem_cons_self
    rw [Template.splitDefault, ih h.tail]
    · intro _ hc
      exact absurd hc hdollar
    · exact hclosing
    · intro _ hc
      exact hcolon hc

theorem IsPlain.escape (h : IsPlain key) : escape key = key := by
  induction key with
  | nil => rfl
  | cons c key ih =>
    obtain ⟨hdollar, -⟩ := h c List.mem_cons_self
    rw [Template.escape, ih h.tail]
    intro _ hc
    exact absurd hc hdollar

theorem IsPlain.expandAsking (h : IsPlain key) :
    expandAsking policy lookup stack key = pure key := by
  rw [← expandAsking_escape policy lookup stack key, h.escape]

/-- The value of a plain key may be an escaped text. -/
theorem IsPlain.substituteAsking (h : IsPlain key) (hnew : String.ofList key ∉ stack)
    (hfind : lookup.find (String.ofList key) = some (escaped (String.ofList text))) :
    substituteAsking policy lookup stack key = .ask (String.ofList key) >>= fun _ => pure text := by
  rw [substituteAsking_eq, h.splitDefault, h.expandAsking, pure_bind, proceedAsking_of_new hnew,
    hfind]
  simp only [escaped, String.toList_ofList, expandAsking_escape]

end

/-- A text that has been escaped comes back unchanged, whatever the source has values for, and none
of them is asked for. It comes back as well when it is the value of a plain key. Here `Asks` says
for a source without end what `asked` and `resolve` say for a lookup. -/
theorem resolve_escaped (policy : MissingPolicy) (find : String → Option String) (text : String) :
    (∀ lookup : Lookup, lookup.find = find → ∀ template keys outcome,
      Asks policy find template keys outcome ↔
        asked policy lookup template = keys ∧ resolve policy lookup template = outcome) ∧
    Asks policy find (escaped text) [] (.ok text) ∧
    ∀ key : String, (∀ c ∈ key.toList, c ≠ '$' ∧ c ≠ '}' ∧ c ≠ ':') →
      find key = some (escaped text) →
      Asks policy find ("$\x7b" ++ key ++ "\x7d") [key] (.ok text) := by
  refine ⟨?lookup, ?text, fun key hplain hfind => ?value⟩
  case lookup =>
    rintro lookup rfl template keys outcome
    exact asks_iff
  case text =>
    rw [Asks, resolveAsking, escaped, String.toList_ofList, expandAsking_escape, map_pure,
      String.ofList_toList]
    rfl
  case value =>
    have hhead : head ("$\x7b" ++ key ++ "\x7d").toList = .placeholder key.toList [] := by
      have hsplit := IsPlain.splitClosing hplain []
      simp [head, hsplit]
    have hasked : (Lookup.part find [key]).find (String.ofList key.toList) =
        some (escaped (String.ofList text.toList)) := by
      simp [Lookup.part, hfind]
    rw [Asks, resolveAsking, expandAsking_of_placeholder hhead,
      IsPlain.substituteAsking hplain List.not_mem_nil hasked, expandAsking_of_done rfl]
    simp only [map_pure, List.append_nil, bind_assoc, pure_bind, map_bind, String.ofList_toList]
    rfl

/-- A row of dollar signs in front of a brace has the last of them doubled. -/
theorem resolve_escaped_dollars :
    escaped "$$\x7ba\x7d" = "$$$\x7ba\x7d" ∧
      resolve .fail (.part (fun _ => some "$$$\x7ba\x7d") ["a"]) "$\x7ba\x7d" =
        .ok "$$\x7ba\x7d" := by
  have hescaped : escaped "$$\x7ba\x7d" = "$$$\x7ba\x7d" := by cbv
  obtain ⟨hlookup, -, hvalue⟩ := resolve_escaped .fail
    (Lookup.part (fun _ => some "$$$\x7ba\x7d") ["a"]).find "$$\x7ba\x7d"
  have hplain : ∀ c ∈ "a".toList, c ≠ '$' ∧ c ≠ '}' ∧ c ≠ ':' := by simp
  refine ⟨hescaped, ((hlookup _ rfl _ _ _).mp (hvalue "a" hplain ?_)).2⟩
  rw [hescaped]
  rfl

end Overlay.Template

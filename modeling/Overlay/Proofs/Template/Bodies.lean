import Overlay.Proofs.Template.Concatenation
import Overlay.Proofs.Template.Scans

/-!
# Bodies of placeholders

The body of a placeholder is balanced, and so are its key and its default: the colon between
them is the first that no placeholder encloses (`enclosed_iff`). A balanced text is expanded
without ever meeting an opening that nothing closes. Expansion goes by other rules than the
scans, as it takes an escaped opening for text and leaves its closing brace over; but it only
ever looks at ends of the text, and every end closes what it opens (`Balanced.openings_le`).

What a run goes through is written down without the run, for any source of values: `Visits` has
the pieces of a text that an expansion may come to, and each call of a run is for such a piece
of the text it began with or of a value that it has looked up (`Runs.stems`). A value is a
template of its own and may well leave something open.
-/

namespace Overlay.Template

/-- The place between the two texts is inside a placeholder that begins in the first and ends in
the second. -/
def Enclosed (front back : List Char) : Prop :=
  ∃ before inner inner' behind, front = before ++ '$' :: '{' :: inner ∧
    back = inner' ++ '}' :: behind ∧ Balanced (inner ++ inner')

/-- The key, and the default if there is one. -/
def parts (body : List Char) : List (List Char) :=
  (splitDefault 0 body).1 :: (splitDefault 0 body).2.toList

/-- Going through the text, the keys and the defaults of its placeholders included, an expansion
may come to this piece of it. -/
inductive Visits : List Char → List Char → Prop
  | here : Visits text text
  | escaped (h : head text = .escaped rest) (hrest : Visits rest piece) : Visits text piece
  | part (h : head text = .placeholder body after) (hmem : part ∈ parts body)
      (hpart : Visits part piece) : Visits text piece
  | after (h : head text = .placeholder body after) (hafter : Visits after piece) :
      Visits text piece
  | char (h : head text = .char c rest) (hrest : Visits rest piece) : Visits text piece

section
variable {text front back rest body after part piece : List Char} {c : Char}

-- ---------------------------------------------------------------------------
-- Placeholders of a balanced text
-- ---------------------------------------------------------------------------

theorem exists_splitClosing
    (h : openings ('$' :: '{' :: rest) ≤ closings ('$' :: '{' :: rest)) :
    ∃ body after, splitClosing 0 rest = some (body, after) := by
  cases hsplit : splitClosing 0 rest with
  | some found => exact ⟨found.1, found.2, rfl⟩
  | none =>
    have hle := sustains_of_splitClosing hsplit rest List.prefix_rfl
    simp only [openings_opening, closings_opening] at h
    omega

/-- A balanced text is a row of characters and of placeholders with balanced bodies. -/
@[elab_as_elim]
theorem Balanced.induction {motive : (text : List Char) → Balanced text → Prop}
    (nil : motive [] balanced_nil)
    (char : ∀ c rest (hclosing : c ≠ '}') (halone : Alone c rest) (hrest : Balanced rest),
      motive rest hrest → motive (c :: rest) ((balanced_char hclosing halone).mpr hrest))
    (placeholder : ∀ body after (hbody : Balanced body) (hafter : Balanced after),
      motive body hbody → motive after hafter →
        motive ('$' :: '{' :: body ++ '}' :: after) ((balanced_placeholder hbody).mpr hafter))
    {text : List Char} (h : Balanced text) : motive text h := by
  induction hlength : text.length using Nat.strongRecOn generalizing text with
  | ind length ih =>
    subst hlength
    cases text with
    | nil => exact nil
    | cons c rest =>
      obtain halone | ⟨rest, rfl, rfl⟩ := alone_or_opening c rest
      · have hclosing : c ≠ '}' := by
          rintro rfl
          exact not_balanced_closing h
        have hrest := (balanced_char hclosing halone).mp h
        exact char c rest hclosing halone hrest (ih _ (Nat.lt_succ_self _) hrest rfl)
      · obtain ⟨body, after, hsplit⟩ := exists_splitClosing (h.openings_le List.suffix_rfl)
        have hlength := splitClosing_length hsplit
        obtain ⟨rfl, hbody, -⟩ := splitClosing_eq_some_iff.mp hsplit
        have hafter := (balanced_placeholder hbody).mp h
        refine placeholder body after hbody hafter (ih _ ?_ hbody rfl) (ih _ ?_ hafter rfl)
        · simp only [List.length_cons]
          omega
        · simp only [List.length_cons]
          omega

theorem Enclosed.append (h : Enclosed front back) (before : List Char) :
    Enclosed (before ++ front) back := by
  obtain ⟨before', inner, inner', behind, rfl, rfl, hinner⟩ := h
  exact ⟨before ++ before', inner, inner', behind, by simp, rfl, hinner⟩

theorem Enclosed.not_balanced (h : Enclosed front back) (hsustains : Sustains 0 front) :
    ¬ Balanced front := by
  obtain ⟨before, inner, inner', behind, rfl, rfl, hinner⟩ := h
  intro hfront
  have hbefore := hsustains before (List.prefix_append before _)
  have hopen := hinner.closes inner (List.prefix_append inner inner')
  have hclosed := hfront.closed
  rw [openings_append (by simp), closings_append, openings_opening, closings_opening] at hclosed
  omega

theorem enclosed_of_not_balanced (h : Balanced (front ++ back)) (hfront : ¬ Balanced front) :
    Enclosed front back := by
  generalize htext : front ++ back = text at h
  induction h using Balanced.induction generalizing front with
  | nil =>
    obtain ⟨rfl, -⟩ := List.append_eq_nil_iff.mp htext
    exact absurd balanced_nil hfront
  | char c rest hclosing halone _ ih =>
    obtain ⟨rfl, -⟩ | ⟨front, rfl, rfl⟩ := List.append_eq_cons_iff.mp htext
    · exact absurd balanced_nil hfront
    · rw [balanced_char hclosing halone.of_append] at hfront
      exact (ih hfront rfl).append [c]
  | placeholder body after hbody hafter _ ihafter =>
    obtain ⟨rfl, -⟩ | ⟨tail, rfl, htail⟩ := List.append_eq_cons_iff.mp htext
    · exact absurd balanced_nil hfront
    obtain ⟨rfl, -⟩ | ⟨front, rfl, hsplit⟩ := List.append_eq_cons_iff.mp htail.symm
    · exact absurd ((balanced_char (by decide) (by simp [Alone])).mpr balanced_nil) hfront
    -- the place is inside the placeholder, its end included, or behind it
    obtain ⟨rest, rfl, hrest⟩ | ⟨inner, rfl, rfl⟩ := List.append_eq_append_iff.mp hsplit
    · obtain ⟨rfl, rfl⟩ | ⟨front, rfl, rfl⟩ := List.cons_eq_append_iff.mp hrest
      · exact ⟨[], body, [], after, by simp, rfl, by simpa using hbody⟩
      · have hbehind : ¬ Balanced front := by
          intro hbalanced
          exact hfront ((balanced_placeholder hbody).mpr hbalanced)
        simpa using (ihafter hbehind rfl).append ('$' :: '{' :: body ++ ['}'])
    · exact ⟨[], front, inner, after, rfl, rfl, hbody⟩

/-- What stands in front of a place is balanced just where no placeholder goes on through it. -/
theorem enclosed_iff (h : Balanced (front ++ back)) : Enclosed front back ↔ ¬ Balanced front := by
  constructor
  · intro henclosed
    refine henclosed.not_balanced fun inner hinner => ?_
    exact h.sustains inner (hinner.trans (List.prefix_append front back))
  · exact enclosed_of_not_balanced h

-- ---------------------------------------------------------------------------
-- The parts of a body
-- ---------------------------------------------------------------------------

theorem Balanced.of_mem_parts (h : Balanced body) (hpart : part ∈ parts body) : Balanced part := by
  have hbody := eq_of_splitDefault 0 body
  rw [parts] at hpart
  cases hsplit : splitDefault 0 body with
  | mk key found =>
    rw [hsplit] at hpart hbody
    cases found with
    | none =>
      obtain rfl : body = key := by simpa using hbody
      obtain rfl : part = body := by simpa using hpart
      exact h
    | some fallback =>
      obtain ⟨htext, hkey, -⟩ := h.splitDefault_eq_some_iff.mp hsplit
      obtain rfl | rfl : part = key ∨ part = fallback := by simpa using hpart
      · exact hkey
      · rw [htext, hkey.append_iff (by simp)] at h
        exact (balanced_char (by decide) (alone_of_ne (by decide))).mp h

theorem Balanced.splitDefault_eq_some_iff_enclosed (h : Balanced body) {key fallback : List Char} :
    splitDefault 0 body = (key, some fallback) ↔
      IsFirst ':' (fun front back => ¬ Enclosed front (':' :: back)) body key fallback := by
  rw [h.splitDefault_eq_some_iff]
  refine isFirst_congr fun front back hbody => ?_
  rw [enclosed_iff (hbody ▸ h), not_not]

theorem Balanced.splitDefault_eq_none_iff_enclosed (h : Balanced body) :
    splitDefault 0 body = (body, none) ↔
      ∀ front back, body = front ++ ':' :: back → Enclosed front (':' :: back) := by
  rw [h.splitDefault_eq_none_iff]
  refine forall₃_congr fun front back hbody => ?_
  rw [enclosed_iff (hbody ▸ h)]

-- ---------------------------------------------------------------------------
-- Expanding a balanced text
-- ---------------------------------------------------------------------------

/-- Behind an escaped opening the text has a closing brace too many, but what is still opened is
closed: going through the text looks at its ends only. -/
theorem closed_of_suffixes {text : List Char}
    (h : ∀ back, back <:+ text → openings back ≤ closings back) : Closed text := by
  have hsuffix : ∀ rest, rest <:+ text → ∀ back, back <:+ rest → openings back ≤ closings back :=
    fun rest hrest back hback => h back (hback.trans hrest)
  cases hhead : head text with
  | done => exact .done hhead
  | escaped rest =>
    have htext := eq_of_head_escaped hhead
    have hlength : rest.length < text.length := by grind
    exact .escaped hhead (closed_of_suffixes (hsuffix rest ⟨['$', '$', '{'], htext.symm⟩))
  | unclosed =>
    obtain ⟨rest, rfl, hnone⟩ := eq_of_head_unclosed hhead
    obtain ⟨body, after, hsplit⟩ := exists_splitClosing (h _ List.suffix_rfl)
    exact absurd (hnone.symm.trans hsplit) (by simp)
  | placeholder body after =>
    have hlength := length_lt_of_head_placeholder hhead
    exact .placeholder hhead (closed_of_suffixes (hsuffix after (suffix_of_head_placeholder hhead)))
  | char c rest =>
    have htext := eq_of_head_char hhead
    have hlength : rest.length < text.length := by grind
    exact .char hhead (closed_of_suffixes (hsuffix rest ⟨[c], htext.symm⟩))
termination_by text.length

theorem closed_of_balanced (h : Balanced text) : Closed text :=
  closed_of_suffixes fun _ hback => h.openings_le hback

theorem balanced_of_head_placeholder (h : head text = .placeholder body after) : Balanced body := by
  obtain ⟨rest, -, hsplit⟩ := eq_of_head_placeholder h
  exact (splitClosing_eq_some_iff.mp hsplit).stands

theorem Visits.closed (h : Visits text piece) (hclosed : Closed text) : Closed piece := by
  induction h with
  | here => exact hclosed
  | escaped h _ ih =>
    rw [closed_iff, h] at hclosed
    exact ih hclosed
  | part h hmem _ ih =>
    exact ih (closed_of_balanced ((balanced_of_head_placeholder h).of_mem_parts hmem))
  | after h _ ih =>
    rw [closed_iff, h] at hclosed
    exact ih hclosed
  | char h _ ih =>
    rw [closed_iff, h] at hclosed
    exact ih hclosed

theorem Balanced.head_ne_unclosed (h : Balanced text) (hpiece : Visits text piece) :
    head piece ≠ .unclosed := by
  intro hhead
  have hclosed := hpiece.closed (closed_of_balanced h)
  rw [closed_iff, hhead] at hclosed
  exact hclosed

end

-- ---------------------------------------------------------------------------
-- The pieces that a run comes to
-- ---------------------------------------------------------------------------

def Call.Visits : Call → List Char → Prop
  | .expand _ text, piece => Template.Visits text piece
  | .substitute _ body, piece => ∃ part ∈ parts body, Template.Visits part piece

/-- The piece is one of what the call is for, or one of the value that is expanded last. -/
inductive Stems (lookup : Lookup) (call : Call) (stack : List String) (piece : List Char) : Prop
  | own (hstack : stack = call.stack) (hpiece : call.Visits piece) : Stems lookup call stack piece
  | value {key value : String} (hlast : stack.getLast? = some key) (hnew : key ∉ call.stack)
      (hfind : lookup.find key = some value) (hpiece : Visits value.toList piece) :
      Stems lookup call stack piece

section
variable {policy : MissingPolicy} {lookup : Lookup} {stack stack' : List String} {call : Call}
  {calls : List Call} {outcome : Outcome} {text body piece : List Char} {key value : String}

theorem Stems.of_part {part : Call} (h : Stems lookup part stack piece)
    (hstack : part.stack = call.stack) (hpart : part.Visits piece → call.Visits piece) :
    Stems lookup call stack piece := by
  cases h with
  | own hown hpiece => exact .own (hown.trans hstack) (hpart hpiece)
  | value hlast hnew hfind hpiece => exact .value hlast (hstack ▸ hnew) hfind hpiece

theorem Stems.of_value (h : Stems lookup (.expand (stack' ++ [key]) value.toList) stack piece)
    (hnew : key ∉ stack') (hfind : lookup.find key = some value) :
    Stems lookup (.substitute stack' body) stack piece := by
  cases h with
  | own hown hpiece =>
    refine .value ?_ hnew hfind hpiece
    rw [hown]
    exact List.getLast?_concat
  | value hlast hother hfind hpiece =>
    refine .value hlast (fun hmem => hother ?_) hfind hpiece
    exact List.mem_append_left _ hmem

theorem stems_of_mem_cons (hmade : .expand stack piece ∈ .expand stack' text :: calls)
    (hrest : .expand stack piece ∈ calls → Stems lookup (.expand stack' text) stack piece) :
    Stems lookup (.expand stack' text) stack piece := by
  obtain hself | hmem := List.mem_cons.mp hmade
  · cases hself
    exact .own rfl .here
  · exact hrest hmem

theorem key_visits (h : Visits (splitDefault 0 body).1 piece) :
    (Call.substitute stack body).Visits piece :=
  ⟨_, List.mem_cons_self, h⟩

/-- A run stays within the text it began with as long as it looks up no value. -/
theorem Runs.stems (h : Runs policy lookup call calls outcome)
    (hmade : .expand stack piece ∈ calls) : Stems lookup call stack piece := by
  induction h with
  | done _ => exact stems_of_mem_cons hmade fun hmem => absurd hmem List.not_mem_nil
  | escaped h _ ih =>
    refine stems_of_mem_cons hmade fun hmem => ?_
    exact (ih hmem).of_part rfl (Visits.escaped h)
  | unclosed _ => exact stems_of_mem_cons hmade fun hmem => absurd hmem List.not_mem_nil
  | badBody h _ ih =>
    refine stems_of_mem_cons hmade fun hmem => ?_
    refine (ih hmem).of_part rfl ?_
    rintro ⟨part, hpart, hpiece⟩
    exact .part h hpart hpiece
  | placeholder h _ _ ihbody ihafter =>
    refine stems_of_mem_cons hmade fun hparts => ?_
    obtain hmem | hmem := List.mem_append.mp hparts
    · refine (ihbody hmem).of_part rfl ?_
      rintro ⟨part, hpart, hpiece⟩
      exact .part h hpart hpiece
    · exact (ihafter hmem).of_part rfl (Visits.after h)
  | char h _ ih =>
    refine stems_of_mem_cons hmade fun hmem => ?_
    exact (ih hmem).of_part rfl (Visits.char h)
  | badKey _ ih => exact (ih (by simpa using hmade)).of_part rfl key_visits
  | circular _ _ ih => exact (ih (by simpa using hmade)).of_part rfl key_visits
  | value _ hnew hfind _ ihkey ihvalue =>
    obtain hmem | hmem := List.mem_append.mp (by simpa using hmade)
    · exact (ihkey hmem).of_part rfl key_visits
    · exact (ihvalue hmem).of_value hnew hfind
  | fallback _ _ _ hdefault _ ihkey ihfallback =>
    obtain hmem | hmem := List.mem_append.mp (by simpa using hmade)
    · exact (ihkey hmem).of_part rfl key_visits
    · refine (ihfallback hmem).of_part rfl fun hpiece => ?_
      exact ⟨_, by simp [parts, hdefault], hpiece⟩
  | absent _ _ _ _ ih => exact (ih (by simpa using hmade)).of_part rfl key_visits

end

/-- The body of a placeholder ends in front of the first closing brace that has a balanced text
before it, and it has none where there is no such brace; the count of the scan never goes below
zero. In a body that is found so the scan for a default is never left with a brace that closes
nothing, and it stops at the first colon outside all nested placeholders, if there is one. The key
and the default are balanced again. Whatever the source of values, in expanding them no opening
is met that nothing closes, unless a value that is looked up on the way has one. -/
theorem placeholder_bodies_balanced (text : List Char) :
    seek '}' 0 text = some (match splitClosing 0 text with
      | some (body, after) => (body, some after)
      | none => (text, none)) ∧
    (∀ body after, splitClosing 0 text = some (body, after) ↔
      IsFirst '}' (fun front _ => Balanced front) text body after) ∧
    (splitClosing 0 text = none ↔ ∀ front back, text = front ++ '}' :: back → ¬ Balanced front) ∧
    ∀ body after, splitClosing 0 text = some (body, after) →
      seek ':' 0 body = some (splitDefault 0 body) ∧
      (∀ key fallback, splitDefault 0 body = (key, some fallback) ↔
        IsFirst ':' (fun front back => ¬ Enclosed front (':' :: back)) body key fallback) ∧
      (splitDefault 0 body = (body, none) ↔
        ∀ front back, body = front ++ ':' :: back → Enclosed front (':' :: back)) ∧
      ∀ part ∈ parts body, Balanced part ∧
        (∀ piece, Visits part piece → head piece ≠ .unclosed) ∧
        ∀ policy lookup stack calls outcome,
          Runs policy lookup (.expand stack part) calls outcome →
            ∀ stack' piece, .expand stack' piece ∈ calls →
              stack' = stack ∧ Visits part piece ∨
              ∃ key value, stack'.getLast? = some key ∧ key ∉ stack ∧
                lookup.find key = some value ∧ Visits value.toList piece := by
  refine ⟨seek_closing 0 text, fun body after => splitClosing_eq_some_iff,
    splitClosing_eq_none_iff, fun body after hsplit => ?_⟩
  have hbody : Balanced body := (splitClosing_eq_some_iff.mp hsplit).stands
  refine ⟨hbody.seek_eq, fun key fallback => hbody.splitDefault_eq_some_iff_enclosed,
    hbody.splitDefault_eq_none_iff_enclosed, fun part hmem => ?_⟩
  have hpart := hbody.of_mem_parts hmem
  refine ⟨hpart, fun piece => hpart.head_ne_unclosed, ?_⟩
  intro policy lookup stack calls outcome hruns stack' piece hmade
  cases hruns.stems hmade with
  | own hstack hpiece => exact .inl ⟨hstack, hpiece⟩
  | value hlast hnew hfind hpiece => exact .inr ⟨_, _, hlast, hnew, hfind, hpiece⟩

/-- A key whose value opens a placeholder and ends. -/
def Lookup.ajar : Lookup := .part (fun _ => some "$\x7b") ["x"]

/-- The key is a placeholder and an escaped opening, which leaves a closing brace over. An opening
that nothing closes is met in the value of the placeholder only. -/
theorem placeholder_bodies_balanced_escapes :
    splitClosing 0 "$\x7bx\x7d$$\x7by\x7d:z\x7d!".toList =
      some ("$\x7bx\x7d$$\x7by\x7d:z".toList, ['!']) ∧
    "$\x7bx\x7d$$\x7by\x7d".toList ∈ parts "$\x7bx\x7d$$\x7by\x7d:z".toList ∧
    Runs .fail .ajar (.expand [] "$\x7bx\x7d$$\x7by\x7d".toList)
      [.expand [] "$\x7bx\x7d$$\x7by\x7d".toList, .substitute [] ['x'], .expand [] ['x'],
        .expand [] [], .expand ["x"] ['$', '{'], .expand [] "$$\x7by\x7d".toList,
        .expand [] ['y', '}'], .expand [] ['}'], .expand [] []] (.ok "$\x7b$\x7by\x7d".toList) ∧
    head ['y', '}'] ≠ .unclosed ∧ head ['$', '{'] = .unclosed ∧
    ∃ key value, ["x"].getLast? = some key ∧ key ∉ ([] : List String) ∧
      Lookup.ajar.find key = some value ∧ Visits value.toList ['$', '{'] := by
  have hbody : splitClosing 0 "$\x7bx\x7d$$\x7by\x7d:z\x7d!".toList =
      some ("$\x7bx\x7d$$\x7by\x7d:z".toList, ['!']) := by decide
  have hkey : "$\x7bx\x7d$$\x7by\x7d".toList ∈ parts "$\x7bx\x7d$$\x7by\x7d:z".toList := by decide
  have hvalue : Runs .fail .ajar (.substitute [] ['x']) [.substitute [] ['x'], .expand [] ['x'],
      .expand [] [], .expand ["x"] ['$', '{']] (.ok ['$', '{']) :=
    .value (.char rfl (.done rfl)) List.not_mem_nil rfl (.unclosed rfl)
  have hescaped : Runs .fail .ajar (.expand [] "$$\x7by\x7d".toList)
      [.expand [] "$$\x7by\x7d".toList, .expand [] ['y', '}'], .expand [] ['}'], .expand [] []]
      (.ok "$\x7by\x7d".toList) :=
    .escaped rfl (.char rfl (.char rfl (.done rfl)))
  have hruns : Runs .fail .ajar (.expand [] "$\x7bx\x7d$$\x7by\x7d".toList) _ _ :=
    .placeholder rfl hvalue hescaped
  obtain ⟨-, -, -, hparts⟩ := placeholder_bodies_balanced "$\x7bx\x7d$$\x7by\x7d:z\x7d!".toList
  obtain ⟨-, -, -, hpart⟩ := hparts _ _ hbody
  obtain ⟨-, hclosed, hmade⟩ := hpart _ hkey
  refine ⟨hbody, hkey, hruns, hclosed _ (.after rfl (.escaped rfl .here)), rfl, ?_⟩
  obtain ⟨hstack, -⟩ | hvalue := hmade _ _ _ _ _ hruns ["x"] ['$', '{'] (by simp)
  · exact absurd hstack (by simp)
  · exact hvalue

end Overlay.Template

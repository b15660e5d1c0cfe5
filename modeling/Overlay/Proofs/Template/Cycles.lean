import Mathlib.Data.List.Chain
import Overlay.Proofs.Except
import Overlay.Proofs.Template.Expansion

/-!
# Circular references

While the value of a key is expanded, placeholders of other keys are evaluated;
the key leads to them (`LeadsTo`). The keys that are being expanded always form a
chain of this kind, so that a circular reference that is reported is a cycle of
it (`Cycle`), and is never reported where there is none.
-/

namespace Overlay.Template

/-- The call evaluates a placeholder of this key, in the text itself, in the key of
a placeholder, or in a default that is needed; not in the value of another key. -/
inductive Evaluates (policy : MissingPolicy) (lookup : Lookup) : Call → String → Prop
  | escaped (h : head text = .escaped rest)
      (hrest : Evaluates policy lookup (.expand stack rest) key) :
      Evaluates policy lookup (.expand stack text) key
  | char (h : head text = .char c rest)
      (hrest : Evaluates policy lookup (.expand stack rest) key) :
      Evaluates policy lookup (.expand stack text) key
  | body (h : head text = .placeholder body after)
      (hbody : Evaluates policy lookup (.substitute stack body) key) :
      Evaluates policy lookup (.expand stack text) key
  | after (h : head text = .placeholder body after)
      (hbody : substitute policy lookup stack body = .ok value)
      (hafter : Evaluates policy lookup (.expand stack after) key) :
      Evaluates policy lookup (.expand stack text) key
  | nested (hkey : Evaluates policy lookup (.expand stack (splitDefault 0 body).1) key) :
      Evaluates policy lookup (.substitute stack body) key
  | self (hkey : expand policy lookup stack (splitDefault 0 body).1 = .ok key) :
      Evaluates policy lookup (.substitute stack body) (String.ofList key)
  | fallback (hkey : expand policy lookup stack (splitDefault 0 body).1 = .ok unset)
      (hnew : String.ofList unset ∉ stack) (hfind : lookup.find (String.ofList unset) = none)
      (hdefault : (splitDefault 0 body).2 = some fallback)
      (hfallback : Evaluates policy lookup (.expand stack fallback) key) :
      Evaluates policy lookup (.substitute stack body) key

/-- Expanding the value of a key, within the expansion of others, evaluates a
placeholder of the next one. -/
def LeadsTo (policy : MissingPolicy) (lookup : Lookup) (key next : String) : Prop :=
  ∃ value stack, lookup.find key = some value ∧
    Evaluates policy lookup (.expand (stack ++ [key]) value.toList) next

/-- Each key leads to the next one, and the last one is the first. -/
structure Cycle (policy : MissingPolicy) (lookup : Lookup) (chain : List String) : Prop where
  length : 2 ≤ chain.length
  closed : chain.head? = chain.getLast?
  distinct : chain.dropLast.Nodup
  defined : ∀ key ∈ chain, (lookup.find key).isSome
  linked : chain.IsChain (LeadsTo policy lookup)

variable {policy : MissingPolicy} {lookup : Lookup} {stack : List String} {call : Call}
  {calls : List Call} {outcome : Outcome}

/-- The keys being expanded lead to each other, and the last one to all that the
call evaluates. -/
structure Reached (policy : MissingPolicy) (lookup : Lookup) (call : Call) : Prop where
  fits : lookup.Fits call.stack
  linked : call.stack.IsChain (LeadsTo policy lookup)
  last : ∀ key ∈ call.stack.getLast?, ∀ next, Evaluates policy lookup call next →
    LeadsTo policy lookup key next

theorem reached_nil (text : List Char) : Reached policy lookup (.expand [] text) :=
  ⟨lookup.fits_nil, .nil, by simp [Call.stack]⟩

/-- A call for a part of the text, with the same keys, evaluates nothing else. -/
theorem Reached.part {part : Call} (h : Reached policy lookup call)
    (hstack : part.stack = call.stack)
    (hpart : ∀ next, Evaluates policy lookup part next → Evaluates policy lookup call next) :
    Reached policy lookup part where
  fits := hstack ▸ h.fits
  linked := hstack ▸ h.linked
  last key hkey next hnext := h.last key (hstack ▸ hkey) next (hpart next hnext)

theorem Reached.isChain_concat (h : Reached policy lookup call) {key : String}
    (hkey : Evaluates policy lookup call key) :
    (call.stack ++ [key]).IsChain (LeadsTo policy lookup) := by
  refine List.isChain_append.mpr ⟨h.linked, .singleton _, ?_⟩
  rintro last hlast next hnext
  obtain rfl := Option.some.inj hnext
  exact h.last last hlast _ hkey

/-- The key's value is expanded next. -/
theorem Reached.push {body : List Char} {key value : String}
    (h : Reached policy lookup (.substitute stack body))
    (hkey : Evaluates policy lookup (.substitute stack body) key) (hnew : key ∉ stack)
    (hfind : lookup.find key = some value) :
    Reached policy lookup (.expand (stack ++ [key]) value.toList) where
  fits := h.fits.push hnew hfind
  linked := h.isChain_concat hkey
  last last hlast next hnext := by
    rw [Call.stack, List.getLast?_concat] at hlast
    obtain rfl := Option.some.inj hlast
    exact ⟨value, stack, hfind, hnext⟩

theorem dropWhile_of_mem {key : String} (h : key ∈ stack) :
    ∃ rest, stack.dropWhile (· != key) = key :: rest := by
  induction stack with
  | nil => exact absurd h (by simp)
  | cons first rest ih =>
    by_cases hfirst : first = key
    · subst hfirst
      exact ⟨rest, by simp⟩
    · obtain ⟨later, hlater⟩ := ih ((List.mem_cons.mp h).resolve_left (Ne.symm hfirst))
      exact ⟨later, by simp [hfirst, hlater]⟩

/-- A key that is being expanded is met again. -/
theorem Reached.cycle {key : String} (h : Reached policy lookup call)
    (hkey : Evaluates policy lookup call key) (hmem : key ∈ call.stack) :
    Cycle policy lookup (call.stack.dropWhile (· != key) ++ [key]) := by
  have hsuffix := List.dropWhile_suffix (· != key) (l := call.stack)
  obtain ⟨rest, hrest⟩ := dropWhile_of_mem hmem
  -- what is reported is the end of the chain that begins with the key, and the key
  rw [hrest] at hsuffix ⊢
  constructor
  · simp
  · rw [List.getLast?_concat]
    rfl
  · rw [List.dropLast_concat]
    exact h.fits.nodup.sublist hsuffix.sublist
  · intro other hother
    have hin : other ∈ call.stack := by
      rcases List.mem_append.mp hother with hcons | hlast
      · exact hsuffix.subset hcons
      · exact List.mem_singleton.mp hlast ▸ hmem
    exact h.fits.defined other hin
  · obtain ⟨front, hfront⟩ := hsuffix
    refine (h.isChain_concat hkey).suffix ⟨front, ?_⟩
    rw [← List.append_assoc, hfront]

theorem Runs.cycle {chain : List String} (h : Runs policy lookup call calls outcome)
    (hreached : Reached policy lookup call) (houtcome : outcome = .error (.circular chain)) :
    Cycle policy lookup chain := by
  induction h with
  | done _ => exact absurd houtcome (by simp)
  | unclosed _ => exact absurd houtcome (by simp)
  | escaped h _ ih =>
    exact ih (hreached.part rfl fun _ hnext => .escaped h hnext)
      (Except.map_eq_error_iff.mp houtcome)
  | char h _ ih =>
    exact ih (hreached.part rfl fun _ hnext => .char h hnext) (Except.map_eq_error_iff.mp houtcome)
  | badBody h _ ih => exact ih (hreached.part rfl fun _ hnext => .body h hnext) houtcome
  | placeholder h hbody _ _ ihafter =>
    refine ihafter (hreached.part rfl fun _ hnext => ?_) (Except.map_eq_error_iff.mp houtcome)
    exact .after h hbody.run_eq hnext
  | badKey _ ih => exact ih (hreached.part rfl fun _ hnext => .nested hnext) houtcome
  | circular hkey hmem _ =>
    obtain rfl := TemplateError.circular.inj (Except.error.inj houtcome)
    exact hreached.cycle (.self hkey.run_eq) hmem
  | value hkey hnew hfind _ _ ihvalue =>
    exact ihvalue (hreached.push (.self hkey.run_eq) hnew hfind) houtcome
  | fallback hkey hnew hfind hdefault _ _ ihfallback =>
    refine ihfallback (hreached.part rfl fun _ hnext => ?_) houtcome
    exact .fallback hkey.run_eq hnew hfind hdefault hnext
  | absent _ _ _ _ _ =>
    unfold Template.absent at houtcome
    split at houtcome
    · exact absurd houtcome (by simp)
    · exact absurd houtcome (by simp)

-- ---------------------------------------------------------------------------
-- Fewer keys being expanded
-- ---------------------------------------------------------------------------

/-- The same call while other keys are being expanded. -/
def Call.under (stack : List String) : Call → Call
  | .expand _ text => .expand stack text
  | .substitute _ body => .substitute stack body

/-- What succeeds still does when fewer keys are being expanded. -/
theorem Runs.run_under {value : List Char} {fewer : List String}
    (h : Runs policy lookup call calls outcome) (houtcome : outcome = .ok value)
    (hfewer : fewer ⊆ call.stack) : (call.under fewer).run policy lookup = .ok value := by
  induction h generalizing value fewer with
  | done h => rw [Call.under, Call.run, expand_eq, h]; exact houtcome
  | unclosed h => rw [Call.under, Call.run, expand_eq, h]; exact houtcome
  | escaped h _ ih =>
    obtain ⟨tail, htail, rfl⟩ := Except.map_eq_ok_iff.mp houtcome
    exact (expand_of_escaped h).trans (congrArg _ (ih htail hfewer))
  | char h _ ih =>
    obtain ⟨tail, htail, rfl⟩ := Except.map_eq_ok_iff.mp houtcome
    exact (expand_of_char h).trans (congrArg _ (ih htail hfewer))
  | badBody _ _ _ => exact absurd houtcome (by simp)
  | placeholder h _ _ ihbody ihafter =>
    obtain ⟨tail, htail, rfl⟩ := Except.map_eq_ok_iff.mp houtcome
    exact (expand_of_placeholder h (ihbody rfl hfewer)).trans (congrArg _ (ihafter htail hfewer))
  | badKey _ _ => exact absurd houtcome (by simp)
  | circular _ _ _ => exact absurd houtcome (by simp)
  | value _ hnew hfind _ ihkey ihvalue =>
    -- the value is expanded with the key itself in use, in both
    have hkey := substitute_of_key (ihkey rfl hfewer)
    have hproceed := hkey.trans (proceed_of_value (fun hmem => hnew (hfewer hmem)) hfind)
    refine hproceed.trans (ihvalue houtcome ?_)
    refine List.append_subset.mpr ⟨fun other hmem => ?_, List.subset_append_right _ _⟩
    exact List.mem_append_left _ (hfewer hmem)
  | fallback _ hnew hfind hdefault _ ihkey ihfallback =>
    have hkey := substitute_of_key (ihkey rfl hfewer)
    have hproceed := hkey.trans (proceed_of_default (fun hmem => hnew (hfewer hmem)) hfind hdefault)
    exact hproceed.trans (ihfallback houtcome hfewer)
  | absent _ hnew hfind hdefault ihkey =>
    have hkey := substitute_of_key (ihkey rfl hfewer)
    have hproceed := hkey.trans (proceed_of_absent (fun hmem => hnew (hfewer hmem)) hfind hdefault)
    exact hproceed.trans houtcome

theorem run_under (call : Call) {value : List Char} {fewer : List String}
    (h : call.run policy lookup = .ok value) (hfewer : fewer ⊆ call.stack) :
    (call.under fewer).run policy lookup = .ok value := by
  obtain ⟨calls, hruns⟩ := exists_runs policy lookup call
  exact hruns.run_under h hfewer

theorem Evaluates.under {key : String} {fewer : List String} (h : Evaluates policy lookup call key)
    (hfewer : fewer ⊆ call.stack) : Evaluates policy lookup (call.under fewer) key := by
  induction h with
  | escaped h _ ih => exact .escaped h (ih hfewer)
  | char h _ ih => exact .char h (ih hfewer)
  | body h _ ih => exact .body h (ih hfewer)
  | after h hbody _ ih => exact .after h (run_under (.substitute _ _) hbody hfewer) (ih hfewer)
  | nested _ ih => exact .nested (ih hfewer)
  | self hkey => exact .self (run_under (.expand _ _) hkey hfewer)
  | fallback hkey hnew hfind hdefault _ ih =>
    have hkey := run_under (.expand _ _) hkey hfewer
    exact .fallback hkey (fun hmem => hnew (hfewer hmem)) hfind hdefault (ih hfewer)

-- ---------------------------------------------------------------------------
-- Ranked keys
-- ---------------------------------------------------------------------------

/-- Expanding the value of a key evaluates placeholders of a smaller rank only. -/
def Ranked (policy : MissingPolicy) (lookup : Lookup) (rank : String → Nat) : Prop :=
  ∀ key value, lookup.find key = some value →
    ∀ next, Evaluates policy lookup (.expand [] value.toList) next → rank next < rank key

theorem Ranked.lt_of_leadsTo {rank : String → Nat} (h : Ranked policy lookup rank)
    {key next : String} (hleads : LeadsTo policy lookup key next) : rank next < rank key := by
  obtain ⟨value, stack, hfind, hnext⟩ := hleads
  exact h key value hfind next (hnext.under (List.nil_subset _))

theorem Ranked.not_cycle {rank : String → Nat} (h : Ranked policy lookup rank)
    {chain : List String} : ¬ Cycle policy lookup chain := by
  intro hcycle
  have hfalls : (chain.map rank).IsChain (· > ·) :=
    (List.isChain_map rank).mpr (hcycle.linked.imp fun _ _ hleads => h.lt_of_leadsTo hleads)
  obtain ⟨first, rest, rfl⟩ := List.exists_cons_of_length_pos (Nat.le_of_succ_le hcycle.length)
  have hne : rest ≠ [] := by
    rintro rfl
    exact absurd hcycle.length (by simp)
  -- the first key is met again behind itself, where ranks are smaller
  have hlast : first = rest.getLast hne := by
    have hclosed := hcycle.closed
    rw [List.head?_cons, List.getLast?_eq_some_getLast (List.cons_ne_nil _ _),
      List.getLast_cons hne] at hclosed
    exact Option.some.inj hclosed
  have hbelow := (List.pairwise_cons.mp hfalls.pairwise).1 (rank first)
    (List.mem_map.mpr ⟨first, hlast ▸ List.getLast_mem hne, rfl⟩)
  exact Nat.lt_irrefl _ hbelow

/-- A circular reference that is reported is a cycle: a chain of keys with values,
each of which leads to the next, from a key back to itself. So none is reported
where the keys can be ranked, however often a key is used. -/
theorem resolve_circular (policy : MissingPolicy) (lookup : Lookup) :
    (∀ template chain, resolve policy lookup template = .error (.circular chain) →
      Cycle policy lookup chain) ∧
    ∀ rank, Ranked policy lookup rank →
      ∀ template chain, resolve policy lookup template ≠ .error (.circular chain) := by
  have hcycle : ∀ template chain, resolve policy lookup template = .error (.circular chain) →
      Cycle policy lookup chain := by
    intro template chain h
    obtain ⟨calls, hruns⟩ := exists_runs policy lookup (.expand [] template.toList)
    refine hruns.cycle (reached_nil _) ?_
    cases hexpand : expand policy lookup [] template.toList with
    | error error =>
      rw [resolve, hexpand] at h
      rw [Call.run, hexpand, Except.error.inj h]
    | ok text =>
      rw [resolve, hexpand] at h
      exact absurd h (by simp)
  exact ⟨hcycle, fun rank hranked template chain h => hranked.not_cycle (hcycle template chain h)⟩

/-- A key whose value refers to nothing. -/
def Lookup.plain : Lookup where
  find key := if key = "a" then some "x" else none
  keys := ["a"]
  mem_keys key h := by
    split at h
    · simp_all
    · exact absurd h (by simp)

theorem ranked_plain (rank : String → Nat) : Ranked policy .plain rank := by
  intro key value hfind next hnext
  have hvalue : value.toList = ['x'] := by
    simp only [Lookup.plain] at hfind
    split at hfind
    · rw [← Option.some.inj hfind]
      rfl
    · exact absurd hfind (by simp)
  rw [hvalue] at hnext
  cases hnext with
  | char h hrest =>
    obtain ⟨rfl, rfl⟩ := Head.char.inj h
    cases hrest with
    | _ h => exact absurd h (by simp [head])
  | _ h => exact absurd h (by simp [head])

/-- The pair refers to itself in a circle, and a plain key can be used twice. -/
theorem resolve_circular_pair :
    resolve .fail .pair "$\x7ba\x7d" = .error (.circular ["a", "b", "a"]) ∧
      Cycle .fail .pair ["a", "b", "a"] ∧
      ∀ chain, resolve .fail .plain "$\x7ba\x7d$\x7ba\x7d" ≠ .error (.circular chain) := by
  have hpair : resolve .fail .pair "$\x7ba\x7d" = .error (.circular ["a", "b", "a"]) := by cbv
  exact ⟨hpair, (resolve_circular .fail .pair).1 _ _ hpair,
    (resolve_circular .fail .plain).2 (fun _ => 0) (ranked_plain _) _⟩

end Overlay.Template

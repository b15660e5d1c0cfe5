import Overlay.Proofs.Template.Sources

/-!
# Policies for missing keys

Expansion under the two policies takes the same course up to the first placeholder
that has neither a value nor a default. There one gives up and the other goes on,
perhaps to a key made of a placeholder that was passed through. So where the strict
one comes to another end than by a missing key, the lenient one comes to the same.
-/

namespace Overlay.Template

section
variable {policy : MissingPolicy} {lookup : Lookup} {call : Call} {calls : List Call}
  {outcome : Outcome} {find : String → Option String} {template : String}

/-- Only the strict policy lets a missing key end an expansion. -/
theorem Runs.strict_of_misses (h : Runs policy lookup call calls outcome)
    (hmisses : Misses outcome) : policy = .fail := by
  induction h with
  | done _ => exact absurd hmisses not_misses_ok
  | unclosed _ => exact absurd hmisses not_misses_ok
  | escaped _ _ ih => exact ih (misses_map.mp hmisses)
  | char _ _ ih => exact ih (misses_map.mp hmisses)
  | badBody _ _ ih => exact ih hmisses
  | placeholder _ _ _ _ ihafter => exact ihafter (misses_map.mp hmisses)
  | badKey _ ih => exact ih hmisses
  | circular _ _ =>
    obtain ⟨_, h⟩ := hmisses
    cases h
  | value _ _ _ _ _ ihvalue => exact ihvalue hmisses
  | fallback _ _ _ _ _ _ ihfallback => exact ihfallback hmisses
  | absent _ _ _ _ =>
    cases policy with
    | fail => rfl
    | passthrough => exact absurd hmisses not_misses_ok

theorem Resolves.present {outcome : Except TemplateError String}
    (h : Resolves .passthrough find template outcome) : ¬ Misses outcome := by
  obtain ⟨_, _, _, hruns, _, rfl⟩ := h
  intro hmisses
  cases hruns.strict_of_misses (misses_map.mp hmisses)

/-- An end that is not for want of a key is the end under the other policy as well. -/
theorem Resolves.relax {outcome : Except TemplateError String}
    (h : Resolves .fail find template outcome) (hpresent : ¬ Misses outcome) :
    Resolves .passthrough find template outcome := by
  obtain ⟨keys, calls, result, hruns, hasked, rfl⟩ := h
  have hspared : Spared .fail .passthrough result :=
    .inr ⟨rfl, fun hmisses => hpresent (misses_map.mpr hmisses)⟩
  have hrepeats := hruns.transfer hspared fun _ _ _ _ => rfl
  refine ⟨keys, calls, result, hrepeats.runs, fun made hmade key hkey => ?_, rfl⟩
  rw [hrepeats.asks made hmade] at hkey
  exact hasked made hmade key hkey

end

/-- The policy matters only where a key is missing. With values from any source, a template
that the strict policy resolves to a text, or to a circular reference, the lenient one
resolves to the same; it never reports a missing key; and where the two end differently,
the strict one reports one. On a lookup resolving always ends, and with what `resolve` gives. -/
theorem policies_differ_on_missing (find : String → Option String) (template : String) :
    (∀ policy (lookup : Lookup), lookup.find = find → ∀ outcome,
      Resolves policy find template outcome ↔ resolve policy lookup template = outcome) ∧
    (∀ value, Resolves .fail find template (.ok value) →
      Resolves .passthrough find template (.ok value)) ∧
    (∀ chain, Resolves .fail find template (.error (.circular chain)) →
      Resolves .passthrough find template (.error (.circular chain))) ∧
    (∀ key, ¬ Resolves .passthrough find template (.error (.missing key))) ∧
    ∀ strict lenient, Resolves .fail find template strict →
      Resolves .passthrough find template lenient → strict ≠ lenient →
      ∃ key, strict = .error (.missing key) := by
  refine ⟨?lookup, fun value h => ?value, fun chain h => ?circular, fun key h => ?missing, ?differ⟩
  case lookup =>
    rintro policy lookup rfl outcome
    exact resolves_iff
  case value => exact h.relax not_misses_ok
  case circular =>
    refine h.relax ?_
    rintro ⟨_, hmissing⟩
    cases hmissing
  case missing => exact h.present ⟨key, rfl⟩
  case differ =>
    intro strict lenient hstrict hlenient hne
    by_contra hpresent
    exact hne ((hstrict.relax hpresent).unique hlenient)

/-- A default, a circle and a missing key, with two keys that refer to each other. -/
theorem policies_differ_on_missing_pair :
    resolve .passthrough .pair "$\x7bc:x\x7d" = .ok "x" ∧
      resolve .passthrough .pair "$\x7ba\x7d" = .error (.circular ["a", "b", "a"]) ∧
      resolve .passthrough .pair "$\x7bc\x7d" ≠ .error (.missing "c") ∧
      ∃ key, resolve .fail .pair "$\x7bc\x7d" = .error (.missing key) := by
  obtain ⟨hon, hvalue, -⟩ := policies_differ_on_missing Lookup.pair.find "$\x7bc:x\x7d"
  obtain ⟨hon', -, hcircular, -⟩ := policies_differ_on_missing Lookup.pair.find "$\x7ba\x7d"
  obtain ⟨hon'', -, -, hmissing, hdiffer⟩ :=
    policies_differ_on_missing Lookup.pair.find "$\x7bc\x7d"
  refine ⟨?_, ?_, ?_, ?_⟩
  · exact (hon _ _ rfl _).mp (hvalue _ ((hon _ .pair rfl _).mpr (by cbv)))
  · exact (hon' _ _ rfl _).mp (hcircular _ ((hon' _ .pair rfl _).mpr (by cbv)))
  · exact fun h => hmissing "c" ((hon'' _ .pair rfl _).mpr h)
  · have hpassed : resolve .passthrough .pair "$\x7bc\x7d" = .ok "$\x7bc\x7d" := by cbv
    have hfailed : resolve .fail .pair "$\x7bc\x7d" = .error (.missing "c") := by cbv
    have hstrict := (hon'' .fail .pair rfl _).mpr rfl
    have hlenient := (hon'' .passthrough .pair rfl _).mpr rfl
    exact hdiffer _ _ hstrict hlenient (by simp [hpassed, hfailed])

end Overlay.Template

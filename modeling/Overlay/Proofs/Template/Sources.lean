import Overlay.Proofs.Template.Expansion

/-!
# Sources of values

A lookup has values for finitely many keys, but values may come from anywhere, and a
source may have them for keys without end. An expansion that ends asks for finitely
many keys (`Call.asks?`), and only these matter to it (`Runs.transfer`). So expanding
with a source is expanding with a part of it that has all keys that are asked for
(`Resolves`); it need not end, and on a lookup it is what `resolve` gives
(`resolves_iff`).
-/

namespace Overlay.Template

/-- The key that a call asks the lookup for. -/
def Call.asks? (policy : MissingPolicy) (lookup : Lookup) : Call → Option String
  | .expand _ _ => none
  | .substitute stack body =>
    match Template.expand policy lookup stack (splitDefault 0 body).1 with
    | .ok key => if String.ofList key ∈ stack then none else some (String.ofList key)
    | .error _ => none

/-- What a source knows of these keys. -/
def Lookup.part (find : String → Option String) (keys : List String) : Lookup where
  find key := if key ∈ keys then find key else none
  keys := keys
  mem_keys key h := by
    split at h
    · assumption
    · exact absurd h (by simp)

/-- Resolving the template with values from this source ends so. -/
def Resolves (policy : MissingPolicy) (find : String → Option String) (template : String)
    (outcome : Except TemplateError String) : Prop :=
  ∃ keys calls result, Runs policy (.part find keys) (.expand [] template.toList) calls result ∧
    (∀ call ∈ calls, ∀ key ∈ call.asks? policy (.part find keys), key ∈ keys) ∧
    outcome = String.ofList <$> result

section
variable {policy policy' : MissingPolicy} {lookup other : Lookup} {stack : List String}
  {body key : List Char} {call : Call} {calls : List Call} {outcome : Outcome}

theorem Call.asks?_of_key
    (hkey : Template.expand policy lookup stack (splitDefault 0 body).1 = .ok key)
    (hnew : String.ofList key ∉ stack) :
    (Call.substitute stack body).asks? policy lookup = some (String.ofList key) := by
  rw [asks?, hkey]
  exact if_neg hnew

/-- What a call asks for is seen on the key of its placeholder. -/
theorem Call.asks?_congr
    (h : Template.expand policy' other stack (splitDefault 0 body).1 =
      Template.expand policy lookup stack (splitDefault 0 body).1) :
    (Call.substitute stack body).asks? policy' other =
      (Call.substitute stack body).asks? policy lookup := by
  rw [asks?, asks?, h]

/-- A key without a value has ended it. -/
def Misses {α : Type} (outcome : Except TemplateError α) : Prop :=
  ∃ key, outcome = .error (.missing key)

/-- The other policy would have let it come to the same end. -/
def Spared {α : Type} (policy policy' : MissingPolicy) (outcome : Except TemplateError α) : Prop :=
  policy' = policy ∨ policy = .fail ∧ ¬ Misses outcome

theorem misses_map {α β : Type} {f : α → β} {outcome : Except TemplateError α} :
    Misses (f <$> outcome) ↔ Misses outcome := by
  constructor
  · rintro ⟨key, h⟩
    cases outcome with
    | ok _ => cases h
    | error _ => exact ⟨key, congrArg Except.error (Except.error.inj h)⟩
  · rintro ⟨key, rfl⟩
    exact ⟨key, rfl⟩

theorem not_misses_ok {α : Type} {value : α} :
    ¬ Misses (.ok value : Except TemplateError α) := by
  rintro ⟨_, h⟩
  cases h

theorem Spared.of_map {α β : Type} {f : α → β} {outcome : Except TemplateError α}
    (h : Spared policy policy' (f <$> outcome)) : Spared policy policy' outcome :=
  h.imp_right fun ⟨hfail, hpresent⟩ => ⟨hfail, fun hmisses => hpresent (misses_map.mpr hmisses)⟩

/-- What comes before the end, and ended well, is spared too. -/
theorem Spared.ok {α β : Type} {outcome : Except TemplateError α}
    (h : Spared policy policy' outcome) (value : β) :
    Spared policy policy' (.ok value : Except TemplateError β) :=
  h.imp_right fun ⟨hfail, _⟩ => ⟨hfail, not_misses_ok⟩

/-- The same calls are made with the other policy and lookup, they ask for the same keys, and the
outcome is the same. -/
structure Repeats (policy policy' : MissingPolicy) (lookup other : Lookup) (call : Call)
    (calls : List Call) (outcome : Outcome) : Prop where
  runs : Runs policy' other call calls outcome
  asks : ∀ made ∈ calls, made.asks? policy' other = made.asks? policy lookup

/-- A lookup that gives the same answers gives the same run, and so does the other policy
where nothing is missing. -/
theorem Runs.transfer (h : Runs policy lookup call calls outcome)
    (hspared : Spared policy policy' outcome)
    (hsame : ∀ made ∈ calls, ∀ key ∈ made.asks? policy lookup,
      other.find key = lookup.find key) :
    Repeats policy policy' lookup other call calls outcome := by
  induction h with
  | done h => exact ⟨.done h, by simp [Call.asks?]⟩
  | unclosed h => exact ⟨.unclosed h, by simp [Call.asks?]⟩
  | escaped h _ ih =>
    obtain ⟨hruns, hasks⟩ := ih hspared.of_map (List.forall_mem_cons.mp hsame).2
    exact ⟨.escaped h hruns, List.forall_mem_cons.mpr ⟨rfl, hasks⟩⟩
  | char h _ ih =>
    obtain ⟨hruns, hasks⟩ := ih hspared.of_map (List.forall_mem_cons.mp hsame).2
    exact ⟨.char h hruns, List.forall_mem_cons.mpr ⟨rfl, hasks⟩⟩
  | badBody h _ ih =>
    obtain ⟨hruns, hasks⟩ := ih hspared (List.forall_mem_cons.mp hsame).2
    exact ⟨.badBody h hruns, List.forall_mem_cons.mpr ⟨rfl, hasks⟩⟩
  | placeholder h _ _ ihbody ihafter =>
    obtain ⟨hbody, hafter⟩ := List.forall_mem_append.mp (List.forall_mem_cons.mp hsame).2
    obtain ⟨hruns, hasks⟩ := ihbody (hspared.ok _) hbody
    obtain ⟨hruns', hasks'⟩ := ihafter hspared.of_map hafter
    exact ⟨.placeholder h hruns hruns', List.forall_mem_cons.mpr
      ⟨rfl, List.forall_mem_append.mpr ⟨hasks, hasks'⟩⟩⟩
  | badKey hkey ih =>
    obtain ⟨hruns, hasks⟩ := ih hspared (List.forall_mem_cons.mp hsame).2
    have hself := Call.asks?_congr (hruns.run_eq.trans hkey.run_eq.symm)
    exact ⟨.badKey hruns, List.forall_mem_cons.mpr ⟨hself, hasks⟩⟩
  | circular hkey hmem ih =>
    obtain ⟨hruns, hasks⟩ := ih (hspared.ok _) (List.forall_mem_cons.mp hsame).2
    have hself := Call.asks?_congr (hruns.run_eq.trans hkey.run_eq.symm)
    exact ⟨.circular hruns hmem, List.forall_mem_cons.mpr ⟨hself, hasks⟩⟩
  | value hkey hnew hfind _ ihkey ihvalue =>
    obtain ⟨hasked, hrest⟩ := List.forall_mem_cons.mp hsame
    obtain ⟨hparts, hvalue⟩ := List.forall_mem_append.mp hrest
    obtain ⟨hruns, hasks⟩ := ihkey (hspared.ok _) hparts
    obtain ⟨hruns', hasks'⟩ := ihvalue hspared hvalue
    have hself := Call.asks?_congr (hruns.run_eq.trans hkey.run_eq.symm)
    have hanswer := hasked _ (Call.asks?_of_key hkey.run_eq hnew)
    exact ⟨.value hruns hnew (hanswer.trans hfind) hruns', List.forall_mem_cons.mpr
      ⟨hself, List.forall_mem_append.mpr ⟨hasks, hasks'⟩⟩⟩
  | fallback hkey hnew hfind hdefault _ ihkey ihfallback =>
    obtain ⟨hasked, hrest⟩ := List.forall_mem_cons.mp hsame
    obtain ⟨hparts, hfallback⟩ := List.forall_mem_append.mp hrest
    obtain ⟨hruns, hasks⟩ := ihkey (hspared.ok _) hparts
    obtain ⟨hruns', hasks'⟩ := ihfallback hspared hfallback
    have hself := Call.asks?_congr (hruns.run_eq.trans hkey.run_eq.symm)
    have hanswer := hasked _ (Call.asks?_of_key hkey.run_eq hnew)
    exact ⟨.fallback hruns hnew (hanswer.trans hfind) hdefault hruns', List.forall_mem_cons.mpr
      ⟨hself, List.forall_mem_append.mpr ⟨hasks, hasks'⟩⟩⟩
  | absent hkey hnew hfind hdefault ih =>
    -- the one place where the policies part
    obtain rfl | ⟨rfl, hpresent⟩ := hspared
    · obtain ⟨hasked, hrest⟩ := List.forall_mem_cons.mp hsame
      obtain ⟨hruns, hasks⟩ := ih (.inl rfl) hrest
      have hself := Call.asks?_congr (hruns.run_eq.trans hkey.run_eq.symm)
      have hanswer := hasked _ (Call.asks?_of_key hkey.run_eq hnew)
      exact ⟨.absent hruns hnew (hanswer.trans hfind) hdefault,
        List.forall_mem_cons.mpr ⟨hself, hasks⟩⟩
    · exact absurd ⟨_, rfl⟩ hpresent

end

-- ---------------------------------------------------------------------------
-- Sources and lookups
-- ---------------------------------------------------------------------------

section
variable {policy : MissingPolicy} {lookup : Lookup} {find : String → Option String}
  {template : String} {outcome other : Except TemplateError String}

theorem Lookup.find_part {keys : List String} {key : String} (h : key ∈ keys) :
    (Lookup.part find keys).find key = find key := if_pos h

/-- A lookup that answers like the source for certain keys gives what the source gives. -/
theorem Resolves.on (h : Resolves policy find template outcome) :
    ∃ keys : List String, ∀ lookup : Lookup,
      (∀ key ∈ keys, lookup.find key = find key) → resolve policy lookup template = outcome := by
  obtain ⟨keys, calls, result, hruns, hasked, rfl⟩ := h
  refine ⟨keys, fun lookup hsame => ?_⟩
  have hrepeats := hruns.transfer (.inl rfl) fun made hmade key hkey =>
    have hmem := hasked made hmade key hkey
    (hsame key hmem).trans (Lookup.find_part hmem).symm
  rw [resolve, ← hrepeats.runs.run_eq, Call.run]

theorem resolves_iff :
    Resolves policy lookup.find template outcome ↔ resolve policy lookup template = outcome := by
  constructor
  · intro h
    obtain ⟨keys, hon⟩ := h.on
    exact hon lookup fun _ _ => rfl
  · rintro rfl
    obtain ⟨calls, hruns⟩ := exists_runs policy lookup (.expand [] template.toList)
    have hmem : ∀ made ∈ calls, ∀ key ∈ made.asks? policy lookup,
        key ∈ calls.filterMap (Call.asks? policy lookup) :=
      fun made hmade key hkey => List.mem_filterMap.mpr ⟨made, hmade, hkey⟩
    have hsame : ∀ made ∈ calls, ∀ key ∈ made.asks? policy lookup,
        (Lookup.part lookup.find (calls.filterMap (Call.asks? policy lookup))).find key =
          lookup.find key :=
      fun made hmade key hkey => Lookup.find_part (hmem made hmade key hkey)
    have hrepeats := hruns.transfer (.inl rfl) hsame
    refine ⟨_, calls, _, hrepeats.runs, fun made hmade key hkey => ?_, rfl⟩
    rw [hrepeats.asks made hmade] at hkey
    exact hmem made hmade key hkey

theorem Resolves.unique (h : Resolves policy find template outcome)
    (h' : Resolves policy find template other) : outcome = other := by
  obtain ⟨keys, hon⟩ := h.on
  obtain ⟨keys', hon'⟩ := h'.on
  have hpart := hon (.part find (keys ++ keys')) fun _ hmem =>
    Lookup.find_part (List.mem_append_left _ hmem)
  have hpart' := hon' (.part find (keys ++ keys')) fun _ hmem =>
    Lookup.find_part (List.mem_append_right _ hmem)
  exact hpart.symm.trans hpart'

/-- With the lookup, these templates resolve as with the source, if they do with the source. -/
def Lookup.Serves (lookup : Lookup) (policy : MissingPolicy) (find : String → Option String)
    (templates : List String) : Prop :=
  ∀ template ∈ templates, ∀ outcome, Resolves policy find template outcome →
    resolve policy lookup template = outcome

theorem serves_self (policy : MissingPolicy) (lookup : Lookup) (templates : List String) :
    lookup.Serves policy lookup.find templates :=
  fun _ _ _ h => resolves_iff.mp h

/-- Every source has a part that serves for given templates. -/
theorem exists_serves (policy : MissingPolicy) (find : String → Option String)
    (templates : List String) :
    ∃ keys : List String, ∀ lookup : Lookup, (∀ key ∈ keys, lookup.find key = find key) →
      lookup.Serves policy find templates := by
  induction templates with
  | nil => exact ⟨[], fun lookup _ template hmem => absurd hmem (List.not_mem_nil)⟩
  | cons first rest ih =>
    obtain ⟨keys, hrest⟩ := ih
    by_cases hends : ∃ outcome, Resolves policy find first outcome
    · obtain ⟨outcome, hfirst⟩ := hends
      obtain ⟨more, hon⟩ := hfirst.on
      refine ⟨more ++ keys, fun lookup hsame => ?_⟩
      obtain ⟨hmore, hkeys⟩ := List.forall_mem_append.mp hsame
      refine List.forall_mem_cons.mpr ⟨fun other hother => ?_, hrest lookup hkeys⟩
      exact hother.unique hfirst ▸ hon lookup hmore
    · refine ⟨keys, fun lookup hsame => List.forall_mem_cons.mpr ⟨fun other hother => ?_, ?_⟩⟩
      · exact absurd ⟨other, hother⟩ hends
      · exact hrest lookup hsame

end

end Overlay.Template

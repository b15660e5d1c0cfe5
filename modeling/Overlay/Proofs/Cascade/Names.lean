import Mathlib.Data.List.Chain
import Overlay.Cascade
import Overlay.Proofs.Template.Sources

/-!
# The names of a cascade

The names are made by joining what the parameters resolve to, one after another, to
the base name (`names_of_texts`), unless a parameter cannot be resolved
(`names_of_error`). A name extends the one before by the separator and a text, and
both may be empty. Only where one of them is not do the names grow
(`isChain_joined_iff`) and differ from one another (`nodup_joined_iff`).
-/

namespace Overlay

open Template (MissingPolicy TemplateError Lookup Resolves)

/-- The name, and the names after it, each with one more text joined to it. -/
def joined (separator name : String) (texts : List String) : List String :=
  texts.scanl (fun name text => name ++ separator ++ text) name

/-- Something has been added at the end. -/
def Extends (longer shorter : String) : Prop := ∃ more, more ≠ "" ∧ longer = shorter ++ more

section
variable {expand : String → Except TemplateError String} {separator name text : String}
  {cascade : Cascade} {policy : MissingPolicy} {lookup : Lookup}
  {find : String → Option String} {base : String} {texts : List String}

theorem joined_cons : joined separator name (text :: texts) =
    name :: joined separator (name ++ separator ++ text) texts :=
  List.scanl_cons

theorem joined_eq_cons : joined separator name texts =
    name :: (joined separator name texts).tail := by
  cases texts with
  | nil => rfl
  | cons text texts => rw [joined_cons, List.tail_cons]

-- ---------------------------------------------------------------------------
-- Making the names
-- ---------------------------------------------------------------------------

theorem extendName_of_texts {parameters : List String}
    (h : List.Forall₂ (fun parameter text => expand parameter = .ok text) parameters texts) :
    extendName expand separator name parameters = .ok (joined separator name texts).tail := by
  induction h generalizing name with
  | nil => rfl
  | cons hfirst _ ih =>
    rw [extendName, hfirst, joined_cons, List.tail_cons, joined_eq_cons]
    simp only [bind, Except.bind, ih]
    rfl

/-- The first parameter that cannot be expanded decides. -/
theorem extendName_of_error {before rest : List String} {parameter : String}
    {error : TemplateError} (hbefore : ∀ other ∈ before, ∃ text, expand other = .ok text)
    (hfirst : expand parameter = .error error) :
    extendName expand separator name (before ++ parameter :: rest) = .error error := by
  induction before generalizing name with
  | nil =>
    rw [List.nil_append, extendName, hfirst]
    rfl
  | cons other before ih =>
    obtain ⟨⟨text, hother⟩, hbefore⟩ := List.forall_mem_cons.mp hbefore
    rw [List.cons_append, extendName, hother]
    simp only [bind, Except.bind, ih hbefore]

theorem names_of_texts (hserves : lookup.Serves policy find cascade.parameters)
    (htexts : List.Forall₂ (fun parameter text => Resolves policy find parameter (.ok text))
      cascade.parameters texts) :
    cascade.names policy lookup base = .ok (joined cascade.separator base texts) := by
  have hexpand : List.Forall₂
      (fun parameter text => Template.resolve policy lookup parameter = .ok text)
      cascade.parameters texts := by
    refine List.forall₂_iff_zip.mpr ⟨htexts.length_eq, fun hmem => ?_⟩
    have hresolves := (List.forall₂_iff_zip.mp htexts).2 hmem
    exact hserves _ (List.of_mem_zip hmem).1 _ hresolves
  rw [Cascade.names, extendName_of_texts hexpand, joined_eq_cons]
  rfl

theorem names_of_error (hserves : lookup.Serves policy find cascade.parameters)
    {before rest : List String} {parameter : String} {error : TemplateError}
    (hparameters : cascade.parameters = before ++ parameter :: rest)
    (hbefore : ∀ other ∈ before, ∃ text, Resolves policy find other (.ok text))
    (hfirst : Resolves policy find parameter (.error error)) :
    cascade.names policy lookup base = .error error := by
  rw [hparameters] at hserves
  obtain ⟨hserves, hserves'⟩ := List.forall_mem_append.mp hserves
  have hexpand : ∀ other ∈ before, ∃ text, Template.resolve policy lookup other = .ok text := by
    intro other hother
    obtain ⟨text, htext⟩ := hbefore other hother
    exact ⟨text, hserves other hother _ htext⟩
  have herror := hserves' parameter List.mem_cons_self _ hfirst
  rw [Cascade.names, hparameters, extendName_of_error hexpand herror]
  rfl

-- ---------------------------------------------------------------------------
-- Growing names
-- ---------------------------------------------------------------------------

theorem extends_append_iff : Extends (name ++ separator ++ text) name ↔
    separator ≠ "" ∨ text ≠ "" := by
  rw [← not_and_or, ← String.append_eq_empty_iff]
  constructor
  · rintro ⟨more, hmore, h⟩
    rw [String.append_assoc] at h
    exact (String.append_right_inj name).mp h ▸ hmore
  · intro hmore
    exact ⟨separator ++ text, hmore, String.append_assoc⟩

theorem Extends.length_lt {shorter longer : String} (h : Extends longer shorter) :
    shorter.length < longer.length := by
  obtain ⟨more, hmore, rfl⟩ := h
  rw [String.length_append]
  exact Nat.lt_add_of_pos_right (Nat.pos_of_ne_zero (mt String.length_eq_zero_iff.mp hmore))

theorem isChain_joined_iff :
    (joined separator name texts).IsChain (fun shorter longer => Extends longer shorter) ↔
      separator ≠ "" ∨ "" ∉ texts := by
  induction texts generalizing name with
  | nil => simp [joined]
  | cons text texts ih =>
    rw [joined_cons, joined_eq_cons, List.isChain_cons_cons, ← joined_eq_cons, ih,
      extends_append_iff, List.mem_cons, not_or, ← or_and_left, @eq_comm _ ""]

/-- Growing names differ, and of names that do not grow two neighbours are the same. -/
theorem nodup_joined_iff :
    (joined separator name texts).Nodup ↔ separator ≠ "" ∨ "" ∉ texts := by
  constructor
  · intro hnodup
    suffices h : (joined separator name texts).IsChain fun shorter longer =>
        Extends longer shorter from isChain_joined_iff.mp h
    induction texts generalizing name with
    | nil => exact .singleton name
    | cons text texts ih =>
      rw [joined_cons] at hnodup ⊢
      obtain ⟨hnew, hrest⟩ := List.nodup_cons.mp hnodup
      have hgrow := ih hrest
      rw [joined_eq_cons] at hnew hgrow ⊢
      refine .cons_cons (extends_append_iff.mpr ?_) hgrow
      rw [← not_and_or, ← String.append_eq_empty_iff]
      intro hempty
      apply hnew
      rw [String.append_assoc, hempty, String.append_empty]
      exact List.mem_cons_self
  · intro hgrow
    have hlengths : ((joined separator name texts).map String.length).IsChain (· < ·) :=
      (List.isChain_map _).mpr ((isChain_joined_iff.mpr hgrow).imp fun _ _ h => h.length_lt)
    have hdistinct := hlengths.pairwise.imp fun h => Nat.ne_of_lt h
    exact (List.pairwise_map.mp hdistinct).imp fun hne h => hne (congrArg _ h)

end

end Overlay

import Overlay.Proofs.Engine.Hearing

/-!
# Transitions and values

What a handle holds is compared between the moments before and after a move, and a
resolution at a new version may fail (`shift`). For values that `==` is an equality
of, these are the transitions that the handle makes (`Holding.move`); along a run the
values that transitions announce differ from one to the next, and the last of them
is what the handle holds (`Holding.announced`).
-/

namespace Overlay

variable {V : Type}

/-- On this type of values `==` is symmetric and transitive, as any comparison is meant to
be, and it is reflexive, as some are not. -/
structure Equality [BEq V] (type : V → Prop) : Prop where
  refl : ∀ {a}, type a → (a == a) = true
  symm : ∀ {a b}, type a → type b → (a == b) = true → (b == a) = true
  trans : ∀ {a b c}, type a → type b → type c → (a == b) = true → (b == c) = true →
    (a == c) = true

namespace Handle

/-- The values of the handle are of this type. -/
structure Typed (handle : Handle V) (type : V → Prop) : Prop where
  fallback : type handle.fallback
  decode : ∀ {text value}, handle.decode text = .ok value → type value

variable {handle other : Handle V} {type : V → Prop}

theorem Typed.of_bare (h : handle.Typed type) (hbare : other.bare = handle.bare) :
    other.Typed type := by
  have hfallback : other.fallback = handle.fallback := congrArg (·.fallback) hbare
  have hdecode : other.decode = handle.decode := congrArg (·.decode) hbare
  refine ⟨hfallback ▸ h.fallback, fun heq => ?_⟩
  rw [hdecode] at heq
  exact h.decode heq

theorem Typed.resolve (h : handle.Typed type) {policy : Template.MissingPolicy} {tree : Tree}
    {value : V} (hresolve : handle.resolve policy tree = .ok value) : type value := by
  rcases Handle.resolve_eq_ok_iff.mp hresolve with ⟨-, rfl⟩ | ⟨_, _, -, -, hdecode⟩
  · exact h.fallback
  · exact h.decode hdecode

end Handle

def Event.value? : Event V → Option V
  | .changed value => some value
  | .failed _ => none

/-- The values that these events announce. -/
def announced (events : List (Event V)) : List V := events.filterMap Event.value?

namespace Engine

variable [BEq V] {before middle after : Engine V} {id : HandleId} {type : V → Prop}
  {old : Cached V} {moves : List (Move V)}

/-- The value that the handle has come to hold, where it differs from the one before. -/
def change? (before after : Engine V) (id : HandleId) : Option V :=
  (before.cached? id).bind fun old => (after.cached? id).bind fun new =>
    if old.value != new.value then some new.value else none

omit [BEq V] in
/-- The handle has been resolved at a new version, and that failed. -/
def failure? (before after : Engine V) (id : HandleId) : Option PropertyError :=
  (before.resolution? after id).bind fun
    | .error error => some error
    | .ok _ => none

def shift (before after : Engine V) (id : HandleId) : List (Event V) :=
  ((before.change? after id).map Event.changed).toList ++
    ((before.failure? after id).map Event.failed).toList

def shifts (engine : Engine V) (id : HandleId) (moves : List (Move V)) : List (Event V) :=
  engine.record (fun before _ after => before.shift after id) moves

/-- A move leaves a handle as it was, or ends with the reading of it at a version that
it has not seen. -/
theorem Does.cached_cases (h : before.Does after) (id : HandleId) :
    after.cached? id = before.cached? id ∨ ∃ middle handle registry,
      before.Retains middle ∧ middle.cached? id = before.cached? id ∧
      middle.handleAt? id = some handle ∧ middle.registryAt? handle.registry = some registry ∧
      handle.isCurrent (middle.forest.version registry.root) = false ∧
      after = middle.refreshHandle id := by
  obtain ⟨middle, hwork, hafter⟩ := h
  have hspares := hwork.spares
  rcases hafter with rfl | ⟨read, rfl⟩
  · exact .inl (hspares.cached id)
  · by_cases hread : id = read
    · subst hread
      cases hreading : middle.reading? id with
      | none =>
        left
        rw [refreshHandle_of_none hreading]
        exact hspares.cached id
      | some reading =>
        obtain ⟨handle, registry, hhandle, hregistry, rfl⟩ := reading?_eq_some.mp hreading
        cases hcurrent : handle.isCurrent (middle.forest.version registry.root) with
        | false =>
          exact .inr ⟨middle, handle, registry, hspares.toRetains, hspares.cached id, hhandle,
            hregistry, hcurrent, rfl⟩
        | true =>
          left
          rw [cached?_refreshHandle hreading, Handle.read_of_isCurrent hcurrent,
            ← hspares.cached id, cached?, hhandle]
          rfl
    · exact .inl (((retains_refreshHandle middle read).2 id hread).trans (hspares.cached id))

/-- The handle holds this, and its values are of the type. -/
structure Holding (engine : Engine V) (id : HandleId) (type : V → Prop) (content : Cached V) :
    Prop where
  cached : engine.cached? id = some content
  handle : ∃ handle, engine.handleAt? id = some handle ∧ handle.Typed type
  value : type content.value

/-- A handle holds what it held, or comes to hold what resolving it gives, or goes on
with its value because that failed. -/
theorem Holding.move (h : before.Holding id type old) (hequality : Equality type)
    (hdoes : before.Does after) : ∃ new, after.Holding id type new ∧
      before.shift after id = (before.event? after id).toList ∧
      (before.event? after id = none ∧ (old.value == new.value) = true ∨
        (∃ error, before.event? after id = some (.failed error) ∧ new.value = old.value) ∨
        before.event? after id = some (.changed new.value) ∧ (old.value != new.value) = true) := by
  obtain ⟨handle, hhandle, htyped⟩ := h.handle
  obtain ⟨next, hnext, hbare⟩ := hdoes.retains.handle id handle hhandle
  have hrefl := hequality.refl h.value
  rcases hdoes.cached_cases id with hsame | ⟨middle, found, registry, hretains, hsame, hfound,
    hregistry, hstale, rfl⟩
  · refine ⟨old, ⟨hsame.trans h.cached, ⟨next, hnext, htyped.of_bare hbare⟩, h.value⟩, ?_, .inl ?_⟩
    · rw [shift, change?, hsame, h.cached, failure?, resolution?_of_cached_eq hsame,
        event?_of_cached_eq hsame]
      simp [bne, hrefl]
    · exact ⟨event?_of_cached_eq hsame, hrefl⟩
  · have hreading := reading?_eq_some.mpr ⟨found, registry, hfound, hregistry, rfl⟩
    have hcached := (cached?_refreshHandle hreading).trans (Handle.cached_read hstale)
    have hresolution := resolution?_refreshHandle hsame hfound hregistry hstale
    have hfoundTyped : found.Typed type := by
      obtain ⟨other, hother, hbare⟩ := hretains.handle id handle hhandle
      obtain rfl := Option.some.inj (hfound.symm.trans hother)
      exact htyped.of_bare hbare
    have hheld : found.held = old.value := by
      obtain ⟨other, hother, hold⟩ := cached?_eq_some.mp (hsame.trans h.cached)
      obtain rfl := Option.some.inj (hfound.symm.trans hother)
      rw [Handle.held, hold]
    rw [hheld] at hcached
    refine ⟨_, ⟨hcached, ⟨next, hnext, htyped.of_bare hbare⟩, ?_⟩, ?_⟩
    · cases hresolve : found.resolve registry.policy (middle.forest.tree registry.root) with
      | error _ => exact h.value
      | ok _ => exact hfoundTyped.resolve hresolve
    · rw [shift, change?, failure?, event?, hresolution, h.cached, hcached]
      cases found.resolve registry.policy (middle.forest.tree registry.root) with
      | error error =>
        refine ⟨?_, .inr (.inl ⟨error, rfl, rfl⟩)⟩
        simp [bne, hrefl, Except.toOption]
      | ok value =>
        cases hequal : old.value == value with
        | true => simp [bne, hequal, Except.toOption]
        | false => simp [bne, hequal, Except.toOption]

/-- Along a run the transitions are what the comparison of values and the failures say. -/
theorem Holding.shifts_eq (h : before.Holding id type old) (hequality : Equality type)
    (hplay : before.play? moves = some after) :
    before.shifts id moves = before.events id moves := by
  induction moves generalizing before old with
  | nil => rfl
  | cons move rest ih =>
    obtain ⟨next, hnext, hrest⟩ := play?_cons_eq_some.mp hplay
    obtain ⟨new, hholding, hshift, -⟩ := h.move hequality (does_of_move? hnext)
    have hlater := ih hholding hrest
    rw [shifts, events] at hlater
    rw [shifts, events, record_cons hnext, record_cons hnext, hshift, hlater]

/-- What is announced differs from what was announced before, and the last of it, if
there is any, is what the handle holds. -/
theorem Holding.announced_from (h : before.Holding id type old) (hequality : Equality type)
    (hplay : before.play? moves = some after) {value : V} (hvalue : type value)
    (hequal : (value == old.value) = true) : ∃ last, after.Holding id type last ∧
      (value :: announced (before.events id moves)).IsChain (fun a b => (a != b) = true) ∧
      ((announced (before.events id moves)).getLast?.getD value == last.value) = true := by
  induction moves generalizing before old value with
  | nil =>
    obtain rfl := Option.some.inj hplay
    exact ⟨old, h, .singleton value, hequal⟩
  | cons move rest ih =>
    obtain ⟨next, hnext, hrest⟩ := play?_cons_eq_some.mp hplay
    obtain ⟨new, hholding, -, hcases⟩ := h.move hequality (does_of_move? hnext)
    rw [events, record_cons hnext, announced, List.filterMap_append]
    rcases hcases with ⟨hevent, hsame⟩ | ⟨error, hevent, hsame⟩ | ⟨hevent, hdiffers⟩
    · rw [hevent]
      exact ih hholding hrest hvalue (hequality.trans hvalue h.value hholding.value hequal hsame)
    · rw [hevent]
      exact ih hholding hrest hvalue (hsame ▸ hequal)
    · rw [hevent]
      obtain ⟨last, hlast, hchain, hheld⟩ :=
        ih hholding hrest hholding.value (hequality.refl hholding.value)
      refine ⟨last, hlast, .cons_cons ?_ hchain, ?_⟩
      · -- the value announced before equals the old one, which differs from the new
        cases hnew : value == new.value with
        | false => simp [bne, hnew]
        | true =>
          have hback := hequality.symm hvalue h.value hequal
          have hthrough := hequality.trans h.value hvalue hholding.value hback hnew
          simp [bne, hthrough] at hdiffers
      · rw [← hheld]
        exact congrArg (fun last => last.getD value == _) List.getLast?_cons

-- ---------------------------------------------------------------------------
-- Every handle
-- ---------------------------------------------------------------------------

/-- If the handle's values are of the type, so is the one that it holds. -/
def WellTyped (engine : Engine V) (id : HandleId) (type : V → Prop) : Prop :=
  ∀ handle content, engine.handleAt? id = some handle → handle.Typed type →
    engine.cached? id = some content → type content.value

theorem WellTyped.does (h : before.WellTyped id type) (hdoes : before.Does after) :
    after.WellTyped id type := by
  intro handle content hhandle htyped hcached
  rcases hdoes.cached_cases id with hsame | ⟨middle, found, registry, hretains, hsame, hfound,
    hregistry, hstale, rfl⟩
  · rw [hsame] at hcached
    obtain ⟨old, hold, -⟩ := cached?_eq_some.mp hcached
    obtain ⟨next, hnext, hbare⟩ := hdoes.retains.handle id old hold
    obtain rfl := Option.some.inj (hhandle.symm.trans hnext)
    exact h old content hold (htyped.of_bare hbare.symm) hcached
  · have hreading := reading?_eq_some.mpr ⟨found, registry, hfound, hregistry, rfl⟩
    have hread := (cached?_refreshHandle hreading).trans (Handle.cached_read hstale)
    obtain ⟨next, hnext, hbare⟩ := (retains_refreshHandle middle id).1.handle id found hfound
    obtain rfl := Option.some.inj (hhandle.symm.trans hnext)
    obtain rfl := Option.some.inj (hread.symm.trans hcached)
    have hfoundTyped : found.Typed type := htyped.of_bare hbare.symm
    cases hresolve : found.resolve registry.policy (middle.forest.tree registry.root) with
    | ok value => exact hfoundTyped.resolve hresolve
    | error error =>
      show type found.held
      cases hold : found.cached with
      | none =>
        rw [Handle.held, hold]
        exact hfoundTyped.fallback
      | some kept =>
        have hkept : before.cached? id = some kept :=
          hsame.symm.trans (cached?_eq_some.mpr ⟨found, hfound, hold⟩)
        obtain ⟨old, hhandle, -⟩ := cached?_eq_some.mp hkept
        obtain ⟨other, hother, hsame⟩ := hretains.handle id old hhandle
        obtain rfl := Option.some.inj (hfound.symm.trans hother)
        rw [Handle.held, hold]
        exact h old kept hhandle (hfoundTyped.of_bare hsame.symm) hkept

/-- After every run a handle holds something, which is of its type. -/
theorem holding_of_play? {engine : Engine V} {handle : Handle V}
    (hplay : ({} : Engine V).play? moves = some engine)
    (hhandle : engine.handleAt? id = some handle) (htyped : handle.Typed type) :
    ∃ content, engine.Holding id type content := by
  have hwell : engine.WellTyped id type := by
    refine play?_induction (motive := (WellTyped · id type)) hplay ?_ fun hwell hmove => ?_
    · exact fun handle _ h _ _ => absurd h (by simp [handleAt?])
    · exact WellTyped.does hwell (does_of_move? hmove)
  have hread := (tidy_of_play? hplay).read id (Option.isSome_of_eq_some hhandle)
  obtain ⟨content, hcontent⟩ := Option.isSome_iff_exists.mp hread
  exact ⟨content, hcontent, ⟨handle, hhandle, htyped⟩, hwell handle content hhandle htyped hcontent⟩

end Engine

end Overlay

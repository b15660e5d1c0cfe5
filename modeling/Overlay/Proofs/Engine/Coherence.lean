import Overlay.Proofs.Engine.Handles
import Overlay.Proofs.Engine.Versions
import Overlay.Proofs.Except

/-!
# Handles and the tree

Reading a handle compares versions and looks at the tree only when they differ.
`Coherent` is why that is enough: what a handle holds was resolved at an earlier
moment, and its cached version is the root's version then. Every run keeps it
(`Coherent.play`), and between operations the tree is the one of that version
(`Coherent.held_of_isCurrent`).
-/

namespace Overlay

/-- The value of the latest success, and at first the fallback. -/
def lastGood {ε V : Type} (fallback : V) (outcomes : List (Except ε V)) : V :=
  ((outcomes.filterMap Except.toOption).getLast?).getD fallback

theorem lastGood_concat {ε V : Type} (fallback : V) (outcomes : List (Except ε V))
    (outcome : Except ε V) : lastGood fallback (outcomes ++ [outcome]) =
      outcome.toOption.getD (lastGood fallback outcomes) := by
  cases outcome with
  | error _ => simp [lastGood, Except.toOption]
  | ok _ => simp [lastGood, Except.toOption]

namespace Handle

variable {V : Type} [BEq V] {handle : Handle V} {policy : Template.MissingPolicy} {version : Nat}
  {tree : Tree}

theorem read_of_isCurrent (h : handle.isCurrent version = true) :
    (handle.read policy version tree).handle = handle := by
  rw [read, if_pos h]

theorem cached_read (h : handle.isCurrent version = false) :
    (handle.read policy version tree).handle.cached =
      some ⟨version, (handle.resolve policy tree).toOption.getD handle.held⟩ := by
  rw [read, if_neg (by simp [h])]
  cases handle.resolve policy tree with
  | error _ => rfl
  | ok _ => rfl

theorem isCurrent_read (handle : Handle V) (policy : Template.MissingPolicy) (version : Nat)
    (tree : Tree) : (handle.read policy version tree).handle.isCurrent version = true := by
  cases hcurrent : handle.isCurrent version with
  | true => rw [read_of_isCurrent hcurrent, hcurrent]
  | false =>
    rw [isCurrent, cached_read hcurrent]
    exact decide_eq_true (Nat.le_refl _)

omit [BEq V] in
/-- A handle resolves to its fallback while its key is unset, and else to what the text of the key,
expanded, is decoded as. -/
theorem resolve_eq_ok_iff {value : V} : handle.resolve policy tree = .ok value ↔
    tree.get? handle.key = none ∧ handle.fallback = value ∨
      ∃ raw text, tree.get? handle.key = some raw ∧
        Template.resolve policy tree.lookup raw = .ok text ∧ handle.decode text = .ok value := by
  unfold resolve
  cases hraw : tree.get? handle.key with
  | none => simp
  | some raw =>
    cases htext : Template.resolve policy tree.lookup raw with
    | error error => simp [htext]
    | ok text => simp [htext, Except.mapError_eq_ok_iff]

omit [BEq V] in
theorem resolve_eq_error_iff {error : PropertyError} : handle.resolve policy tree = .error error ↔
    ∃ raw, tree.get? handle.key = some raw ∧
      ((∃ fault, Template.resolve policy tree.lookup raw = .error fault ∧
          .unresolvable handle.key fault = error) ∨
        ∃ text fault, Template.resolve policy tree.lookup raw = .ok text ∧
          handle.decode text = .error fault ∧ .undecodable handle.key fault = error) := by
  unfold resolve
  cases hraw : tree.get? handle.key with
  | none => simp
  | some raw =>
    cases htext : Template.resolve policy tree.lookup raw with
    | error error => simp [htext]
    | ok text => simp [htext, Except.mapError_eq_error_iff]

omit [BEq V] in
theorem exists_of_isCurrent (h : handle.isCurrent version = true) :
    ∃ cached, handle.cached = some cached ∧ version ≤ cached.version := by
  unfold isCurrent at h
  split at h
  · rename_i cached hcached
    exact ⟨cached, hcached, of_decide_eq_true h⟩
  · exact absurd h (by simp)

end Handle

namespace Engine

variable {V : Type} {engine before middle after : Engine V} {id : HandleId}
  {outcomes : List (Except PropertyError V)}

/-- The handle holds the latest success of these resolutions, and made the last
of them when its root had the version that it keeps. -/
structure Coherent (engine : Engine V) (id : HandleId)
    (outcomes : List (Except PropertyError V)) : Prop where
  unread : engine.cached? id = none → outcomes = []
  read : ∀ cached, engine.cached? id = some cached → ∃ handle registry,
    engine.handleAt? id = some handle ∧ engine.registryAt? handle.registry = some registry ∧
    cached.value = lastGood handle.fallback outcomes ∧
    ∃ start : Engine V, start.Sound ∧ start.Since engine ∧ start.forest.Has registry.root ∧
      start.forest.version registry.root = cached.version ∧
      outcomes.getLast? = some (handle.resolve registry.policy (start.forest.tree registry.root))

theorem coherent_empty (id : HandleId) : ({} : Engine V).Coherent id [] :=
  ⟨fun _ => rfl, fun cached h => absurd h (by simp [cached?, handleAt?])⟩

theorem Coherent.retain (h : before.Coherent id outcomes) (hretains : before.Retains after)
    (hsince : before.Since after) (hcached : after.cached? id = before.cached? id) :
    after.Coherent id outcomes where
  unread hnone := h.unread (hcached ▸ hnone)
  read cached hsome := by
    obtain ⟨handle, registry, hhandle, hregistry, hvalue, start, hsound, hstart, hhas, hversion,
      hlast⟩ := h.read cached (hcached ▸ hsome)
    obtain ⟨next, home, hnext, hhome, hfallback, hroot, hresolve⟩ :=
      hretains.resolves hhandle hregistry
    refine ⟨next, home, hnext, hhome, hfallback ▸ hvalue, start, hsound, hstart.trans hsince,
      hroot ▸ hhas, hroot ▸ hversion, ?_⟩
    rw [hresolve, hroot]
    exact hlast

theorem Coherent.held_eq (h : engine.Coherent id outcomes) {handle : Handle V}
    (hhandle : engine.handleAt? id = some handle) :
    handle.held = lastGood handle.fallback outcomes := by
  unfold Handle.held
  cases hcached : handle.cached with
  | none => rw [h.unread (by simp [cached?, hhandle, hcached])]; rfl
  | some cached =>
    obtain ⟨found, _, hfound, -, hvalue, -⟩ :=
      h.read cached (cached?_eq_some.mpr ⟨handle, hhandle, hcached⟩)
    obtain rfl := Option.some.inj (hhandle.symm.trans hfound)
    exact hvalue

variable [BEq V]

/-- A handle that is read at a new version is resolved in the tree of that version. -/
theorem Coherent.refresh (h : engine.Coherent id outcomes) (hsound : engine.Sound)
    {handle : Handle V} {registry : Registry V} (hhandle : engine.handleAt? id = some handle)
    (hregistry : engine.registryAt? handle.registry = some registry)
    (hstale : handle.isCurrent (engine.forest.version registry.root) = false) :
    (engine.refreshHandle id).Coherent id
      (outcomes ++ [handle.resolve registry.policy (engine.forest.tree registry.root)]) := by
  have hreading := reading?_eq_some.mpr ⟨handle, registry, hhandle, hregistry, rfl⟩
  have hcached := (cached?_refreshHandle hreading).trans (Handle.cached_read hstale)
  obtain ⟨next, home, hnext, hhome, hfallback, hroot, hresolve⟩ :=
    (retains_refreshHandle engine id).1.resolves hhandle hregistry
  refine ⟨fun hnone => absurd (hnone.symm.trans hcached) (by simp), fun cached hsome => ?_⟩
  obtain rfl := Option.some.inj (hcached.symm.trans hsome)
  refine ⟨next, home, hnext, hhome, ?_, engine, hsound, (keeps_refreshHandle hsound id).since, ?_,
    ?_, ?_⟩
  · rw [lastGood_concat, hfallback, h.held_eq hhandle]
  · exact hroot ▸ hsound.rooted registry (List.mem_of_getElem? hregistry)
  · rw [hroot]
  · rw [hresolve, hroot, List.getLast?_concat]

theorem resolution?_refreshHandle {handle : Handle V} {registry : Registry V}
    (hsame : middle.cached? id = before.cached? id) (hhandle : middle.handleAt? id = some handle)
    (hregistry : middle.registryAt? handle.registry = some registry)
    (hstale : handle.isCurrent (middle.forest.version registry.root) = false) :
    before.resolution? (middle.refreshHandle id) id =
      some (handle.resolve registry.policy (middle.forest.tree registry.root)) := by
  have hreading := reading?_eq_some.mpr ⟨handle, registry, hhandle, hregistry, rfl⟩
  have hcached := (cached?_refreshHandle hreading).trans (Handle.cached_read hstale)
  obtain ⟨next, home, hnext, hhome, -, hroot, hresolve⟩ :=
    (retains_refreshHandle middle id).1.resolves hhandle hregistry
  rw [resolution?, hcached, ← hsame, if_neg, fresh?_of_handle hnext hhome, hresolve, hroot,
    forest_refreshHandle]
  -- a cached value of this version would have been current
  intro hversion
  cases hold : handle.cached with
  | none => simp [cached?, hhandle, hold] at hversion
  | some cached =>
    simp [cached?, hhandle, hold] at hversion
    simp [Handle.isCurrent, hold, hversion] at hstale

theorem Coherent.does (h : before.Coherent id outcomes) (hsound : before.Sound)
    (hdoes : before.Does after) :
    after.Coherent id (outcomes ++ (before.resolution? after id).toList) := by
  obtain ⟨middle, hwork, hafter⟩ := hdoes
  have hspares := hwork.spares
  have hkeeps := hwork.keeps hsound
  have hmiddle := h.retain hspares.toRetains hkeeps.since (hspares.cached id)
  -- without a resolution the handle stays as the work has left it
  have hsame : middle.Retains after → middle.Since after → after.cached? id = middle.cached? id →
      after.Coherent id (outcomes ++ (before.resolution? after id).toList) := by
    intro hretains hsince hcached
    rw [resolution?_of_cached_eq (hcached.trans (hspares.cached id)), Option.toList_none,
      List.append_nil]
    exact hmiddle.retain hretains hsince hcached
  rcases hafter with rfl | ⟨other, rfl⟩
  · exact hsame (spares_of_eq rfl rfl).toRetains (.refl _) rfl
  · have hretains := retains_refreshHandle middle other
    have hsince := (keeps_refreshHandle hkeeps.sound other).since
    by_cases hother : id = other
    · subst hother
      cases hreading : middle.reading? id with
      | none =>
        refine hsame hretains.1 hsince ?_
        rw [refreshHandle_of_none hreading]
      | some reading =>
        obtain ⟨handle, registry, hhandle, hregistry, hread⟩ := reading?_eq_some.mp hreading
        cases hcurrent : handle.isCurrent (middle.forest.version registry.root) with
        | true =>
          refine hsame hretains.1 hsince ?_
          rw [cached?_refreshHandle hreading, ← hread, Handle.read_of_isCurrent hcurrent, cached?,
            hhandle]
          rfl
        | false =>
          rw [resolution?_refreshHandle (hspares.cached id) hhandle hregistry hcurrent]
          exact hmiddle.refresh hkeeps.sound hhandle hregistry hcurrent
    · exact hsame hretains.1 hsince (hretains.2 id hother)

theorem Coherent.play {moves : List (Move V)} (h : before.Coherent id outcomes)
    (hsound : before.Sound) (hplay : before.play? moves = some after) :
    after.Coherent id (outcomes ++ before.resolutions id moves) := by
  induction moves generalizing before outcomes with
  | nil =>
    obtain rfl := Option.some.inj hplay
    rwa [resolutions, List.append_nil]
  | cons move rest ih =>
    obtain ⟨next, hnext, hrest⟩ := play?_cons_eq_some.mp hplay
    have hdoes := does_of_move? hnext
    have hfinish := ih (h.does hsound hdoes) (hdoes.keeps hsound).sound hrest
    rw [resolutions, hnext, ← List.append_assoc]
    exact hfinish

-- ---------------------------------------------------------------------------
-- Reading
-- ---------------------------------------------------------------------------

theorem read_eq {handle : Handle V} {registry : Registry V}
    (hhandle : engine.handleAt? id = some handle)
    (hregistry : engine.registryAt? handle.registry = some registry) :
    (engine.read id).1 = some (handle.read registry.policy
      (engine.forest.version registry.root) (engine.forest.tree registry.root)).handle.held := by
  have hreading := reading?_eq_some.mpr ⟨handle, registry, hhandle, hregistry, rfl⟩
  simp only [Engine.read, handleAt?_refreshHandle hreading, Option.map_some]

omit [BEq V] in
/-- Between operations the version of a handle's root stands for the tree that the handle was last
resolved in, so that a current handle holds what came of resolving it in the tree there is. -/
theorem Coherent.held_of_isCurrent (h : engine.Coherent id outcomes) (hsound : engine.Sound)
    (hidle : engine.isIdle) (hacyclic : engine.forest.Acyclic) {handle : Handle V}
    {registry : Registry V} (hhandle : engine.handleAt? id = some handle)
    (hregistry : engine.registryAt? handle.registry = some registry)
    (hholds : engine.Holds registry.root)
    (hcurrent : handle.isCurrent (engine.forest.version registry.root) = true) :
    handle.held = (handle.resolve registry.policy
      (engine.forest.tree registry.root)).toOption.getD (lastGood handle.fallback outcomes) := by
  obtain ⟨cached, hcached, hle⟩ := Handle.exists_of_isCurrent hcurrent
  obtain ⟨_, _, hfound, hhome, hvalue, start, hstart, hsince, hhas, hversion, hlast⟩ :=
    h.read cached (cached?_eq_some.mpr ⟨handle, hhandle, hcached⟩)
  obtain rfl := Option.some.inj (hhandle.symm.trans hfound)
  obtain rfl := Option.some.inj (hregistry.symm.trans hhome)
  have hstands : engine.forest.version registry.root = start.forest.version registry.root :=
    Nat.le_antisymm (hversion ▸ hle) (hsince.version _)
  have htree : engine.forest.tree registry.root = start.forest.tree registry.root :=
    hsince.tree_eq hstart.linked hsound.linked hidle hacyclic hhas (hsound.live hholds) hstands
  obtain ⟨earlier, heq⟩ := List.getLast?_eq_some_iff.mp hlast
  rw [Handle.held, hcached, htree]
  dsimp only
  rw [hvalue, heq, lastGood_concat]
  cases handle.resolve registry.policy (start.forest.tree registry.root) with
  | ok value => rfl
  | error _ => rfl

theorem Coherent.read_eq_getD (h : engine.Coherent id outcomes) (hsound : engine.Sound)
    (hidle : engine.isIdle) (hacyclic : engine.forest.Acyclic) {handle : Handle V}
    {registry : Registry V} (hhandle : engine.handleAt? id = some handle)
    (hregistry : engine.registryAt? handle.registry = some registry)
    (hholds : engine.Holds registry.root) :
    (engine.read id).1 = some ((handle.resolve registry.policy
      (engine.forest.tree registry.root)).toOption.getD (lastGood handle.fallback outcomes)) := by
  rw [read_eq hhandle hregistry]
  cases hcurrent : handle.isCurrent (engine.forest.version registry.root) with
  | false => rw [Handle.held, Handle.cached_read hcurrent, h.held_eq hhandle]
  | true =>
    rw [Handle.read_of_isCurrent hcurrent,
      h.held_of_isCurrent hsound hidle hacyclic hhandle hregistry hholds hcurrent]

end Engine

end Overlay

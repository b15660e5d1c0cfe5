import Mathlib
import Overlay.Proofs.Engine.Coherence

/-!
# Reading between operations

Between operations a version that has not moved stands for a tree that has not
changed, so that reading a handle gives what resolving it anew would, or what it
held when that fails (`read_eq_resolve`).
-/

namespace Overlay.Engine

variable {V : Type} {engine : Engine V} {id : HandleId}

/-- Whoever holds a handle, or can still request it, can get at its tree. -/
theorem holds_root {handle : Handle V} {registry : Registry V}
    (hhandle : engine.handleAt? id = some handle)
    (hregistry : engine.registryAt? handle.registry = some registry)
    (h : .handle id ∈ engine.anchors ∨ registry.closed = false) : engine.Holds registry.root := by
  refine ⟨registry.root, mem_held.mpr (.inr ?_), .refl⟩
  rcases h with hanchor | hopen
  · refine .inl ⟨id, hanchor, mem_handleRoot.mpr ⟨handle, hhandle, ?_⟩⟩
    simp [root, hregistry]
  · exact .inr ⟨registry, List.mem_of_getElem? hregistry, hopen, rfl⟩

/-- Between operations, reading a handle over an acyclic tree gives what resolving
it anew gives: the fallback while its key is unset, and else the value of the key's
text, expanded and decoded. When one of these fails, it gives the value of the latest
earlier resolution that did not. The registry may announce changes itself or leave
that to the reader, and it may be closed (`holds_root`); the notifier may have run at
any moment, or never. -/
theorem read_eq_resolve [BEq V] {moves : List (Move V)} {handle : Handle V} {registry : Registry V}
    (hplay : ({} : Engine V).play? moves = some engine) (hidle : engine.isIdle)
    (hacyclic : engine.forest.Acyclic) (hhandle : engine.handleAt? id = some handle)
    (hregistry : engine.registryAt? handle.registry = some registry)
    (hholds : engine.Holds registry.root) :
    (engine.read id).1 = some
        ((handle.resolve registry.policy (engine.forest.tree registry.root)).toOption.getD
          (lastGood handle.fallback (({} : Engine V).resolutions id moves))) ∧
      ((engine.forest.tree registry.root).get? handle.key = none →
        (engine.read id).1 = some handle.fallback) ∧
      ∀ raw, (engine.forest.tree registry.root).get? handle.key = some raw →
        (∀ text value,
            Template.resolve registry.policy (engine.forest.tree registry.root).lookup raw =
              .ok text → handle.decode text = .ok value → (engine.read id).1 = some value) ∧
        ((∀ text,
            Template.resolve registry.policy (engine.forest.tree registry.root).lookup raw =
              .ok text → ∃ fault, handle.decode text = .error fault) →
          (engine.read id).1 =
            some (lastGood handle.fallback (({} : Engine V).resolutions id moves))) := by
  have hsound : engine.Sound := (keeps_of_play? hplay sound_empty).sound
  have hcoherent : engine.Coherent id (({} : Engine V).resolutions id moves) :=
    (coherent_empty id).play sound_empty hplay
  rw [hcoherent.read_eq_getD hsound hidle hacyclic hhandle hregistry hholds]
  refine ⟨rfl, fun hunset => ?unset, fun raw hraw => ⟨fun text value htext hdecode => ?decoded,
    fun hfails => ?failed⟩⟩
  case unset =>
    rw [Handle.resolve_eq_ok_iff.mpr (.inl ⟨hunset, rfl⟩)]
    rfl
  case decoded =>
    rw [Handle.resolve_eq_ok_iff.mpr (.inr ⟨raw, text, hraw, htext, hdecode⟩)]
    rfl
  case failed =>
    -- the text of the key cannot be expanded, or what comes of it cannot be decoded
    cases htext : Template.resolve registry.policy
        (engine.forest.tree registry.root).lookup raw with
    | error fault =>
      rw [Handle.resolve_eq_error_iff.mpr ⟨raw, hraw, .inl ⟨fault, htext, rfl⟩⟩]
      rfl
    | ok text =>
      obtain ⟨fault, hdecode⟩ := hfails text htext
      rw [Handle.resolve_eq_error_iff.mpr ⟨raw, hraw, .inr ⟨text, fault, htext, hdecode, rfl⟩⟩]
      rfl

/-- A key is set after a handle for it has been made. -/
def lateKey : List (Move Nat) :=
  leafInRoot .empty ++ [.call (.openRegistry 1 .fail "," false),
    .call (.request 0 "key" "number" 5 fun text =>
      if text = "seven" then .ok 7 else .error ⟨text, "number", .custom "unknown number"⟩),
    .call (.edit 0 (.set "key" "seven")), .step, .step, .step]

/-- Then the handle is read, and the key is set to what the handle cannot decode. -/
def brokenKey : List (Move Nat) :=
  lateKey ++ [.call (.read 0), .call (.edit 0 (.set "key" "broken")), .step, .step, .step]

/-- What is decided of a run, of the handle that it makes and of the open registry of the handle. -/
theorem exists_of_check (moves : List (Move Nat))
    (check : Engine Nat → Handle Nat → Registry Nat → Bool)
    (h : (({} : Engine Nat).play? moves).any (fun (engine : Engine Nat) => engine.isIdle &&
      decide (∀ parent ∈ List.range engine.forest.nodes.length,
        ∀ child ∈ engine.forest.children parent, child.node < parent) &&
      (engine.handleAt? 0).any fun handle =>
        (engine.registryAt? handle.registry).any fun registry =>
          !registry.closed && check engine handle registry) = true) :
    ∃ engine handle registry, ({} : Engine Nat).play? moves = some engine ∧ engine.isIdle ∧
      engine.forest.Acyclic ∧ engine.handleAt? 0 = some handle ∧
      engine.registryAt? handle.registry = some registry ∧ engine.Holds registry.root ∧
      check engine handle registry = true := by
  simp only [Option.any_eq_true, Bool.and_eq_true, Bool.not_eq_true', decide_eq_true_eq] at h
  obtain ⟨engine, hplay, ⟨hidle, hbelow⟩, handle, hhandle, registry, hregistry, hopen, hcheck⟩ := h
  exact ⟨engine, handle, registry, hplay, hidle, Forest.acyclic_of_lt hbelow, hhandle, hregistry,
    holds_root hhandle hregistry (.inr hopen), hcheck⟩

/-- The handle holds its fallback when it is read for the first time. When the text breaks it keeps
what that reading has given. -/
theorem read_eq_resolve_lateKey :
    (∃ engine handle registry, ({} : Engine Nat).play? lateKey = some engine ∧ engine.isIdle ∧
      engine.forest.Acyclic ∧ engine.handleAt? 0 = some handle ∧
      engine.registryAt? handle.registry = some registry ∧ engine.Holds registry.root ∧
      (engine.forest.tree registry.root).get? handle.key = some "seven" ∧ handle.held = 5 ∧
      (engine.read 0).1 = some 7) ∧
    ∃ engine handle registry, ({} : Engine Nat).play? brokenKey = some engine ∧ engine.isIdle ∧
      engine.forest.Acyclic ∧ engine.handleAt? 0 = some handle ∧
      engine.registryAt? handle.registry = some registry ∧ engine.Holds registry.root ∧
      (engine.forest.tree registry.root).get? handle.key = some "broken" ∧
      handle.decode "broken" = .error ⟨"broken", "number", .custom "unknown number"⟩ ∧
      (engine.read 0).1 = some 7 := by
  constructor
  · obtain ⟨engine, handle, registry, hplay, hidle, hacyclic, hhandle, hregistry, hholds, hcheck⟩ :=
      exists_of_check lateKey (fun engine handle registry =>
        (engine.forest.tree registry.root).get? handle.key = some "seven" && handle.held = 5 &&
          handle.decode "seven" = .ok 7) (by cbv)
    simp only [Bool.and_eq_true, decide_eq_true_eq] at hcheck
    obtain ⟨⟨hraw, hheld⟩, hdecode⟩ := hcheck
    obtain ⟨-, -, hread⟩ := read_eq_resolve hplay hidle hacyclic hhandle hregistry hholds
    have hseven := (hread "seven" hraw).1 "seven" 7 (by cbv) hdecode
    exact ⟨engine, handle, registry, hplay, hidle, hacyclic, hhandle, hregistry, hholds, hraw,
      hheld, hseven⟩
  · obtain ⟨engine, handle, registry, hplay, hidle, hacyclic, hhandle, hregistry, hholds, hcheck⟩ :=
      exists_of_check brokenKey (fun engine handle registry =>
        (engine.forest.tree registry.root).get? handle.key = some "broken" &&
          handle.decode "broken" = .error ⟨"broken", "number", .custom "unknown number"⟩ &&
          lastGood handle.fallback (({} : Engine Nat).resolutions 0 brokenKey) = 7) (by cbv)
    simp only [Bool.and_eq_true, decide_eq_true_eq] at hcheck
    obtain ⟨⟨hraw, hdecode⟩, hkept⟩ := hcheck
    obtain ⟨-, -, hread⟩ := read_eq_resolve hplay hidle hacyclic hhandle hregistry hholds
    have hself : Template.resolve registry.policy
        (engine.forest.tree registry.root).lookup "broken" = .ok "broken" := by cbv
    have hfails := (hread "broken" hraw).2 fun text htext =>
      ⟨_, Except.ok.inj (hself.symm.trans htext) ▸ hdecode⟩
    exact ⟨engine, handle, registry, hplay, hidle, hacyclic, hhandle, hregistry, hholds, hraw,
      hdecode, hfails.trans (congrArg some hkept)⟩

end Overlay.Engine

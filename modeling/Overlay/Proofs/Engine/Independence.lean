import Overlay.Proofs.Engine.Apart
import Overlay.Proofs.Engine.Locking
import Overlay.Proofs.Engine.Sweeps

/-!
# Independent handles

A run without what it does with some of the handles (`movesOnly`) is a run again, in which all other
handles have the values that they had, and the same comes of what is done with them (`Tracks.play`).
-/

namespace Overlay.Engine

variable {V : Type} [BEq V] {keep : HandleId → Bool} {whole part after finish : Engine V}
  {id : HandleId} {move : Move V} {moves : List (Move V)}

/-- Do the listeners of these handles start no operations in this run? -/
def isQuietOf (p : HandleId → Bool) (engine : Engine V) (moves : List (Move V)) : Bool :=
  engine.every (fun engine move => !(move.isCall && engine.callback?.any (·.concerns p))) moves

/-- Does the caller hold on to handles only that there are? -/
def holdsMade (engine : Engine V) (moves : List (Move V)) : Bool :=
  engine.every (fun engine => fun
    | .call (.hold anchors) => anchors.all fun
      | .handle id => (engine.handleAt? id).isSome
      | .node _ => true
    | _ => true) moves

/-- The run without the moves that are about other handles. -/
def movesOnly (keep : HandleId → Bool) (engine : Engine V) (moves : List (Move V)) :
    List (Move V) :=
  engine.record (fun before move _ =>
    if (before.subject? move).all keep then [before.moveOnly keep move] else []) moves

/-- One engine is ahead of the other by work about handles that are not kept, and the caller holds
the same in both. -/
structure Tracks (keep : HandleId → Bool) (whole part : Engine V) : Prop where
  trails : whole.Trails keep part
  held : part.heldNodes = whole.heldNodes
  anchored : whole.Anchored
  anchored' : part.Anchored

omit [BEq V] in
theorem tracks_empty : ({} : Engine V).Tracks keep {} :=
  ⟨mirrors_empty.trails, rfl, fun _ hmem => absurd hmem List.not_mem_nil,
    fun _ hmem => absurd hmem List.not_mem_nil⟩

/-- Whoever starts an operation is no listener of a handle that is not kept. -/
theorem subject?_of_quiet (hmove : whole.move? move = some after)
    (hquiet : (!(move.isCall && whole.callback?.any (·.concerns (!keep ·)))) = true)
    (hcall : move.isCall = true) : (whole.subject? .resume).all keep = true := by
  cases move with
  | call call =>
    obtain ⟨⟨hwaiting, -⟩, -⟩ := Option.ite_none_right_eq_some.mp hmove
    cases hstack : whole.stack with
    | nil => simp [subject?, hstack]
    | cons frame rest =>
      cases frame with
      | callback callback =>
        cases callback with
        | node observer node => simp [subject?, hstack, Frame.subject?]
        | property listener handle event =>
          simpa [Move.isCall, callback?, hstack, Callback.concerns, subject?, Frame.subject?]
            using hquiet
      | _ => simp [isWaiting, isIdle, callback?, hstack] at hwaiting
  | _ => simp [Move.isCall] at hcall

omit [BEq V] in
theorem Mirrors.hold (h : whole.Mirrors keep part) {anchors : List Anchor}
    (hmade : ∀ id, .handle id ∈ anchors → (whole.handleAt? id).isSome) :
    (whole.hold anchors).Tracks keep (part.hold (anchors.flatMap (whole.holdOnly keep))) where
  trails := (h.setAnchors _ _).trails
  held := h.heldNodes_hold anchors
  anchored := hmade
  anchored' id hmem := by
    obtain ⟨anchor, hanchor, honly⟩ := List.mem_flatMap.mp hmem
    cases anchor with
    | node node => simp [holdOnly] at honly
    | handle other =>
      simp only [holdOnly] at honly
      split at honly
      · rename_i hkeep
        obtain rfl : id = place keep other := by simpa using honly
        exact (congrArg Option.isSome (h.handleAt?_place hkeep)).trans (hmade other hanchor)
      · simp at honly

omit [BEq V] in
theorem moveOnly_ne_hold (hhold : ∀ anchors, move ≠ .call (.hold anchors)) (anchors : List Anchor) :
    whole.moveOnly keep move ≠ .call (.hold anchors) := by
  intro heq
  cases move with
  | call call =>
    cases call with
    | hold held => exact hhold held rfl
    | _ => simp [moveOnly, callOnly] at heq
  | _ => simp [moveOnly] at heq

theorem Tracks.play_move {earlier earlier' : List (Move V)} (h : whole.Tracks keep part)
    (hplay : ({} : Engine V).play? earlier = some whole)
    (hplay' : ({} : Engine V).play? earlier' = some part)
    (hmade : ∀ anchors, move = .call (.hold anchors) →
      ∀ id, .handle id ∈ anchors → (whole.handleAt? id).isSome)
    (hmirrors : whole.Mirrors keep part) (hkeep : (whole.subject? move).all keep = true)
    (hmove : whole.move? move = some after) :
    ∃ next, part.move? (whole.moveOnly keep move) = some next ∧ after.Tracks keep next := by
  obtain ⟨next, hnext, hafter⟩ := hmirrors.move h.held hkeep hmove
  refine ⟨next, hnext, ?_⟩
  by_cases hhold : ∃ anchors, move = .call (.hold anchors)
  · obtain ⟨anchors, rfl⟩ := hhold
    obtain ⟨-, hstart⟩ := Option.ite_none_right_eq_some.mp hmove
    obtain ⟨-, hstart'⟩ := Option.ite_none_right_eq_some.mp hnext
    obtain rfl := Option.some.inj hstart
    obtain rfl := Option.some.inj hstart'
    exact hmirrors.hold (hmade anchors rfl)
  · replace hhold (anchors : List Anchor) : move ≠ .call (.hold anchors) :=
      fun heq => hhold ⟨anchors, heq⟩
    obtain ⟨hheld, hanchored⟩ := held_of_move? hplay h.anchored hmove hhold
    obtain ⟨hheld', hanchored'⟩ := held_of_move? hplay' h.anchored' hnext (moveOnly_ne_hold hhold)
    exact ⟨hafter.trails, hheld'.trans (h.held.trans hheld.symm), hanchored, hanchored'⟩

theorem Tracks.play_other {earlier : List (Move V)} (h : whole.Tracks keep part)
    (hplay : ({} : Engine V).play? earlier = some whole)
    (hquiet : move.isCall = true → (whole.subject? .resume).all keep = true)
    (hsubject : whole.subject? move = some id) (hkeep : keep id = false)
    (hmove : whole.move? move = some after) : after.Tracks keep part := by
  have hhold (anchors : List Anchor) : move ≠ .call (.hold anchors) := by
    rintro rfl
    simp [subject?, called?] at hsubject
  obtain ⟨hheld, hanchored⟩ := held_of_move? hplay h.anchored hmove hhold
  exact ⟨h.trails.other hquiet hsubject hkeep hmove, h.held.trans hheld.symm, hanchored,
    h.anchored'⟩

theorem movesOnly_of_kept (hmove : whole.move? move = some after)
    (hkeep : (whole.subject? move).all keep = true) :
    whole.movesOnly keep (move :: moves) =
      whole.moveOnly keep move :: after.movesOnly keep moves := by
  rw [movesOnly, record_cons hmove, if_pos hkeep]
  rfl

theorem movesOnly_of_other (hmove : whole.move? move = some after)
    (hsubject : whole.subject? move = some id) (hkeep : keep id = false) :
    whole.movesOnly keep (move :: moves) = after.movesOnly keep moves := by
  rw [movesOnly, record_cons hmove, if_neg (by simp [hsubject, hkeep])]
  rfl

/-- What comes of a kept handle's moves is the same in the mirror. -/
theorem Mirrors.result?_of_subject (h : whole.Mirrors keep part)
    (hkeep : (whole.subject? move).all keep = true) (hid : keep id = true) :
    (if part.subject? (whole.moveOnly keep move) = some (place keep id) then
        (part.result? (whole.moveOnly keep move)).toList else []) =
      if whole.subject? move = some id then (whole.result? move).toList else [] := by
  rw [h.subject?_eq hkeep, h.result?_eq hkeep]
  cases hsubject : whole.subject? move with
  | none => simp
  | some other =>
    rw [hsubject] at hkeep
    simp [place_inj hkeep hid]

/-- Without what is about handles that are not kept a run is still a run, and the same comes of
what is about the others. -/
theorem Tracks.play {earlier earlier' : List (Move V)} (h : whole.Tracks keep part)
    (hplay : ({} : Engine V).play? earlier = some whole)
    (hplay' : ({} : Engine V).play? earlier' = some part)
    (hquiet : whole.isQuietOf (!keep ·) moves = true) (hmade : whole.holdsMade moves = true)
    (hmoves : whole.play? moves = some finish) :
    ∃ finish', part.play? (whole.movesOnly keep moves) = some finish' ∧
      finish.Tracks keep finish' ∧ ∀ id, keep id = true →
        part.outcomes (place keep id) (whole.movesOnly keep moves) = whole.outcomes id moves := by
  induction moves generalizing whole part earlier earlier' with
  | nil =>
    obtain rfl := Option.some.inj hmoves
    exact ⟨part, rfl, h, fun _ _ => rfl⟩
  | cons move rest ih =>
    obtain ⟨after, hmove, hrest⟩ := play?_cons_eq_some.mp hmoves
    have hafter : ({} : Engine V).play? (earlier ++ [move]) = some after :=
      play?_concat hplay hmove
    obtain ⟨hcall, hquiet⟩ := (every_cons hmove).mp hquiet
    obtain ⟨hheld, hmade⟩ := (every_cons hmove).mp hmade
    have hquieter := subject?_of_quiet hmove hcall
    by_cases hkeep : (whole.subject? move).all keep = true
    · have hmirrors := h.trails.mirrors_of_move hquieter hkeep hmove
      obtain ⟨next, hnext, htracks⟩ := h.play_move hplay hplay' (fun anchors heq id hmem => by
        subst heq
        exact List.all_eq_true.mp hheld _ hmem) hmirrors hkeep hmove
      have hnext' : ({} : Engine V).play? (earlier' ++ [whole.moveOnly keep move]) = some next :=
        play?_concat hplay' hnext
      obtain ⟨finish', hplayed, hfinish, hsame⟩ := ih htracks hafter hnext' hquiet hmade hrest
      rw [movesOnly_of_kept hmove hkeep]
      refine ⟨finish', play?_cons_eq_some.mpr ⟨next, hnext, hplayed⟩, hfinish, fun id hid => ?_⟩
      rw [outcomes, outcomes, record_cons hnext, record_cons hmove,
        hmirrors.result?_of_subject hkeep hid]
      exact congrArg _ (hsame id hid)
    · obtain ⟨other, hsubject, hother⟩ := (Option.all_eq_false _ _).mp (Bool.not_eq_true _ ▸ hkeep)
      have htracks := h.play_other hplay hquieter hsubject hother hmove
      obtain ⟨finish', hplayed, hfinish, hsame⟩ := ih htracks hafter hplay' hquiet hmade hrest
      rw [movesOnly_of_other hmove hsubject hother]
      refine ⟨finish', hplayed, hfinish, fun id hid => ?_⟩
      have hne : whole.subject? move ≠ some id := by
        intro heq
        obtain rfl := Option.some.inj (hsubject.symm.trans heq)
        simp [hid] at hother
      rw [hsame id hid, outcomes, outcomes, record_cons hmove, if_neg hne]
      rfl

-- ---------------------------------------------------------------------------
-- One handle of a registry
-- ---------------------------------------------------------------------------

def isOf (engine : Engine V) (home : RegistryId) (id : HandleId) : Bool :=
  (engine.handleAt? id).any (·.registry = home)

/-- Any handle but those that the registry has for other keys and types. -/
def keeps (engine : Engine V) (home : RegistryId) (key typeName : String) (id : HandleId) : Bool :=
  (engine.handleAt? id).all fun handle =>
    handle.registry ≠ home || (handle.key = key && handle.typeName = typeName)

omit [BEq V] in
theorem isOf_of_not_keeps {home : RegistryId} {key typeName : String}
    (h : finish.keeps home key typeName id = false) : finish.isOf home id = true := by
  obtain ⟨handle, hhandle, hother⟩ := (Option.all_eq_false _ _).mp h
  simp only [Bool.or_eq_false_iff, decide_eq_false_iff_not, not_not] at hother
  simp [isOf, hhandle, hother.1]

theorem isQuietOf_mono {p q : HandleId → Bool} (hpq : ∀ id, p id = true → q id = true)
    (h : whole.isQuietOf q moves = true) : whole.isQuietOf p moves = true := by
  have hconcerns (call : Callback V) (hcall : call.concerns p = true) : call.concerns q = true := by
    cases call with
    | node observer node => exact hcall
    | property listener handle event => exact hpq handle hcall
  refine every_mono (fun engine move hkind => ?_) h
  cases hcallback : engine.callback? with
  | none => simp
  | some call =>
    rw [hcallback, Option.any_some] at hkind
    rw [Option.any_some]
    cases hp : call.concerns p with
    | false => simp
    | true => simpa [hconcerns call hp] using hkind

/-- Handles do not depend on each other. Leave out of a run all that is about the handles that a
registry has for other keys and types: the rest is a run in which the remaining handles hold what
they held, and the same comes of whatever is done with them, calls of their listeners included. This
is so with any number of shards, as long as the registry's listeners start no operations and the
caller holds on to no handle before it is made. A refresh of the registry ends, and leaves each
handle with the same value and the same calls in whichever order it goes through the handles. -/
theorem independent_of_others {home : RegistryId} {key typeName : String} {registry : Registry V}
    {count : RegistryId → Nat} (hplay : ({} : Engine V).playUnder? count moves = some finish)
    (hregistry : finish.registryAt? home = some registry) (hlazy : registry.eager = false)
    (hquiet : ({} : Engine V).isQuietOf (finish.isOf home) moves = true)
    (hmade : ({} : Engine V).holdsMade moves = true) :
    (∀ count', ∃ alone, ({} : Engine V).playUnder? count'
        (({} : Engine V).movesOnly (finish.keeps home key typeName) moves) = some alone ∧
      (∀ handle ∈ alone.handles, handle.registry = home →
        handle.key = key ∧ handle.typeName = typeName) ∧
      ∀ id, finish.keeps home key typeName id = true →
        alone.handleAt? (place (finish.keeps home key typeName) id) = finish.handleAt? id ∧
        ({} : Engine V).outcomes (place (finish.keeps home key typeName) id)
            (({} : Engine V).movesOnly (finish.keeps home key typeName) moves) =
          ({} : Engine V).outcomes id moves) ∧
    finish.start (.refresh home) = finish.push (.refresh registry.handles) ∧
    ∀ ids, ids.Perm registry.handles →
      ∃ work swept, (finish.push (.refresh ids)).Completes finish.stack work swept ∧
        (∀ count', (finish.push (.refresh ids)).playUnder? count' work = some swept) ∧
        ∀ work' swept', (finish.start (.refresh home)).Completes finish.stack work' swept' →
          swept' = { swept with metrics := swept'.metrics } ∧
          ∀ id, (finish.start (.refresh home)).outcomes id work' =
            (finish.push (.refresh ids)).outcomes id work := by
  rw [playUnder?_eq] at hplay
  have hrefresh : finish.start (.refresh home) = finish.push (.refresh registry.handles) := by
    simp [start, Engine.refresh, hregistry, hlazy]
  refine ⟨fun count' => ?_, hrefresh, fun ids hperm => ?_⟩
  · have hothers : ({} : Engine V).isQuietOf (!finish.keeps home key typeName ·) moves = true :=
      isQuietOf_mono (fun id hid => isOf_of_not_keeps (by simpa using hid)) hquiet
    have hnone : ({} : Engine V).play? [] = some {} := rfl
    obtain ⟨alone, halone, htracks, hsame⟩ := tracks_empty.play hnone hnone hothers hmade hplay
    refine ⟨alone, (playUnder?_eq ..).trans halone, fun handle hmem hhome => ?_, fun id hid => ?_⟩
    · rw [htracks.trails.handles] at hmem
      obtain ⟨id, hkeep, hhandle⟩ := exists_of_mem_pick hmem
      have hfound : finish.handleAt? id = some handle := hhandle
      simpa [keeps, hfound, hhome] using hkeep
    · refine ⟨?_, hsame id hid⟩
      rw [handleAt?, htracks.trails.handles]
      exact getElem?_pick hid
  · have hlisted {id : HandleId} (hmem : id ∈ registry.handles) : finish.isEager id = false :=
      isEager_of_mem hplay hregistry hlazy hmem
    obtain ⟨work, swept, hsweep⟩ := exists_sweep fun id hmem => hlisted (hperm.mem_iff.mp hmem)
    obtain ⟨listedWork, listed, hlistedSweep⟩ := exists_sweep fun id hmem => hlisted hmem
    refine ⟨work, swept, hsweep.completes, fun count' => ?_, fun work' swept' hcompletes => ?_⟩
    · exact (playUnder?_eq ..).trans hsweep.completes.play
    · rw [hrefresh] at hcompletes ⊢
      obtain ⟨rfl, rfl⟩ := hlistedSweep.completes.unique hcompletes
      exact hsweep.agree hlistedSweep fun id => hperm.mem_iff.symm

/-- Two handles of a registry, each with a listener. Both keys are set, and the registry is
refreshed. -/
def twoHandles : List (Move Nat) :=
  let decode (text : String) : Except DecodeError Nat := .ok (if text = "one" then 1 else 2)
  [.call (.settable "leaf" .empty), .call (.hold [.node 0]),
    .call (.openRegistry 0 .fail "," false), .call (.request 0 "first" "number" 0 decode),
    .call (.request 0 "second" "number" 0 decode), .call (.listen 0 1), .step,
    .call (.listen 1 2), .step, .call (.edit 0 (.set "first" "one")), .step,
    .call (.edit 0 (.set "second" "two")), .step, .call (.refresh 0), .step, .step, .resume, .step,
    .step, .step, .resume, .step, .step]

theorem independent_of_others_second : ∃ finish alone : Engine Nat,
    ({} : Engine Nat).playUnder? (fun _ => 4) twoHandles = some finish ∧
      ({} : Engine Nat).playUnder? (fun _ => 1)
        (({} : Engine Nat).movesOnly (finish.keeps 0 "second" "number") twoHandles) = some alone ∧
      (∀ handle ∈ alone.handles, handle.registry = 0 →
        handle.key = "second" ∧ handle.typeName = "number") ∧
      alone.handleAt? 0 = finish.handleAt? 1 ∧
      ({} : Engine Nat).outcomes 0
          (({} : Engine Nat).movesOnly (finish.keeps 0 "second" "number") twoHandles) =
        [.value (some 0), .told 2 (.changed 2)] := by
  have hrun : (({} : Engine Nat).play? twoHandles).any (fun finish =>
      (finish.registryAt? 0).any (fun registry => !registry.eager) &&
        ({} : Engine Nat).isQuietOf (finish.isOf 0) twoHandles &&
        ({} : Engine Nat).holdsMade twoHandles && finish.keeps 0 "second" "number" 1 &&
        place (finish.keeps 0 "second" "number") 1 = 0 &&
        ({} : Engine Nat).outcomes 1 twoHandles = [.value (some 0), .told 2 (.changed 2)]) =
      true := by
    cbv
  simp only [Option.any_eq_true, Bool.and_eq_true, decide_eq_true_eq, Bool.not_eq_true'] at hrun
  obtain ⟨finish, hplay, ⟨⟨⟨⟨⟨registry, hregistry, hlazy⟩, hquiet⟩, hmade⟩, hkeep⟩, hplace⟩,
    houtcomes⟩ := hrun
  have hunder := (playUnder?_eq (fun _ => 4) _ _).trans hplay
  obtain ⟨halone, -⟩ := independent_of_others hunder hregistry hlazy hquiet hmade
  obtain ⟨alone, hplayed, honly, hsame⟩ := halone fun _ => 1
  obtain ⟨hhandle, hheard⟩ := hsame 1 hkeep
  rw [hplace] at hhandle hheard
  exact ⟨finish, alone, hunder, hplayed, honly, hhandle, hheard.trans houtcomes⟩

end Overlay.Engine

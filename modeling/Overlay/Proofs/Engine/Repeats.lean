import Mathlib
import Overlay.Proofs.Engine.Hearing
import Overlay.Proofs.Engine.Shifts
import Overlay.Proofs.Value.Equality

/-!
# Resolving the same text again

A handle that is read at a new version resolves again even if its key still has the same
text. Then it finds the value that it holds (`Cached.kept`), and makes no transition unless
that value differs from itself (`event?_of_repeat`). Of the built-in types only floating
point has such values, and there listeners are told of no number over and over
(`told_of_repeat`).
-/

namespace Overlay

open Template (MissingPolicy)

variable {V : Type}

/-- The text that a handle would decode: that of its key, expanded. There is none while the
key is unset, or when expanding fails. -/
def Handle.text? (handle : Handle V) (policy : MissingPolicy) (tree : Tree) : Option String :=
  (tree.get? handle.key).bind fun raw => (Template.resolve policy tree.lookup raw).toOption

theorem Handle.resolve_of_text? {handle : Handle V} {policy : MissingPolicy} {tree : Tree}
    {text : String} (h : handle.text? policy tree = some text) :
    handle.resolve policy tree = (handle.decode text).mapError (.undecodable handle.key) := by
  obtain ⟨raw, hraw, htext⟩ := Option.bind_eq_some_iff.mp h
  unfold Handle.resolve
  rw [hraw]
  cases hresolve : Template.resolve policy tree.lookup raw with
  | error error => simp [hresolve, Except.toOption] at htext
  | ok found =>
    rw [hresolve] at htext
    cases Option.some.inj htext
    simp only [hresolve]

namespace Engine

/-- The text that the handle would decode at this moment. -/
def text? (engine : Engine V) (id : HandleId) : Option String :=
  (engine.handleAt? id).bind fun handle =>
    (engine.registryAt? handle.registry).bind fun registry =>
      handle.text? registry.policy (engine.forest.tree registry.root)

section
variable {engine before after : Engine V} {id : HandleId} {text : String} {handle : Handle V}

theorem fresh?_of_text? (htext : engine.text? id = some text)
    (hhandle : engine.handleAt? id = some handle) :
    engine.fresh? id = some ((handle.decode text).mapError (.undecodable handle.key)) := by
  rw [text?, hhandle, Option.bind_some] at htext
  obtain ⟨registry, hregistry, hfound⟩ := Option.bind_eq_some_iff.mp htext
  rw [fresh?_of_handle hhandle hregistry, Handle.resolve_of_text? hfound]

/-- What a handle would decode depends on the forest only. -/
theorem text?_of_retains (hretains : before.Retains after) (hforest : after.forest = before.forest)
    (htext : before.text? id = some text) : after.text? id = some text := by
  obtain ⟨handle, hhandle, hrest⟩ := Option.bind_eq_some_iff.mp htext
  obtain ⟨registry, hregistry, hfound⟩ := Option.bind_eq_some_iff.mp hrest
  obtain ⟨next, hnext, hbare⟩ := hretains.handle id handle hhandle
  obtain ⟨home, hhome, hterms⟩ := hretains.registry _ registry hregistry
  have hkey : next.key = handle.key := congrArg (·.key) hbare
  have hsame : next.registry = handle.registry := congrArg (·.registry) hbare
  have hroot : home.root = registry.root := congrArg (·.root) hterms
  have hpolicy : home.policy = registry.policy := congrArg (·.policy) hterms
  rw [text?, hnext, Option.bind_some, hsame, hhome, Option.bind_some, hforest, hroot, hpolicy,
    Handle.text?, hkey]
  exact hfound

theorem fresh?_of_resolution? {outcome : Except PropertyError V}
    (h : before.resolution? after id = some outcome) : after.fresh? id = some outcome :=
  (Option.ite_none_left_eq_some.mp h).2

end

variable [BEq V] {before first last after : Engine V} {id : HandleId} {text : String} {value : V}
  {moves : List (Move V)}

/-- A resolution that succeeds leaves its value with the handle. -/
theorem cached?_of_success (hdoes : before.Does after)
    (hsuccess : before.resolution? after id = some (.ok value)) :
    ∃ content, after.cached? id = some content ∧ content.value = value := by
  rcases hdoes.cached_cases id with hsame | ⟨middle, handle, registry, -, hsame, hhandle, hregistry,
    hstale, rfl⟩
  · exact absurd (hsuccess.symm.trans (resolution?_of_cached_eq hsame)) (by simp)
  · have hreading := reading?_eq_some.mpr ⟨handle, registry, hhandle, hregistry, rfl⟩
    have hresolve := (resolution?_refreshHandle hsame hhandle hregistry hstale).symm.trans hsuccess
    refine ⟨_, (cached?_refreshHandle hreading).trans (Handle.cached_read hstale), ?_⟩
    rw [Option.some.inj hresolve]
    rfl

/-- A move in which no resolution succeeds leaves the handle with the value that it has. -/
theorem cached?_of_no_success (hdoes : before.Does after) {content : Cached V}
    (hcontent : before.cached? id = some content) (hvalue : content.value = value)
    (hfails : ∀ found, before.resolution? after id ≠ some (.ok found)) :
    ∃ content, after.cached? id = some content ∧ content.value = value := by
  rcases hdoes.cached_cases id with hsame | ⟨middle, handle, registry, -, hsame, hhandle, hregistry,
    hstale, rfl⟩
  · exact ⟨content, hsame.trans hcontent, hvalue⟩
  · have hreading := reading?_eq_some.mpr ⟨handle, registry, hhandle, hregistry, rfl⟩
    have hresolution := resolution?_refreshHandle hsame hhandle hregistry hstale
    refine ⟨_, (cached?_refreshHandle hreading).trans (Handle.cached_read hstale), ?_⟩
    cases hresolve : handle.resolve registry.policy (middle.forest.tree registry.root) with
    | ok found => exact absurd (hresolve ▸ hresolution) (hfails found)
    | error error =>
      obtain ⟨found, hfound, hcached⟩ := cached?_eq_some.mp (hsame.trans hcontent)
      cases Option.some.inj (hhandle.symm.trans hfound)
      show handle.held = value
      rw [Handle.held, hcached]
      exact hvalue

theorem cached?_of_failures {content : Cached V} (hplay : first.play? moves = some last)
    (hcontent : first.cached? id = some content) (hvalue : content.value = value)
    (hfails : ∀ outcome ∈ first.resolutions id moves, outcome.toOption = none) :
    ∃ content, last.cached? id = some content ∧ content.value = value := by
  induction moves generalizing first content with
  | nil => exact ⟨content, Option.some.inj hplay ▸ hcontent, hvalue⟩
  | cons move rest ih =>
    obtain ⟨next, hnext, hrest⟩ := play?_cons_eq_some.mp hplay
    rw [resolutions, hnext] at hfails
    obtain ⟨hmove, hlater⟩ := List.forall_mem_append.mp hfails
    obtain ⟨content, hcontent, hvalue⟩ :=
      cached?_of_no_success (does_of_move? hnext) hcontent hvalue fun found hfound =>
        absurd (hmove (.ok found) (by simp [hfound])) (by simp [Except.toOption])
    exact ih hrest hcontent hvalue hlater

theorem retains_of_play? (hplay : first.play? moves = some last) : first.Retains last :=
  play?_induction hplay (.of_bare (fun _ => rfl) fun _ => rfl) fun hretains hmove =>
    hretains.trans (does_of_move? hmove).retains

/-- The same text gives the same value again, and the comparison with the value that the
handle holds is one of this value with itself. -/
theorem event?_of_repeat {outcome : Except PropertyError V} (hfirst : before.Does first)
    (hsuccess : before.resolution? first id = some (.ok value)) (htext : first.text? id = some text)
    (hbetween : first.play? moves = some last)
    (hfails : ∀ outcome ∈ first.resolutions id moves, outcome.toOption = none)
    (hagain : last.Does after) (hresolved : last.resolution? after id = some outcome)
    (hsame : after.text? id = some text) :
    outcome = .ok value ∧
      last.event? after id = if value == value then none else some (.changed value) := by
  obtain ⟨handle, hhandle, -⟩ := Option.bind_eq_some_iff.mp htext
  obtain ⟨middle, hmiddle, hbare⟩ := (retains_of_play? hbetween).handle id handle hhandle
  obtain ⟨next, hnext, hbare'⟩ := hagain.retains.handle id middle hmiddle
  have hdecode : next.decode = handle.decode := congrArg (·.decode) (hbare'.trans hbare)
  have hkey : next.key = handle.key := congrArg (·.key) (hbare'.trans hbare)
  have houtcome : outcome = .ok value := by
    have hold := (fresh?_of_text? htext hhandle).symm.trans (fresh?_of_resolution? hsuccess)
    have hnew := (fresh?_of_text? hsame hnext).symm.trans (fresh?_of_resolution? hresolved)
    rw [hdecode, hkey] at hnew
    exact Option.some.inj (hnew.symm.trans hold)
  refine ⟨houtcome, ?_⟩
  obtain ⟨content, hcontent, hvalue⟩ := cached?_of_success hfirst hsuccess
  obtain ⟨held, hheld, hkept⟩ := cached?_of_failures hbetween hcontent hvalue hfails
  rw [event?, hresolved, houtcome, Option.bind_some, hheld]
  simp only [Option.bind_some, hkept, bne]
  cases value == value with
  | true => rfl
  | false => rfl

/-- What the listeners of a lazy registry's handle are told, at once and later, when its key
has the text of its latest resolution that succeeded. -/
theorem due_of_repeat {outcome : Except PropertyError V} {move again : Move V}
    {earlier between : List (Move V)} (hearlier : ({} : Engine V).play? earlier = some before)
    (hmove : before.move? move = some first)
    (hsuccess : before.resolution? first id = some (.ok value)) (htext : first.text? id = some text)
    (hbetween : first.play? between = some last)
    (hfails : ∀ outcome ∈ first.resolutions id between, outcome.toOption = none)
    (hagain : last.move? again = some after) (hresolved : last.resolution? after id = some outcome)
    (hsame : after.text? id = some text) (hlazy : last.isLazy id = true) (listener : ListenerId) :
    outcome = .ok value ∧ (last.tells? again listener id).toList ++ after.due listener id =
      (if (value == value) = false ∧ listener ∈ after.listeners id then [.changed value] else []) ++
        last.due listener id := by
  obtain ⟨houtcome, hevent⟩ := event?_of_repeat (does_of_move? hmove) hsuccess htext hbetween hfails
    (does_of_move? hagain) hresolved hsame
  refine ⟨houtcome, ?_⟩
  have hplay : ({} : Engine V).play? (earlier ++ move :: between) = some last :=
    play?_append_eq_some.mpr ⟨before, hearlier, play?_cons_eq_some.mpr ⟨first, hmove, hbetween⟩⟩
  have htidy := tidy_of_play? hplay
  rw [due_of_turn listener htidy (htidy.play_move hagain) hlazy
    ((does_of_move? hagain).retains.isLazy hlazy) (turn_of_move? hagain), meant, hevent]
  cases value == value with
  | true => simp
  | false => simp

/-- A stale handle that is read is resolved in the text that its key has at that moment. -/
theorem resolution?_of_read {engine : Engine V} {text : String} {handle : Handle V}
    {registry : Registry V} (hwaiting : engine.isWaiting = true)
    (hhandle : engine.handleAt? id = some handle)
    (hregistry : engine.registryAt? handle.registry = some registry)
    (hstale : handle.isCurrent (engine.forest.version registry.root) = false)
    (htext : engine.text? id = some text) :
    ∃ after outcome, engine.move? (.call (.read id)) = some after ∧ after.text? id = some text ∧
      engine.resolution? after id = some outcome ∧ after.listeners id = engine.listeners id :=
  ⟨engine.refreshHandle id, _, if_pos ⟨hwaiting, trivial⟩,
    text?_of_retains (retains_refreshHandle engine id).1 (forest_refreshHandle engine id) htext,
    resolution?_refreshHandle rfl hhandle hregistry hstale, listeners_refreshHandle engine id id⟩

/-- A handle of a built-in type is resolved with success, and then read at a new version at
which its key has the same text, when it has not been resolved in between or only in vain. It finds
the same value. In a lazy registry no listener is told anything because of it, unless the value
is no number or has such an item; of such a value all who listen are told again. Only texts that
name no number have such values, and only those of floating point types and of their lists do. -/
theorem told_of_repeat {before first last after : Engine Value} {value : Value}
    {outcome : Except PropertyError Value} {move again : Move Value}
    {earlier between : List (Move Value)} {handle : Handle Value} {delimiter : String}
    {type : ValueType} (hearlier : ({} : Engine Value).play? earlier = some before)
    (hmove : before.move? move = some first)
    (hsuccess : before.resolution? first id = some (.ok value)) (htext : first.text? id = some text)
    (hbetween : first.play? between = some last)
    (hfails : ∀ outcome ∈ first.resolutions id between, outcome.toOption = none)
    (hagain : last.move? again = some after) (hresolved : last.resolution? after id = some outcome)
    (hsame : after.text? id = some text) (hlazy : last.isLazy id = true)
    (hhandle : first.handleAt? id = some handle)
    (hbuiltin : handle.decode = Decode.value delimiter type) :
    outcome = .ok value ∧
      (value.hasNan = false → ∀ listener,
        (last.tells? again listener id).toList ++ after.due listener id = last.due listener id) ∧
      (value.hasNan = true → ∀ listener ∈ after.listeners id,
        (last.tells? again listener id).toList ++ after.due listener id =
          .changed value :: last.due listener id) ∧
      (value.hasNan = true → Decode.namesNan delimiter type text = true) := by
  have hdue := due_of_repeat hearlier hmove hsuccess htext hbetween hfails hagain hresolved hsame
    hlazy
  have hself : (value == value) = !value.hasNan := value.equal_self
  refine ⟨(hdue 0).1, fun hnumber listener => ?_, fun hnan listener hmem => ?_, fun hnan => ?_⟩
  · rw [(hdue listener).2, hself, hnumber]
    simp
  · rw [(hdue listener).2, hself, hnan]
    simp [hmem]
  · have hfresh := (fresh?_of_text? htext hhandle).symm.trans (fresh?_of_resolution? hsuccess)
    rw [hbuiltin] at hfresh
    have hdecode := Except.mapError_eq_ok_iff.mp (Option.some.inj hfresh)
    exact Decode.namesNan_of_value hdecode hnan

/-- A lazy registry over a leaf that has this text for a key. -/
def oneText (text : String) : List (Move Value) :=
  [.call (.settable "leaf" (.ofPairs [("key", text)])), .call (.hold [.node 0]),
    .call (.openRegistry 0 .fail "," false)]

def requestKey (default : Value) (decode : Decoder Value) : Move Value :=
  .call (.request 0 "key" "type" default decode)

/-- Somebody listens, and another key is set. -/
def otherKeySet : List (Move Value) :=
  [.call (.listen 0 1), .step, .call (.edit 0 (.set "other" "value")), .step]

theorem told_of_repeat_list : ∃ before first last after : Engine Value,
    ({} : Engine Value).play? (oneText "true, false") = some before ∧
      before.move? (requestKey (.list []) (Decode.value "," (.list .bool))) = some first ∧
      first.play? otherKeySet = some last ∧ last.move? (.call (.read 0)) = some after ∧
      first.text? 0 = some "true, false" ∧ after.text? 0 = some "true, false" ∧
      1 ∈ after.listeners 0 ∧
      (last.tells? (.call (.read 0)) 1 0).toList ++ after.due 1 0 = last.due 1 0 := by
  have hrun : (({} : Engine Value).play? (oneText "true, false")).any (fun before =>
      (before.move? (requestKey (.list []) (Decode.value "," (.list .bool)))).any fun first =>
        first.text? 0 = some "true, false" &&
        (before.resolution? first 0).any (·.toOption.any (!·.hasNan)) &&
        (first.resolutions 0 otherKeySet).isEmpty && (first.play? otherKeySet).any fun last =>
          last.isLazy 0 && (last.move? (.call (.read 0))).any fun after =>
            (last.resolution? after 0).isSome && after.text? 0 = some "true, false" &&
            1 ∈ after.listeners 0) = true := by
    cbv
  have hdecode : ((({} : Engine Value).play? (oneText "true, false")).bind fun before =>
      (before.move? (requestKey (.list []) (Decode.value "," (.list .bool)))).bind fun first =>
        (first.handleAt? 0).map (·.decode)) = some (Decode.value "," (.list .bool)) := by
    cbv
  simp only [Option.any_eq_true, Bool.and_eq_true, decide_eq_true_eq, List.isEmpty_iff] at hrun
  obtain ⟨before, hearlier, first, hmove, ⟨⟨htext, result, hresult, value, hvalue, hnumber⟩,
    hfails⟩, last, hbetween, hlazy, after, hagain, ⟨hresolved, hsame⟩, hmem⟩ := hrun
  rw [hearlier, Option.bind_some, hmove, Option.bind_some] at hdecode
  obtain ⟨handle, hhandle, hbuiltin⟩ := Option.map_eq_some_iff.mp hdecode
  obtain ⟨outcome, hresolved⟩ := Option.isSome_iff_exists.mp hresolved
  cases result with
  | error error => simp [Except.toOption] at hvalue
  | ok found =>
    cases Option.some.inj hvalue
    have htold := told_of_repeat hearlier hmove hresult htext hbetween (by simp [hfails]) hagain
      hresolved hsame hlazy hhandle hbuiltin
    exact ⟨before, first, last, after, hearlier, hmove, hbetween, hagain, htext, hsame, hmem,
      htold.2.1 (by simpa using hnumber) 1⟩

/-- A handle whose key says that it is no number is announced again once another key has
been set, although text and value are what they were. -/
theorem announced_unchanged : ∃ before first last after : Engine Value,
    ({} : Engine Value).play? (oneText "nan") = some before ∧
      before.move? (requestKey (.double 0) (Decode.value "," .double)) = some first ∧
      before.resolution? first 0 = some (.ok (.double 0x7ff8000000000000)) ∧
      first.text? 0 = some "nan" ∧ first.play? otherKeySet = some last ∧ last.isIdle ∧
      first.resolutions 0 otherKeySet = [] ∧ last.isLazy 0 = true ∧
      last.move? (.call (.read 0)) = some after ∧ after.text? 0 = some "nan" ∧
      last.resolution? after 0 = some (.ok (.double 0x7ff8000000000000)) ∧
      1 ∈ after.listeners 0 ∧
      after.due 1 0 = [.changed (.double 0x7ff8000000000000)] := by
  have hdecode : Decode.value "," .double = fun text =>
      if text = "nan" then .ok (.double 0x7ff8000000000000) else Decode.value "," .double text := by
    funext text
    split
    case isTrue h =>
      rw [h]
      rfl
    case isFalse => rfl
  have hresult : ((({} : Engine Value).play? (oneText "nan")).bind fun before =>
      (before.move? (requestKey (.double 0) (Decode.value "," .double))).bind fun first =>
        before.resolution? first 0) = some (.ok (.double 0x7ff8000000000000)) := by
    rw [hdecode]
    cbv
  have hrun : (({} : Engine Value).play? (oneText "nan")).any (fun before =>
      (before.move? (requestKey (.double 0) (Decode.value "," .double))).any fun first =>
        first.text? 0 = some "nan" && (first.resolutions 0 otherKeySet).isEmpty &&
        (first.play? otherKeySet).any fun last =>
          last.isIdle && last.isLazy 0 && last.text? 0 = some "nan" && last.listeners 0 = [1] &&
          (last.handleAt? 0).any fun handle =>
            (last.registryAt? handle.registry).any fun registry =>
              !handle.isCurrent (last.forest.version registry.root)) = true := by
    rw [hdecode]
    cbv
  simp only [Option.any_eq_true, Bool.and_eq_true, decide_eq_true_eq, List.isEmpty_iff,
    Bool.not_eq_true'] at hrun
  obtain ⟨before, hearlier, first, hmove, ⟨htext, hfails⟩, last, hbetween,
    ⟨⟨⟨hidle, hlazy⟩, hstays⟩, hlisteners⟩, handle, hhandle, registry, hregistry, hstale⟩ := hrun
  rw [hearlier, Option.bind_some, hmove, Option.bind_some] at hresult
  obtain ⟨after, outcome, hagain, hsame, hresolved, hkeep⟩ :=
    resolution?_of_read (by simp [isWaiting, hidle]) hhandle hregistry hstale hstays
  have hmem : 1 ∈ after.listeners 0 := by
    rw [hkeep, hlisteners]
    exact List.mem_singleton_self 1
  obtain ⟨rfl, hdue⟩ := due_of_repeat hearlier hmove hresult htext hbetween (by simp [hfails])
    hagain hresolved hsame hlazy 1
  refine ⟨before, first, last, after, hearlier, hmove, hresult, htext, hbetween, hidle, hfails,
    hlazy, hagain, hsame, hresolved, hmem, ?_⟩
  rw [due_of_isIdle hidle, if_pos ⟨rfl, hmem⟩] at hdue
  exact hdue

end Engine

end Overlay

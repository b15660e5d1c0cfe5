import Mathlib
import Overlay.Proofs.Engine.Tellings
import Overlay.Proofs.Poll.Replay

/-!
# Polls of a leaf

A poll that succeeds edits its leaf at once, and keeps its checkpoint when everyone has
been told of the change (`settling`). When nobody else edits the leaf, and one poll is over
before the next one is answered (`pollsAlone`), leaf and poller are at all times what the
answers so far make of them (`Replays`), whatever else happens in between.
-/

namespace Overlay

variable {V : Type}

/-- The checkpoint that the work keeps for a poller. -/
def Frame.settles? (id : PollerId) : Frame V → Option (Option String)
  | .settle poller checkpoint _ => if poller = id then some checkpoint else none
  | _ => none

theorem Frame.settles?_of_not_isSettle {frame : Frame V} (h : frame.isSettle = false)
    (id : PollerId) : frame.settles? id = none := by
  cases frame <;> simp_all [isSettle, settles?]

/-- The answer that a poll of the poller gets in a move. -/
def Move.answer? (id : PollerId) : Move V → Option Poll.Answer
  | .call (.absorb poller answer) => if poller = id then some answer else none
  | _ => none

theorem Move.answer?_eq_some {id : PollerId} {move : Move V} {answer : Poll.Answer} :
    move.answer? id = some answer ↔ move = .call (.absorb id answer) := by
  unfold answer?
  split
  · simp
  · rename_i hcall
    simpa using hcall id answer

namespace Engine

/-- The checkpoints of polls that have been applied and are not over yet, the latest first. -/
def settling (engine : Engine V) (id : PollerId) : List (Option String) :=
  engine.stack.filterMap (·.settles? id)

/-- Nobody but the poller edits the leaf, and its polls follow one upon the other. -/
def pollsAlone (id : PollerId) (leaf : NodeId) (engine : Engine V) (move : Move V) : Bool :=
  match move.answer? id, move with
  | some _, _ => (engine.settling id).isEmpty
  | none, .call call => (engine.editOf? leaf call).isNone
  | none, _ => true

/-- The answers that the poller has got in a run, in their order. -/
def answers (id : PollerId) (moves : List (Move V)) : List Poll.Answer :=
  moves.filterMap (·.answer? id)

/-- Leaf and poller are what these answers make of them, once the polls are over. -/
structure Replays (engine : Engine V) (id : PollerId) (poller : Poll.Poller) (entries : Entries)
    (answers : List Poll.Answer) : Prop where
  leaf : engine.forest.leaf? poller.target = some (Poll.replay answers entries)
  poller : ∃ current, engine.pollerAt? id = some current ∧ current.target = poller.target ∧
    (engine.settling id).foldl Poll.Poller.settle current = poller.after answers

variable {engine before after start finish : Engine V} {id other : PollerId} {poller : Poll.Poller}
  {entries : Entries} {earlier : List Poll.Answer} {frame : Frame V} {rest : List (Frame V)}

-- ---------------------------------------------------------------------------
-- Polls that are not over
-- ---------------------------------------------------------------------------

theorem settling_of_stack (hstack : engine.stack = frame :: rest) (id : PollerId) :
    engine.settling id = (frame.settles? id).toList ++ rest.filterMap (·.settles? id) := by
  rw [settling, hstack, List.filterMap_cons]
  cases frame.settles? id <;> rfl

theorem Effect.settling {leaf : NodeId} {edit : Option Edit} (h : Effect leaf edit before after)
    (id : PollerId) : after.settling id = before.settling id := by
  obtain ⟨above, hstack, habove⟩ := h.stack
  have hnone : above.filterMap (·.settles? id) = [] :=
    List.filterMap_eq_nil_iff.mpr fun frame hmem =>
      frame.settles?_of_not_isSettle (habove frame hmem) id
  rw [Engine.settling, hstack, List.filterMap_append, hnone, List.nil_append]
  rfl

theorem pollerAt?_modifyPoller (engine : Engine V) (id other : PollerId)
    (f : Poll.Poller → Poll.Poller) : (engine.modifyPoller id f).pollerAt? other =
      if id = other then (engine.pollerAt? other).map f else engine.pollerAt? other := by
  rw [pollerAt?, modifyPoller, List.getElem?_modify]
  split <;> simp [pollerAt?]

-- ---------------------------------------------------------------------------
-- Single moves
-- ---------------------------------------------------------------------------

/-- What is done without an edit of the leaf. -/
theorem Replays.of_effect (h : before.Replays id poller entries earlier)
    (heffect : Effect poller.target none before after) :
    after.Replays id poller entries earlier where
  leaf := heffect.leaf _ h.leaf
  poller := by
    obtain ⟨current, hcurrent, htarget, hsettled⟩ := h.poller
    exact ⟨current, heffect.pollers id current hcurrent, htarget,
      (heffect.settling id).symm ▸ hsettled⟩

/-- A frame that keeps no checkpoint of the poller is of no matter to it. -/
theorem Replays.of_stack (h : before.Replays id poller entries earlier)
    (hsettling : after.settling id = before.settling id) (hforest : after.forest = before.forest)
    (hpollers : after.pollers = before.pollers) : after.Replays id poller entries earlier where
  leaf := hforest ▸ h.leaf
  poller := by
    rw [hsettling, pollerAt?, hpollers]
    exact h.poller

/-- A poll of the poller, when those before it are over. -/
theorem Replays.absorb (h : before.Replays id poller entries earlier)
    (hover : before.settling id = []) (answer : Poll.Answer) :
    (before.absorb id answer).2.Replays id poller entries (earlier ++ [answer]) := by
  obtain ⟨current, hcurrent, htarget, hsettled⟩ := h.poller
  rw [hover, List.foldl_nil] at hsettled
  cases answer with
  | error error =>
    simp only [Engine.absorb, hcurrent]
    refine ⟨?_, current, hcurrent, htarget, ?_⟩
    · rw [Poll.replay_append]
      exact h.leaf
    · rw [Poll.Poller.after_append, ← hsettled]
      exact congrArg (List.foldl Poll.Poller.settle current) hover
  | ok response =>
    obtain ⟨changed, heffect⟩ : ∃ changed,
        Effect poller.target (before.editOf? poller.target (.absorb id (.ok response)))
          (before.push (.settle id response.checkpoint changed))
          (before.absorb id (.ok response)).2 := effect_absorb hcurrent
    rw [editOf?, hcurrent, Option.any_some, htarget, if_pos (decide_eq_true rfl)] at heffect
    refine ⟨?_, current, heffect.pollers id current hcurrent, htarget, ?_⟩
    · rw [heffect.leaf _ h.leaf, Poll.replay_append]
      exact congrArg some (Edit.run_update response.content _)
    · have hsettling : (before.push (.settle id response.checkpoint changed)).settling id =
          [response.checkpoint] := by
        rw [settling_of_stack rfl, Frame.settles?, if_pos rfl]
        exact congrArg (response.checkpoint :: ·) hover
      rw [heffect.settling, hsettling, Poll.Poller.after_append, ← hsettled]
      rfl

/-- A poll of another poller, whose leaf is another one. -/
theorem Replays.absorb_of_ne (h : before.Replays id poller entries earlier) (hne : other ≠ id)
    {answer : Poll.Answer}
    (hnone : before.editOf? poller.target (.absorb other answer) = none) :
    (before.absorb other answer).2.Replays id poller entries earlier := by
  cases hother : before.pollerAt? other with
  | none =>
    simp only [Engine.absorb, hother]
    exact h
  | some found =>
    cases answer with
    | error error =>
      simp only [Engine.absorb, hother]
      exact h.of_stack rfl rfl rfl
    | ok response =>
      obtain ⟨changed, heffect⟩ : ∃ changed,
          Effect poller.target (before.editOf? poller.target (.absorb other (.ok response)))
            (before.push (.settle other response.checkpoint changed))
            (before.absorb other (.ok response)).2 := effect_absorb hother
      have hpushed : (before.push (.settle other response.checkpoint changed)).Replays id poller
          entries earlier := by
        refine h.of_stack ?_ rfl rfl
        rw [settling_of_stack rfl, Frame.settles?, if_neg hne]
        rfl
      exact hpushed.of_effect (hnone ▸ heffect)

/-- The rest of a poll keeps its checkpoint. -/
theorem Replays.settle {checkpoint : Option String} {changed : Bool}
    (h : before.Replays id poller entries earlier)
    (hstack : before.stack = .settle other checkpoint changed :: rest) :
    ({ before with stack := rest }.settle other checkpoint changed).Replays id poller entries
      earlier := by
  obtain ⟨current, hcurrent, htarget, hsettled⟩ := h.poller
  have hsettling := settling_of_stack hstack id
  unfold Engine.settle
  split
  · rename_i hmissing
    refine h.of_stack ?_ rfl rfl
    have hne : other ≠ id := by
      rintro rfl
      exact absurd (hmissing.symm.trans hcurrent) (by simp)
    rw [hsettling, Frame.settles?, if_neg hne]
    rfl
  · refine ⟨h.leaf, ?_⟩
    have hafter (f : Poll.Poller → Poll.Poller) (counter : Counter) :
        (({ before with stack := rest }.modifyPoller other f).count counter).pollerAt? id =
          if other = id then some (f current) else some current := by
      refine (pollerAt?_modifyPoller _ other id f).trans ?_
      have hkept : ({ before with stack := rest } : Engine V).pollerAt? id = some current :=
        hcurrent
      rw [hkept]
      rfl
    by_cases hid : other = id
    · rw [Frame.settles?, if_pos hid] at hsettling
      refine ⟨current.settle checkpoint, by rw [hafter, if_pos hid], htarget, ?_⟩
      rw [hsettling] at hsettled
      exact hsettled
    · rw [Frame.settles?, if_neg hid] at hsettling
      refine ⟨current, by rw [hafter, if_neg hid], htarget, ?_⟩
      rw [hsettling] at hsettled
      exact hsettled

variable [BEq V] {move : Move V} {moves : List (Move V)}

theorem Replays.step (h : before.Replays id poller entries earlier)
    (hstep : before.step = some after) : after.Replays id poller entries earlier := by
  unfold Engine.step at hstep
  split at hstep
  · exact absurd hstep (by simp)
  · rename_i frame rest hstack
    by_cases hframe : frame.isSettle = true
    · cases frame with
      | settle other checkpoint changed =>
        obtain rfl := Option.some.inj hstep
        exact h.settle hstack
      | _ => exact absurd hframe (by simp [Frame.isSettle])
    · replace hframe : frame.isSettle = false := by simpa using hframe
      have hpopped : Replays { before with stack := rest } id poller entries earlier := by
        refine h.of_stack ?_ rfl rfl
        rw [settling_of_stack hstack, frame.settles?_of_not_isSettle hframe]
        rfl
      exact hpopped.of_effect (effect_run hframe hstep)

omit [BEq V] in
theorem Replays.resume (h : before.Replays id poller entries earlier) :
    before.resume.Replays id poller entries earlier := by
  unfold Engine.resume
  split
  · rename_i call rest hstack
    refine h.of_stack ?_ rfl rfl
    rw [settling_of_stack hstack]
    rfl
  · exact h

/-- Every move, of which only the answers of the poller's own polls count. -/
theorem Replays.of_move (h : before.Replays id poller entries earlier)
    (hkind : before.pollsAlone id poller.target move = true)
    (hmove : before.move? move = some after) :
    after.Replays id poller entries (earlier ++ (move.answer? id).toList) := by
  cases hanswer : move.answer? id with
  | some answer =>
    obtain rfl := Move.answer?_eq_some.mp hanswer
    obtain ⟨-, hstart⟩ := Option.ite_none_right_eq_some.mp hmove
    obtain rfl := Option.some.inj hstart
    simp only [pollsAlone, hanswer] at hkind
    exact h.absorb (List.isEmpty_iff.mp hkind) answer
  | none =>
    rw [Option.toList_none, List.append_nil]
    cases move with
    | step => exact h.step hmove
    | resume =>
      obtain ⟨-, hresume⟩ := Option.ite_none_right_eq_some.mp hmove
      exact Option.some.inj hresume ▸ h.resume
    | wake registry =>
      obtain ⟨-, htake⟩ := Option.ite_none_right_eq_some.mp hmove
      exact h.of_effect (effect_takeTask htake)
    | call call =>
      obtain ⟨⟨-, hallows⟩, hstart⟩ := Option.ite_none_right_eq_some.mp hmove
      obtain rfl := Option.some.inj hstart
      simp only [pollsAlone, hanswer] at hkind
      have hnone : before.editOf? poller.target call = none := Option.isNone_iff_eq_none.mp hkind
      by_cases hpoll : ∃ other answer, call = .absorb other answer
      · obtain ⟨other, answer, rfl⟩ := hpoll
        refine h.absorb_of_ne (fun hid => ?_) hnone
        simp [Move.answer?, hid] at hanswer
      · have heffect : Effect poller.target (before.editOf? poller.target call) before _ :=
          effect_start hallows fun other answer heq => hpoll ⟨other, answer, heq⟩
        exact h.of_effect (hnone ▸ heffect)

-- ---------------------------------------------------------------------------
-- Runs
-- ---------------------------------------------------------------------------

theorem Replays.of_play? (h : start.Replays id poller entries earlier)
    (hplay : start.play? moves = some finish)
    (halone : start.every (pollsAlone id poller.target) moves = true) :
    finish.Replays id poller entries (earlier ++ answers id moves) := by
  induction moves generalizing start earlier with
  | nil =>
    obtain rfl := Option.some.inj hplay
    rw [answers, List.filterMap_nil, List.append_nil]
    exact h
  | cons move rest ih =>
    obtain ⟨next, hnext, hrest⟩ := play?_cons_eq_some.mp hplay
    obtain ⟨hkind, hlater⟩ := (every_cons hnext).mp halone
    have hfinish := ih (h.of_move hkind hnext) hrest hlater
    rw [List.append_assoc] at hfinish
    have hanswers : answers id (move :: rest) = (move.answer? id).toList ++ answers id rest := by
      rw [answers, List.filterMap_cons]
      cases move.answer? id <;> rfl
    exact hanswers ▸ hfinish

/-- A poller whose polls follow one upon the other, and whose leaf nobody else edits,
replays its source. The leaf holds what the answers so far make of its entries; between
polls the poller has the last of their checkpoints. It asks for everything until a poll has
succeeded, and for what came after that checkpoint. A failed poll changes nothing. -/
theorem entries_eq_replay (hpoller : start.pollerAt? id = some poller)
    (hcheckpoint : poller.checkpoint = none) (hinitialized : poller.initialized = false)
    (hleaf : start.forest.leaf? poller.target = some entries) (hover : start.settling id = [])
    (hplay : start.play? moves = some finish)
    (halone : start.every (pollsAlone id poller.target) moves = true) :
    finish.forest.entries poller.target = Poll.replay (answers id moves) entries ∧
      (finish.settling id = [] → finish.pollerAt? id = some { poller with
        checkpoint := Poll.lastCheckpoint? (answers id moves)
        initialized := !(Poll.responses (answers id moves)).isEmpty }) ∧
      ∀ former answer latter, moves = former ++ .call (.absorb id answer) :: latter →
        ∃ before after current, start.play? former = some before ∧
          before.move? (.call (.absorb id answer)) = some after ∧
          before.pollerAt? id = some current ∧
          current.request = ⟨(Poll.responses (answers id former)).isEmpty,
            Poll.lastCheckpoint? (answers id former)⟩ ∧
          ∀ error, answer = .error error → (before.absorb id answer).1 = .error error ∧
            after.forest = before.forest ∧ after.pollers = before.pollers ∧
            after.stack = before.stack := by
  have hstart : start.Replays id poller entries [] :=
    ⟨hleaf, poller, hpoller, rfl, by rw [hover]; rfl⟩
  have hfinish := hstart.of_play? hplay halone
  refine ⟨Forest.entries_of_leaf? hfinish.leaf, fun hidle => ?_, ?_⟩
  · obtain ⟨current, hcurrent, -, hsettled⟩ := hfinish.poller
    rw [hidle, List.foldl_nil, Poll.Poller.after_eq, hcheckpoint, hinitialized, Option.or_none,
      Bool.false_or] at hsettled
    rw [hcurrent, hsettled]
    rfl
  · rintro former answer latter rfl
    obtain ⟨before, hformer, hlatter⟩ := play?_append_eq_some.mp hplay
    obtain ⟨after, hmove, -⟩ := play?_cons_eq_some.mp hlatter
    obtain ⟨hearlier, hlater⟩ := every_append hformer halone
    have hbefore := hstart.of_play? hformer hearlier
    obtain ⟨current, hcurrent, -, hsettled⟩ := hbefore.poller
    have hidle : before.settling id = [] := by
      simpa [pollsAlone, Move.answer?] using ((every_cons hmove).mp hlater).1
    rw [hidle, List.foldl_nil, List.nil_append] at hsettled
    refine ⟨before, after, current, hformer, hmove, hcurrent, ?_, ?_⟩
    · rw [hsettled]
      exact Poll.Poller.request_after hcheckpoint hinitialized _
    · rintro error rfl
      obtain ⟨-, habsorb⟩ := Option.ite_none_right_eq_some.mp hmove
      obtain rfl := Option.some.inj habsorb
      have hfailed : before.absorb id (.error error) =
          (.error error, before.count (.polls current.source .error)) := by
        simp only [Engine.absorb, hcurrent]
      refine ⟨by rw [hfailed], ?_⟩
      have hafter : before.start (.absorb id (.error error)) = _ := congrArg Prod.snd hfailed
      rw [hafter]
      exact ⟨rfl, rfl, rfl⟩

/-- A poller over an observed leaf that is empty. -/
def polledLeaf : List (Move V) := observedLeaf .empty ++ [.call (.addPoller "source" 0)]

/-- A snapshot, a failure, and a delta that sets what it removes, with a checkpoint. -/
def threePolls : List (Move V) :=
  [.call (.absorb 0 (.ok ⟨.snapshot (.ofPairs [("key", "one"), ("other", "two")]), some "first"⟩)),
    .step, .resume, .step, .step, .call (.absorb 0 (.error (.source "unavailable"))),
    .call (.absorb 0 (.ok ⟨.delta ["key", "other"] (.ofPairs [("key", "three")]), none⟩)),
    .step, .resume, .step, .step]

theorem entries_eq_replay_threePolls : ∃ start finish : Engine Nat,
    ({} : Engine Nat).play? polledLeaf = some start ∧ start.play? threePolls = some finish ∧
      finish.isIdle ∧ finish.forest.entries 0 = .ofPairs [("key", "three")] ∧
      finish.pollerAt? 0 = some ⟨"source", 0, some "first", true⟩ := by
  have hrun : (({} : Engine Nat).play? polledLeaf).any (fun start =>
      start.pollerAt? 0 = some ⟨"source", 0, none, false⟩ && start.forest.leaf? 0 = some .empty &&
        (start.settling 0).isEmpty && start.every (pollsAlone 0 0) threePolls &&
        (start.play? threePolls).any fun finish => finish.isIdle && (finish.settling 0).isEmpty) =
          true := by
    decide
  simp only [Option.any_eq_true, Bool.and_eq_true, decide_eq_true_eq, List.isEmpty_iff] at hrun
  obtain ⟨start, hearlier, ⟨⟨⟨hpoller, hleaf⟩, hover⟩, halone⟩, finish, hplay, hidle, hdone⟩ := hrun
  have hreplay := entries_eq_replay hpoller rfl rfl hleaf hover hplay halone
  exact ⟨start, finish, hearlier, hplay, hidle, hreplay.1, (hreplay.2.1 hdone)⟩

end Engine

end Overlay

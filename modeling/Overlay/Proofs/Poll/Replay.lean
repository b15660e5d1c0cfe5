import Overlay.Poll.Poller
import Overlay.Proofs.Edit.Asked

/-!
# Replays

What answers make of the entries of a leaf (`replay`) and of the poller that takes them
over (`Poller.after`), one after the other. Only successful polls count, and of their
checkpoints the last.
-/

namespace Overlay.Poll

/-- What the successful polls brought. -/
def responses (answers : List Answer) : List Response := answers.filterMap Except.toOption

/-- The entries that these answers make of others. -/
def replay (answers : List Answer) (entries : Entries) : Entries :=
  (responses answers).foldl (fun entries response => response.content.apply entries) entries

/-- The last checkpoint that came with a successful answer. -/
def lastCheckpoint? (answers : List Answer) : Option String :=
  ((responses answers).filterMap (·.checkpoint)).getLast?

/-- The poller when it has taken these answers over. -/
def Poller.after (poller : Poller) (answers : List Answer) : Poller :=
  (responses answers).foldl (fun poller response => poller.settle response.checkpoint) poller

variable {answers earlier later : List Answer} {entries : Entries} {poller : Poller}

theorem responses_append : responses (earlier ++ later) = responses earlier ++ responses later :=
  List.filterMap_append

@[simp]
theorem responses_ok (response : Response) : responses [.ok response] = [response] := rfl

@[simp]
theorem responses_error (error : PollError) : responses [.error error] = [] := rfl

theorem replay_append :
    replay (earlier ++ later) entries = replay later (replay earlier entries) := by
  rw [replay, responses_append, List.foldl_append]
  rfl

theorem lastCheckpoint?_append :
    lastCheckpoint? (earlier ++ later) = (lastCheckpoint? later).or (lastCheckpoint? earlier) := by
  rw [lastCheckpoint?, responses_append, List.filterMap_append, List.getLast?_append]
  rfl

theorem Poller.after_append :
    poller.after (earlier ++ later) = (poller.after earlier).after later := by
  rw [Poller.after, responses_append, List.foldl_append]
  rfl

theorem Poller.after_eq (poller : Poller) (answers : List Answer) : poller.after answers =
    { poller with
      checkpoint := (lastCheckpoint? answers).or poller.checkpoint
      initialized := poller.initialized || !(responses answers).isEmpty } := by
  induction answers generalizing poller with
  | nil => simp [Poller.after, lastCheckpoint?, responses]
  | cons answer rest ih =>
    rw [← List.singleton_append, after_append, ih, lastCheckpoint?_append, responses_append]
    cases answer with
    | error error => simp [Poller.after, lastCheckpoint?]
    | ok response =>
      cases h : response.checkpoint <;> simp [Poller.after, settle, lastCheckpoint?, h]

/-- A poller that starts afresh asks for everything until a poll has succeeded, and for
what came after the last checkpoint. -/
theorem Poller.request_after (hcheckpoint : poller.checkpoint = none)
    (hinitialized : poller.initialized = false) (answers : List Answer) :
    (poller.after answers).request = ⟨(responses answers).isEmpty, lastCheckpoint? answers⟩ := by
  simp [after_eq, request, hcheckpoint, hinitialized]

end Overlay.Poll

import Overlay.Poll.Backoff
import Overlay.Poll.Poller
import Overlay.Poll.Record
import Overlay.Settings

/-!
# Schedules

Polling at a fixed rate, in time counted in milliseconds from the start. A
synchronous schedule first polls until a poll succeeds, with a delay after each
failure; an asynchronous one starts right away. Then a poll is due once every
period. A poll is never cut short: one that is still running when the next is due
delays it, and one that is running at the shutdown is completed.

`Schedule.step` is the next thing that happens, at `Schedule.nextTime`.
-/

namespace Overlay.Poll

/-- An answer, and how long the source takes to give it. -/
structure Reply where
  answer : Answer
  duration : Nat := 0

/-- What a schedule is given. -/
structure Plan where
  settings : PollingSettings
  /-- When the shutdown is signalled. -/
  stopAt : Option Nat := none
  /-- The random draw for the jitter of each attempt's retry delay. -/
  draw : Nat → Nat := fun _ => 0
  /-- The delay after an attempt when delay and jitter pass the largest number. -/
  overflow : Nat → Nat := fun _ => maxMillis

/-- Has the shutdown been signalled by a time? -/
def Plan.stopped (plan : Plan) (time : Nat) : Bool :=
  match plan.stopAt with
  | some stop => stop ≤ time
  | none => false

/-- The delay after a failed initial attempt. -/
def Plan.retryDelay (plan : Plan) (attempt : Nat) : Nat :=
  (retryDelay? attempt plan.settings.retryDelayMs plan.settings.maxRetryDelay
    (plan.draw attempt)).getD (plan.overflow attempt)

inductive Phase
  /-- An initial attempt is next. -/
  | attempting
  /-- An initial poll runs until a time. -/
  | initialPoll (ends : Nat) (answer : Answer)
  /-- The next initial attempt is at a time. -/
  | retrying (time : Nat)
  /-- The next poll is due at a time. -/
  | waiting (due : Nat)
  /-- A poll runs until a time; the next one is due at another. -/
  | polling (ends due : Nat) (answer : Answer)
  | stopped
  /-- The schedule gave up before it began. -/
  | failed (error : PollError)

structure Schedule where
  now : Nat := 0
  phase : Phase
  /-- The answers still to come. Then nothing changes any more. -/
  replies : List Reply
  poller : Poller
  entries : Entries := .empty
  version : Nat := 0
  record : Record := {}
  /-- The polls made so far, the latest first: when, and with what request. -/
  polls : List (Nat × Request) := []

namespace Schedule

/-- A tick served this much later than due still counts as served in time. -/
def tolerance : Nat := 5

/-- When the poll after one that was due at `due` and began at `began` is due. -/
def nextDue (period due began : Nat) : Nat :=
  if due + tolerance < began then began + period else due + period

/-- The schedule at its start. -/
def start (plan : Plan) (replies : List Reply) (poller : Poller) : Schedule :=
  if plan.settings.periodMs = 0 then { phase := .failed .zeroPeriod, replies, poller }
  else
    match plan.settings.initial with
    | .sync => { phase := .attempting, replies, poller }
    | .async => { phase := .waiting 0, replies, poller, record := { nextDue := some 0 } }

/-- The answer to the next poll. -/
def reply (schedule : Schedule) : Reply :=
  schedule.replies.head?.getD ⟨.ok ⟨.unchanged, none⟩, 0⟩

/-- A poll begins; `phase` is what it is a part of. -/
def begin (schedule : Schedule) (time : Nat) (phase : Nat → Answer → Phase) : Schedule :=
  let reply := schedule.reply
  { schedule with
    now := time
    phase := phase (time + reply.duration) reply.answer
    replies := schedule.replies.tail
    polls := (time, schedule.poller.request) :: schedule.polls }

/-- A poll has ended: apply its answer and take its result down. -/
def finish (schedule : Schedule) (time : Nat) : Answer → Schedule
  | .error error =>
    { schedule with now := time, record := schedule.record.add time (.error error) }
  | .ok response =>
    let (entries, changed) := Edit.run schedule.entries (.update response.content)
    { schedule with
      now := time
      entries := if changed then entries else schedule.entries
      version := if changed then schedule.version + 1 else schedule.version
      poller := schedule.poller.settle response.checkpoint
      record := schedule.record.add time (.ok ()) }

/-- Wait for a poll, which is to be due at a time. -/
def waitFor (schedule : Schedule) (due announced : Nat) : Schedule :=
  { schedule with
    phase := .waiting due
    record := { schedule.record with nextDue := some announced } }

def fail (schedule : Schedule) (time : Nat) (error : PollError) : Schedule :=
  { schedule with now := time, phase := .failed error }

def stop (schedule : Schedule) (time : Nat) : Schedule :=
  { schedule with
    now := time
    phase := .stopped
    record := { schedule.record with nextDue := none } }

/-- The time at which a wait until `time` ends, which the shutdown cuts short. -/
def wake (schedule : Schedule) (plan : Plan) (time : Nat) : Nat :=
  let time := max schedule.now time
  match plan.stopAt with
  | some stop => min time (max schedule.now stop)
  | none => time

/-- When the next thing happens. -/
def nextTime (schedule : Schedule) (plan : Plan) : Option Nat :=
  match schedule.phase with
  | .attempting => some schedule.now
  | .initialPoll ends _ | .polling ends _ _ => some ends
  | .retrying time => some (schedule.wake plan time)
  | .waiting due => some (schedule.wake plan due)
  | .stopped | .failed _ => none

/-- The next thing that happens. -/
def step (schedule : Schedule) (plan : Plan) : Option Schedule :=
  let period := plan.settings.periodMs
  match schedule.phase with
  | .attempting =>
    some (if plan.stopped schedule.now then schedule.fail schedule.now .interrupted
      else schedule.begin schedule.now .initialPoll)
  | .initialPoll ends answer =>
    let schedule := schedule.finish ends answer
    match answer with
    | .ok _ => some (schedule.waitFor (ends + period) (ends + period))
    | .error _ =>
      some (if plan.stopped ends then schedule.fail ends .interrupted
        else { schedule with
          phase := .retrying (ends + plan.retryDelay schedule.record.attempts) })
  | .retrying time =>
    let woken := schedule.wake plan time
    some (if plan.stopped woken then schedule.fail woken .interrupted
      else { schedule with now := woken, phase := .attempting })
  | .waiting due =>
    let woken := schedule.wake plan due
    some (if plan.stopped woken then schedule.stop woken
      else schedule.begin woken fun ends answer =>
        .polling ends (nextDue period due woken) answer)
  | .polling ends due answer => some ((schedule.finish ends answer).waitFor due (ends + period))
  | .stopped | .failed _ => none

/-- Is the schedule still looking for its first success? -/
def starting (schedule : Schedule) : Bool :=
  match schedule.phase with
  | .attempting | .initialPoll _ _ | .retrying _ => true
  | _ => false

def running (schedule : Schedule) : Bool :=
  match schedule.phase with
  | .waiting _ | .polling _ _ _ => true
  | _ => false

def failure (schedule : Schedule) : Option PollError :=
  match schedule.phase with
  | .failed error => some error
  | _ => none

/-- Take up to `fuel` steps as long as `continues` holds. -/
def runWhile (plan : Plan) (continues : Schedule → Bool) : Nat → Schedule → Schedule
  | 0, schedule => schedule
  | fuel + 1, schedule =>
    if continues schedule then
      match schedule.step plan with
      | some next => runWhile plan continues fuel next
      | none => schedule
    else schedule

/-- More steps than there are up to a time: an initial attempt takes three and
uses up an answer, a poll takes two and the next one is due later. -/
def stepBound (schedule : Schedule) (time : Nat) : Nat :=
  3 * (schedule.replies.length + 2) + 2 * (time + 2)

/-- The schedule when it has left its initial phase. -/
def execute (plan : Plan) (schedule : Schedule) : Schedule :=
  runWhile plan starting (schedule.stepBound 0) schedule

/-- The schedule after everything that happens up to a time. -/
def runUntil (plan : Plan) (time : Nat) (schedule : Schedule) : Schedule :=
  runWhile plan (fun s => match s.nextTime plan with
    | some next => next ≤ time
    | none => false) (schedule.stepBound time) schedule

/-- The schedule at each of some times, as long as they are still to come, and at
the last of them. -/
def observe (plan : Plan) : List Nat → Nat → Schedule → List (Nat × Schedule) × Schedule
  | [], _, schedule => ([], schedule)
  | time :: rest, reached, schedule =>
    if reached < time then
      let schedule := schedule.runUntil plan time
      let (later, last) := observe plan rest time schedule
      ((time, schedule) :: later, last)
    else observe plan rest reached schedule

/-- How long all answers still to come and the one under way take at most. -/
def remaining (schedule : Schedule) : Nat :=
  schedule.replies.foldr (fun reply total => reply.duration + total) 0 +
    match schedule.phase with
    | .initialPoll ends _ | .polling ends _ _ => ends - schedule.now
    | _ => 0

/-- The schedule after the shutdown, when its last poll has ended. A schedule that
is never shut down goes on; it is given as it stands. -/
def complete (plan : Plan) (schedule : Schedule) : Schedule :=
  match plan.stopAt with
  | some stop => schedule.runUntil plan (max schedule.now stop + schedule.remaining)
  | none => schedule

/-- The receivers of the shutdown signal that belong to the schedule. -/
def receiverCount (schedule : Schedule) : Nat :=
  if schedule.starting || schedule.running then 1 else 0

/-- What waiting for the schedule gives, once it has ended. -/
def outcome (schedule : Schedule) : Except PollError Unit :=
  match schedule.failure with
  | some error => .error error
  | none => .ok ()

end Schedule

/-- How a strategy looks, given whether its shutdown has been signalled. -/
def describeStrategy (settings : PollingSettings) (stopped : Bool) : String :=
  describeFields "FixedRatePollingStrategy"
    [("settings", settings.describe), ("shutdown", toString stopped)]

end Overlay.Poll

import Overlay.Poll.Record
import Overlay.Value.Describe

/-!
# Polling on demand

A strategy that polls once for each demand and never on its own. The first
execution starts a runner, which serves the demands in order, one at a time; it
alone may. A shutdown refuses demands from then on and reaches the runner if it
has been started by then: it ends before it serves another demand, and whoever
still waits is refused.
-/

namespace Overlay.Poll

abbrev DemandId := Nat

/-- The one that serves demands. -/
structure Runner where
  /-- What it runs for each demand. -/
  poller : Nat
  /-- Has the shutdown reached it? -/
  signalled : Bool := false
  running : Bool := true
  /-- The demand being served. -/
  serving : Option DemandId := none
  record : Record := {}
deriving Repr

structure OnDemand where
  stopped : Bool := false
  /-- Has its owner let go of it? -/
  released : Bool := false
  runner : Option Runner := none
  waiting : List DemandId := []
  /-- The number of the next demand. -/
  next : DemandId := 0
  answers : List (DemandId × Except PollError Unit) := []

/-- What an execution returned. -/
structure Execution where
  failure : Option PollError
  running : Bool
  record : Record
deriving Repr

namespace OnDemand

/-- Only the first execution may serve demands. -/
def alreadyExecuting : PollError := .source "manual strategy is already executing"

/-- Start serving demands with a poller. -/
def execute (strategy : OnDemand) (poller : Nat) : Except PollError Unit × OnDemand :=
  match strategy.runner with
  | some _ => (.error alreadyExecuting, strategy)
  | none => (.ok (), { strategy with runner := some { poller } })

/-- Can a demand still be put in the queue? -/
def accepts (strategy : OnDemand) : Bool :=
  !strategy.stopped &&
    match strategy.runner with
    | some runner => runner.running
    | none => true

/-- Demand a poll. -/
def fire (strategy : OnDemand) : DemandId × OnDemand :=
  let id := strategy.next
  let strategy := { strategy with next := id + 1 }
  (id,
    if strategy.accepts then { strategy with waiting := strategy.waiting ++ [id] }
    else { strategy with answers := strategy.answers ++ [(id, .error .notRunning)] })

/-- Shut down. Again does nothing. -/
def stop (strategy : OnDemand) : OnDemand :=
  if strategy.stopped then strategy
  else
    { strategy with
      stopped := true
      runner := strategy.runner.map fun runner => { runner with signalled := true } }

/-- Let go of the strategy; nobody can demand a poll any more. -/
def release (strategy : OnDemand) : OnDemand := { strategy with released := true }

/-- The runner ends, and refuses whoever waits. -/
def finish (strategy : OnDemand) (runner : Runner) : OnDemand :=
  { strategy with
    runner := some { runner with running := false }
    waiting := []
    answers := strategy.answers ++ strategy.waiting.map fun id => (id, .error .notRunning) }

/-- What the runner does next, when it is not waiting for a poll to end: it ends,
or it begins to serve a demand and the poll of the number returned is to be run. -/
def advance (strategy : OnDemand) : Option (Option Nat × OnDemand) :=
  match strategy.runner with
  | none => none
  | some runner =>
    if !runner.running || runner.serving.isSome then none
    else if runner.signalled || strategy.released then some (none, strategy.finish runner)
    else
      match strategy.waiting with
      | [] => none
      | id :: rest =>
        some (some runner.poller,
          { strategy with runner := some { runner with serving := some id }, waiting := rest })

/-- The poll for the demand being served has ended. -/
def complete (strategy : OnDemand) (now : Nat) (result : Except PollError Unit) : OnDemand :=
  match strategy.runner with
  | some runner =>
    match runner.serving with
    | some id =>
      { strategy with
        runner := some { runner with serving := none, record := runner.record.add now result }
        answers := strategy.answers ++ [(id, result)] }
    | none => strategy
  | none => strategy

def answer? (strategy : OnDemand) (id : DemandId) : Option (Except PollError Unit) :=
  strategy.answers.lookup id

/-- The first execution as it stands. -/
def execution (strategy : OnDemand) : Execution :=
  match strategy.runner with
  | some runner => ⟨none, runner.running, runner.record⟩
  | none => ⟨none, false, {}⟩

def describe (strategy : OnDemand) : String :=
  describeFields "ManualPollingStrategy" [("shutdown", toString strategy.stopped)]

end OnDemand

/-- An execution that failed at once. -/
def Execution.failed (error : PollError) : Execution := ⟨some error, false, {}⟩

end Overlay.Poll

/-!
# Metrics

Counters of the work done, and for each node name the version last reported for
it. Nodes of one name share a gauge.
-/

namespace Overlay

/-- Which step of resolving a property failed. -/
inductive Stage
  | converter
  | decode
  | interpolation
deriving DecidableEq, Repr

def Stage.label : Stage → String
  | .converter => "converter"
  | .decode => "decode"
  | .interpolation => "interpolation"

inductive PollResult
  | changed
  | unchanged
  | error
deriving DecidableEq, Repr

def PollResult.label : PollResult → String
  | .changed => "changed"
  | .unchanged => "unchanged"
  | .error => "error"

inductive Counter
  /-- Polls of a source, by how they ended. -/
  | polls (source : String) (result : PollResult)
  /-- Resolutions of a property. -/
  | refreshes
  /-- Resolutions that failed. -/
  | failures (stage : Stage)
  /-- Calls of property listeners. -/
  | notifications
deriving DecidableEq, Repr

structure Metrics where
  counts : List (Counter × Nat) := []
  versions : List (String × Nat) := []

namespace Metrics

def count (metrics : Metrics) (counter : Counter) : Nat := (metrics.counts.lookup counter).getD 0

/-- The version last reported under a name. -/
def version? (metrics : Metrics) (name : String) : Option Nat := metrics.versions.lookup name

/-- Replace the number of a key, or add it. -/
def put {α : Type} [DecidableEq α] (a : α) (n : Nat) (items : List (α × Nat)) : List (α × Nat) :=
  (a, n) :: items.filter (·.1 ≠ a)

def increment (metrics : Metrics) (counter : Counter) : Metrics :=
  { metrics with counts := put counter (metrics.count counter + 1) metrics.counts }

def report (metrics : Metrics) (name : String) (version : Nat) : Metrics :=
  { metrics with versions := put name version metrics.versions }

theorem lookup_put {α : Type} [DecidableEq α] (a b : α) (n : Nat) (items : List (α × Nat)) :
    (put a n items).lookup b = if b = a then some n else items.lookup b := by
  unfold put
  induction items with
  | nil => grind
  | cons item rest ih =>
    obtain ⟨c, m⟩ := item
    simp only [List.filter_cons]
    split <;> grind

@[simp] theorem count_increment (metrics : Metrics) (counter other : Counter) :
    (metrics.increment counter).count other =
      metrics.count other + if other = counter then 1 else 0 := by
  simp only [count, increment, lookup_put]
  split <;> simp_all

@[simp] theorem count_report (metrics : Metrics) (name : String) (version : Nat)
    (counter : Counter) : (metrics.report name version).count counter = metrics.count counter :=
  rfl

/-- One measurement: the metric's name, its labels in order, and the number. -/
structure Sample where
  name : String
  labels : List (String × String)
  number : Nat
deriving DecidableEq, Repr

def sampleCount : Counter × Nat → Sample
  | (.polls source result, n) =>
    ⟨"live_config_polls_total", [("outcome", result.label), ("source", source)], n⟩
  | (.refreshes, n) => ⟨"live_config_property_refresh_total", [], n⟩
  | (.failures stage, n) => ⟨"live_config_decode_errors_total", [("stage", stage.label)], n⟩
  | (.notifications, n) => ⟨"live_config_notifications_total", [], n⟩

def Sample.before (a b : Sample) : Bool :=
  a.name < b.name || (a.name == b.name && a.labels.map (·.2) < b.labels.map (·.2))

/-- All measurements, by name and then by labels. -/
def samples (metrics : Metrics) : List Sample :=
  let all := metrics.counts.map sampleCount ++
    metrics.versions.map fun (name, version) =>
      ⟨"live_config_tree_version", [("name", name)], version⟩
  all.mergeSort fun a b => !b.before a

end Metrics

end Overlay

import Overlay.Template.Expand
import Overlay.Text.Blank
import Overlay.Numeral.Whole
import Overlay.Value.Describe

/-!
# Settings

The settings that tune the parts of the library, with their defaults, and what
must hold of them. Validation reports every problem, not just the first.
-/

namespace Overlay

open Template (MissingPolicy)

/-- The word for a choice, given the words for all of them. -/
def wordFor {α : Type} [DecidableEq α] (words : List (String × α)) (choice : α) : String :=
  ((words.find? (·.2 = choice)).map (·.1)).getD ""

def missingWords : List (String × MissingPolicy) :=
  [("fail", .fail), ("passthrough", .passthrough)]

structure InterpolationSettings where
  /-- What becomes of a placeholder whose key is unset and that has no default. -/
  missing : MissingPolicy := .fail
deriving DecidableEq, Repr

/-- When property listeners are called. -/
inductive NotificationMode
  | eager
  | lazy
deriving DecidableEq, Repr

def notificationWords : List (String × NotificationMode) := [("eager", .eager), ("lazy", .lazy)]

structure RegistrySettings where
  /-- The number of locks that the keys are spread over. -/
  shardCount : Nat := 16
  listDelimiter : String := ","
  notification : NotificationMode := .eager
deriving DecidableEq, Repr

/-- Does a schedule start with a successful poll, or at once? -/
inductive InitialMode
  | sync
  | async
deriving DecidableEq, Repr

def initialWords : List (String × InitialMode) := [("sync", .sync), ("async", .async)]

structure PollingSettings where
  periodMs : Nat := 30000
  /-- The delay before a failed initial poll is tried again. -/
  retryDelayMs : Nat := 1000
  /-- The bound of growing retry delays; without it they do not grow. -/
  maxRetryDelayMs : Option Nat := none
  initial : InitialMode := .sync
deriving DecidableEq, Repr

/-- The bound of retry delays, grown or not. -/
def PollingSettings.maxRetryDelay (settings : PollingSettings) : Nat :=
  settings.maxRetryDelayMs.getD settings.retryDelayMs

structure CascadeSettings where
  separator : String := "-"
  parameters : List String := []
deriving DecidableEq, Repr

inductive LogFormat
  | pretty
  | json
deriving DecidableEq, Repr

def formatWords : List (String × LogFormat) := [("pretty", .pretty), ("json", .json)]

structure LoggingSettings where
  level : String := "info"
  format : LogFormat := .pretty
deriving DecidableEq, Repr

structure Settings where
  interpolation : InterpolationSettings := {}
  registry : RegistrySettings := {}
  polling : PollingSettings := {}
  cascade : CascadeSettings := {}
  logging : LoggingSettings := {}
deriving DecidableEq, Repr

/-- Something about the settings that must not be. -/
inductive SettingsProblem
  | noShards
  | emptyDelimiter
  | noPeriod
  | retryBound (retryDelayMs : Nat)
  | blankParameter
  | unknownLevel (level : String)
deriving DecidableEq, Repr

namespace SettingsProblem

def field : SettingsProblem → String
  | noShards => "registry.shard_count"
  | emptyDelimiter => "registry.list_delimiter"
  | noPeriod => "polling.period_ms"
  | retryBound _ => "polling.max_retry_delay_ms"
  | blankParameter => "cascade.parameters"
  | unknownLevel _ => "logging.level"

def message : SettingsProblem → String
  | noShards => "must be greater than 0"
  | emptyDelimiter => "must not be empty"
  | noPeriod => "must be greater than 0"
  | retryBound delay => s!"must be at least retry_delay_ms ({delay})"
  | blankParameter => "entries must not be blank"
  | unknownLevel level => s!"unknown level '{level}'"

end SettingsProblem

/-- A log level is a word in any case, or its number from 1 to 5. -/
def isLogLevel (level : String) : Bool :=
  ["error", "warn", "info", "debug", "trace"].contains
      (String.ofList (level.toList.map Char.toLower)) ||
    match Numeral.WholeType.usize.read level.toList with
    | .ok n => 1 ≤ n && n ≤ 5
    | .error _ => false

theorem isLogLevel_info : isLogLevel "info" = true := by
  rw [isLogLevel, Bool.or_eq_true]
  exact .inl (by decide)

/-- The problems of the settings, in the order of the fields. -/
def Settings.problems (settings : Settings) : List SettingsProblem :=
  (if settings.registry.shardCount = 0 then [.noShards] else []) ++
  (if settings.registry.listDelimiter.isEmpty then [.emptyDelimiter] else []) ++
  (if settings.polling.periodMs = 0 then [.noPeriod] else []) ++
  (match settings.polling.maxRetryDelayMs with
    | some bound =>
      if bound < settings.polling.retryDelayMs then [.retryBound settings.polling.retryDelayMs]
      else []
    | none => []) ++
  (if settings.cascade.parameters.any (fun p => (Text.trim p.toList).isEmpty) then
    [.blankParameter] else []) ++
  (if isLogLevel settings.logging.level then [] else [.unknownLevel settings.logging.level])

/-- Accept settings without problems. -/
def Settings.validate (settings : Settings) : Except (List SettingsProblem) Unit :=
  match settings.problems with
  | [] => .ok ()
  | problems => .error problems

def InitialMode.describe : InitialMode → String
  | .sync => "Sync"
  | .async => "Async"

def describeOption : Option String → String
  | none => "None"
  | some text => "Some(" ++ text ++ ")"

def PollingSettings.describe (settings : PollingSettings) : String :=
  describeFields "PollingSettings"
    [("period_ms", toString settings.periodMs),
      ("retry_delay_ms", toString settings.retryDelayMs),
      ("max_retry_delay_ms", describeOption (settings.maxRetryDelayMs.map toString)),
      ("initial", settings.initial.describe)]

end Overlay

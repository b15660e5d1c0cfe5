import Overlay.Settings
import Overlay.Toml.Document

/-!
# Reading settings

Settings are the data of a TOML document. Each section is a table whose keys are
the fields, or an array of the fields in order; a field that is left out has its
default, and keys that are no fields are ignored. A word of a choice may also be
the only key of a table, with an empty table or array as its value.
-/

namespace Overlay

open Template (MissingPolicy)

inductive SettingsError
  /-- The text cannot be read at all. -/
  | io
  | parse
  | invalid (problems : List SettingsProblem)
deriving DecidableEq, Repr

def SettingsProblem.line (problem : SettingsProblem) : String :=
  problem.field ++ ": " ++ problem.message

def SettingsError.message : SettingsError → String
  | .io => "IO error"
  | .parse => "Parse error"
  | .invalid problems =>
    "Validation failed: " ++ ", ".intercalate (problems.map SettingsProblem.line)

namespace Settings.Reader

/-- The value of a field by its name or by its position. A date has no fields. -/
def field? (section_ : Toml.Value) (name : String) (position : Nat) :
    Option Toml.Value :=
  match section_ with
  | .table members => members.lookup name
  | .array items => items[position]?
  | _ => none

/-- Can the value be a section? -/
def isSection : Toml.Value → Bool
  | .table _ | .array _ | .datetime => true
  | _ => false

/-- Read a field, which has a default. -/
def field {α : Type} (section_ : Toml.Value) (name : String) (position : Nat) (fallback : α)
    (read : Toml.Value → Option α) : Option α :=
  match field? section_ name position with
  | some value => read value
  | none => some fallback

def readText : Toml.Value → Option String
  | .string text => some text
  | _ => none

def readNumber : Toml.Value → Option Nat
  | .integer (.ofNat n) => some n
  | _ => none

def readTexts : Toml.Value → Option (List String)
  | .array items => items.mapM readText
  | _ => none

def isHollow : Toml.Value → Bool
  | .table [] | .array [] => true
  | _ => false

/-- Read one of several words. -/
def readWord {α : Type} (words : List (String × α)) : Toml.Value → Option α
  | .string word => words.lookup word
  | .table [(word, value)] => if isHollow value then words.lookup word else none
  | _ => none

def readInterpolation (value : Toml.Value) : Option InterpolationSettings := do
  guard (isSection value)
  let missing ← field value "missing" 0 .fail (readWord missingWords)
  return { missing }

def readRegistry (value : Toml.Value) : Option RegistrySettings := do
  guard (isSection value)
  let shardCount ← field value "shard_count" 0 16 readNumber
  let listDelimiter ← field value "list_delimiter" 1 "," readText
  let notification ← field value "notification" 2 .eager (readWord notificationWords)
  return { shardCount, listDelimiter, notification }

def readPolling (value : Toml.Value) : Option PollingSettings := do
  guard (isSection value)
  let periodMs ← field value "period_ms" 0 30000 readNumber
  let retryDelayMs ← field value "retry_delay_ms" 1 1000 readNumber
  let maxRetryDelayMs ← field value "max_retry_delay_ms" 2 none
    fun value => (readNumber value).map some
  let initial ← field value "initial" 3 .sync (readWord initialWords)
  return { periodMs, retryDelayMs, maxRetryDelayMs, initial }

def readCascade (value : Toml.Value) : Option CascadeSettings := do
  guard (isSection value)
  let separator ← field value "separator" 0 "-" readText
  let parameters ← field value "parameters" 1 [] readTexts
  return { separator, parameters }

def readLogging (value : Toml.Value) : Option LoggingSettings := do
  guard (isSection value)
  let level ← field value "level" 0 "info" readText
  let format ← field value "format" 1 .pretty (readWord formatWords)
  return { level, format }

/-- The settings of a document. -/
def readSettings (value : Toml.Value) : Option Settings := do
  let interpolation ← field value "interpolation" 0 {} readInterpolation
  let registry ← field value "registry" 1 {} readRegistry
  let polling ← field value "polling" 2 {} readPolling
  let cascade ← field value "cascade" 3 {} readCascade
  let logging ← field value "logging" 4 {} readLogging
  return { interpolation, registry, polling, cascade, logging }

end Settings.Reader

/-- Read and validate settings. -/
def Settings.parse (text : String) : Except SettingsError Settings :=
  match (Toml.document text).bind Settings.Reader.readSettings with
  | none => .error .parse
  | some settings =>
    match settings.validate with
    | .ok () => .ok settings
    | .error problems => .error (.invalid problems)

/-- Read and validate the settings in a file's bytes. There are none when the file
does not exist. -/
def Settings.load (file : Option ByteArray) : Except SettingsError Settings :=
  match file.bind String.fromUTF8? with
  | none => .error .io
  | some text => Settings.parse text

end Overlay

import Overlay.Metrics
import Overlay.Tree
import Overlay.Value.Decode

/-!
# Properties

A handle is the view of one key at one type. It keeps the value that it last
resolved together with the tree version at which it did; while the tree has that
version the value stands. A newer version makes the handle resolve again: look
the key up, expand the template found there, decode the text. A failure keeps
the value held before, and is remembered for its version like a success, so that
it is reported once.
-/

namespace Overlay

open Template (MissingPolicy TemplateError)

abbrev HandleId := Nat
abbrev ListenerId := Nat

inductive PropertyError
  | noDecoder (typeName : String)
  | undecodable (key : String) (error : DecodeError)
  | unresolvable (key : String) (error : TemplateError)
deriving DecidableEq, Repr

namespace PropertyError

def message : PropertyError → String
  | noDecoder typeName => s!"no decoder registered for type {typeName}"
  | undecodable key error => s!"property '{key}': {error.message}"
  | unresolvable key error => s!"property '{key}': {error.message}"

def stage : PropertyError → Stage
  | noDecoder _ => .converter
  | undecodable _ _ => .decode
  | unresolvable _ _ => .interpolation

end PropertyError

/-- What a listener is told about a property. -/
inductive Event (V : Type)
  | changed (value : V)
  | failed (error : PropertyError)
deriving DecidableEq

/-- A value, and the tree version at which it was resolved. -/
structure Cached (V : Type) where
  version : Nat
  value : V

structure Handle (V : Type) where
  registry : Nat
  key : String
  typeName : String
  /-- The value of the property while its key is unset. -/
  fallback : V
  decode : Decoder V
  cached : Option (Cached V) := none
  listeners : List ListenerId := []

/-- What came of reading a handle. -/
structure Reading (V : Type) where
  handle : Handle V
  /-- Was the property resolved again? -/
  refreshed : Bool
  event : Option (Event V)

namespace Handle

variable {V : Type}

/-- What the handle holds, resolved or not. -/
def held (handle : Handle V) : V :=
  match handle.cached with
  | some cached => cached.value
  | none => handle.fallback

/-- Resolve the property in a tree, whatever the handle holds. -/
def resolve (handle : Handle V) (policy : MissingPolicy) (tree : Tree) :
    Except PropertyError V :=
  match tree.get? handle.key with
  | none => .ok handle.fallback
  | some raw =>
    match Template.resolve policy tree.lookup raw with
    | .error error => .error (.unresolvable handle.key error)
    | .ok text => (handle.decode text).mapError (.undecodable handle.key)

/-- The handle with this value for this version. -/
def store (handle : Handle V) (version : Nat) (value : V) : Handle V :=
  { handle with cached := some ⟨version, value⟩ }

/-- A change is announced when there is an earlier value and it differs. -/
def transition [BEq V] (handle : Handle V) (value : V) : Option (Event V) :=
  match handle.cached with
  | some previous => if previous.value != value then some (.changed value) else none
  | none => none

/-- Is the value that the handle holds the one for this version? -/
def isCurrent (handle : Handle V) (version : Nat) : Bool :=
  match handle.cached with
  | some cached => version ≤ cached.version
  | none => false

/-- Bring the handle up to a tree of the given version. -/
def read [BEq V] (handle : Handle V) (policy : MissingPolicy) (version : Nat) (tree : Tree) :
    Reading V :=
  if handle.isCurrent version then ⟨handle, false, none⟩
  else
    match handle.resolve policy tree with
    | .ok value => ⟨handle.store version value, true, handle.transition value⟩
    | .error error => ⟨handle.store version handle.held, true, some (.failed error)⟩

end Handle

/-- Count what a reading did. -/
def Reading.record {V : Type} (reading : Reading V) (metrics : Metrics) : Metrics :=
  let metrics := if reading.refreshed then metrics.increment .refreshes else metrics
  match reading.event with
  | some (.failed error) => metrics.increment (.failures error.stage)
  | _ => metrics

end Overlay

import Overlay.Engine
import Overlay.Value.Describe

/-!
# Descriptions of an engine's objects

One line for a node, a registry, a handle or a poller, as it stands.
-/

namespace Overlay

/-- The fields shown of a node depend on its kind. -/
def Node.describe (node : Node) : String :=
  match node.content with
  | .fixed entries =>
    describeFields "MapConfig"
      [("name", Text.quoted node.name), ("keys", toString entries.size)]
  | .settable _ =>
    describeFields "SettableConfig"
      [("name", Text.quoted node.name), ("version", toString node.version)]
  | .composite children =>
    describeFields "CompositeConfig"
      [("name", Text.quoted node.name),
        ("children", describeList (children.map fun child => Text.quoted child.name)),
        ("version", toString node.version)]

def Handle.describe {V : Type} (handle : Handle V) (describeValue : V → String) : String :=
  describeFields "Property"
    [("key", Text.quoted handle.key), ("default", describeValue handle.fallback),
      ("listeners", toString handle.listeners.length)]

namespace Engine

variable {V : Type}

def describeRegistry (engine : Engine V) (registry : Registry V) : String :=
  describeFields "PropertyRegistry"
    [("config", Text.quoted (engine.forest.name registry.root)),
      ("handles", toString registry.handles.length), ("eager", toString registry.eager)]

def describePoller (engine : Engine V) (poller : Poll.Poller) : String :=
  describeFields "SourcePoller"
    [("source", Text.quoted poller.source),
      ("target", Text.quoted (engine.forest.name poller.target)),
      ("initialized", toString poller.initialized)]

end Engine

end Overlay

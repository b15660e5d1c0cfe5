import Overlay.Settings

/-!
# Cascades

A cascade looks for a resource under ever more specific names: the base name,
then the base name with one parameter after another joined to it. Parameters are
templates, expanded when the names are made. An empty parameter still adds the
separator.
-/

namespace Overlay

/-- How the names of a cascade are made. Without parameters there is one name. -/
structure Cascade where
  parameters : List String := []
  separator : String := "-"
deriving DecidableEq, Repr

def Cascade.ofSettings (settings : CascadeSettings) : Cascade where
  parameters := settings.parameters
  separator := settings.separator

/-- Why a resource could not be loaded. A resource that does not exist is no failure. -/
inductive LoadError
  | io (resource words : String)
  | parse (resource words : String)
deriving DecidableEq, Repr

def LoadError.message : LoadError → String
  | .io resource words => s!"IO error loading '{resource}': {words}"
  | .parse resource words => s!"failed to parse '{resource}': {words}"

inductive CascadeError
  | names (error : Template.TemplateError)
  | load (error : LoadError)
deriving DecidableEq, Repr

def CascadeError.message : CascadeError → String
  | .names error => "cascade name generation failed: " ++ error.message
  | .load error => error.message

/-- The names that follow a name, one for each parameter. -/
def extendName (expand : String → Except Template.TemplateError String) (separator : String) :
    String → List String → Except Template.TemplateError (List String)
  | _, [] => .ok []
  | name, parameter :: rest => do
    let next := name ++ separator ++ (← expand parameter)
    return next :: (← extendName expand separator next rest)

/-- The names to try for a base name, the most general first. -/
def Cascade.names (cascade : Cascade) (policy : Template.MissingPolicy) (lookup : Template.Lookup)
    (base : String) : Except Template.TemplateError (List String) := do
  return base ::
    (← extendName (Template.resolve policy lookup) cascade.separator base cascade.parameters)

end Overlay

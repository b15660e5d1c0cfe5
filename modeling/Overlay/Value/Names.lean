import Overlay.Text.Pieces
import Overlay.Value

/-!
# Types by name

The names under which the types of properties can be asked for. A collection
holds strings unless the name says otherwise, as in `list<i32>`.
-/

namespace Overlay.ValueType

open Numeral (WholeType)

/-- The types that have a name of one word. -/
def words : List (String × ValueType) :=
  [("string", string), ("bool", bool), ("f32", single), ("f64", double), ("char", char),
    ("duration", duration), ("list", list string), ("set", set string),
    ("hashset", bag string)] ++ WholeType.all.map fun type => (type.name, whole type)

/-- The collections by the first word of their names. -/
def collections : List (String × (ValueType → ValueType)) :=
  [("list", list), ("set", set), ("hashset", bag)]

/-- The type of a name. -/
def ofName? (name : String) : Option ValueType :=
  match Text.cut '<' name.toList with
  | none => words.lookup name
  | some (collection, item) => do
    let wrap ← collections.lookup (String.ofList collection)
    return wrap (← words.lookup (String.ofList item.dropLast))

end Overlay.ValueType

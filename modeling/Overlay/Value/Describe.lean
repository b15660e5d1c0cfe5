import Overlay.Numeral.Shortest
import Overlay.Text.Quoted
import Overlay.Value

/-!
# Descriptions

How values look in the descriptions of the objects that hold them: strings
quoted, durations in the largest unit that they fill, collections in brackets
and sets in braces.
-/

namespace Overlay

/-- A description with named fields: `Name { field: value, ... }`. -/
def describeFields (name : String) (fields : List (String × String)) : String :=
  name ++ " \x7b " ++ ", ".intercalate (fields.map fun (field, value) => field ++ ": " ++ value) ++
    " \x7d"

def describeList (items : List String) : String := "[" ++ ", ".intercalate items ++ "]"

def describeSet (items : List String) : String := "\x7b" ++ ", ".intercalate items ++ "\x7d"

/-- A duration in seconds, or in milliseconds below one second. -/
def describeMillis (millis : Nat) : String :=
  if millis = 0 then "0ns"
  else if millis < 1000 then s!"{millis}ms"
  else
    let rest := (Nat.toDigits 10 (1000 + millis % 1000)).tail
    let digits := (rest.reverse.dropWhile (· == '0')).reverse
    let fraction := if digits.isEmpty then "" else String.ofList ('.' :: digits)
    s!"{millis / 1000}{fraction}s"

mutual

def Value.describe : Value → String
  | .text string => Text.quoted string
  | .truth b => if b then "true" else "false"
  | .whole number => toString number
  | .single bits => Numeral.BinaryFormat.single.describe bits
  | .double bits => Numeral.BinaryFormat.double.describe bits
  | .character c => Text.quoteWith '\'' [c]
  | .millis count => describeMillis count
  | .list items => describeList (describeItems items)
  | .set items => describeSet (describeItems items)

def describeItems : List Value → List String
  | [] => []
  | item :: rest => item.describe :: describeItems rest

end

end Overlay

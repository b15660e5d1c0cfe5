import Overlay.Numeral.Binary

/-!
# Property values

The types that a property can be requested at, and their values. Floating point
values are bit patterns. Equality is that of the denoted values, so it is not
reflexive: a pattern that denotes no number differs from itself.
-/

namespace Overlay

open Numeral (WholeType BinaryFormat)

/-- The built-in types. -/
inductive ValueType
  | string
  | bool
  | whole (type : WholeType)
  | single
  | double
  | char
  | duration
  | list (item : ValueType)
  /-- Items without repetition, kept in order. -/
  | set (item : ValueType)
  /-- Items without repetition, kept in no particular order. -/
  | bag (item : ValueType)
deriving DecidableEq, Repr

inductive Value
  | text (string : String)
  | truth (bool : Bool)
  | whole (number : Int)
  | single (bits : Nat)
  | double (bits : Nat)
  | character (char : Char)
  | millis (count : Nat)
  | list (items : List Value)
  /-- Ascending, each item once. -/
  | set (items : List Value)

namespace ValueType

/-- What a type is called in messages. -/
def name : ValueType → String
  | string => "string"
  | bool => "bool"
  | whole type => type.name
  | single => "f32"
  | double => "f64"
  | char => "char"
  | duration => "core::time::Duration"
  | list item => "list<" ++ item.name ++ ">"
  | set item => "set<" ++ item.name ++ ">"
  | bag item => "bag<" ++ item.name ++ ">"

end ValueType

namespace Value

mutual

/-- Do two values denote the same? -/
def equal : Value → Value → Bool
  | text a, text b => a == b
  | truth a, truth b => a == b
  | whole a, whole b => a == b
  | single a, single b => BinaryFormat.single.equal a b
  | double a, double b => BinaryFormat.double.equal a b
  | character a, character b => a == b
  | millis a, millis b => a == b
  | list as, list bs => equalItems as bs
  | set as, set bs => equalItems as bs
  | _, _ => false

def equalItems : List Value → List Value → Bool
  | [], [] => true
  | a :: as, b :: bs => equal a b && equalItems as bs
  | _, _ => false

end

instance : BEq Value := ⟨equal⟩

mutual

/-- The order of the items of a set. Values of different types, and floating
point values, are not ordered. -/
def compare : Value → Value → Ordering
  | text a, text b => Ord.compare a b
  | truth a, truth b => Ord.compare a b
  | whole a, whole b => Ord.compare a b
  | character a, character b => Ord.compare a.toNat b.toNat
  | millis a, millis b => Ord.compare a b
  | list as, list bs => compareItems as bs
  | set as, set bs => compareItems as bs
  | _, _ => .eq

def compareItems : List Value → List Value → Ordering
  | [], [] => .eq
  | [], _ :: _ => .lt
  | _ :: _, [] => .gt
  | a :: as, b :: bs => (compare a b).then (compareItems as bs)

end

/-- Put an item into an ascending list that does not hold it. -/
def insertItem (item : Value) : List Value → List Value
  | [] => [item]
  | other :: rest =>
    match compare item other with
    | .lt => item :: other :: rest
    | .eq => other :: rest
    | .gt => other :: insertItem item rest

/-- The items in ascending order, each once. -/
def ascending (items : List Value) : List Value :=
  items.foldl (fun sorted item => insertItem item sorted) []

end Value

end Overlay

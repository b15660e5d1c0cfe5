/-!
# TOML documents

The data of a document, and the table that its statements build up. A table
remembers how it came to be, because that decides who may add to it: a header
may take over a table that was only passed through on the way to another, and a
dotted key may extend a table that dotted keys made, but neither may reopen a
table that a header has defined.
-/

namespace Overlay.Toml

inductive Value
  | string (text : String)
  | integer (number : Int)
  | float
  | boolean (truth : Bool)
  | datetime
  | array (items : List Value)
  | table (members : List (String × Value))
deriving Inhabited

/-- How a table came to be. -/
inductive Origin
  /-- A header, or the document itself. -/
  | header
  /-- On the way to the table of a header. -/
  | passed
  /-- On the way to the value of a dotted key. -/
  | dotted
deriving DecidableEq, Repr

/-- A part of a document that is still being built. -/
inductive Part
  /-- Complete. -/
  | value (value : Value)
  | table (origin : Origin) (members : List (String × Part))
  /-- An array of tables, the latest first; later statements add to the latest. -/
  | tables (latest : List (String × Part)) (earlier : List (List (String × Part)))

abbrev Members := List (String × Part)

namespace Members

/-- Put a part in the place of the one with its key, or at the end. -/
def set (key : String) (part : Part) : Members → Members
  | [] => [(key, part)]
  | member :: rest => if member.1 = key then (key, part) :: rest else member :: set key part rest

/-- Change the members that a path leads to, making tables that are missing.
`origin` is what they are to be: with `dotted`, tables with a header are closed.
`change` also gets the origin of the table that it changes. -/
def update (origin : Origin) (change : Origin → Members → Option Members) :
    List String → Origin → Members → Option Members
  | [], own, members => change own members
  | key :: path, _, members =>
    match members.lookup key with
    | none => do
      let inner ← update origin change path origin []
      return members.set key (.table origin inner)
    | some (.value _) => none
    | some (.table own inner) =>
      if origin = .dotted ∧ own = .header then none
      else do
        let inner ← update origin change path own inner
        return members.set key (.table own inner)
    | some (.tables latest earlier) => do
      let latest ← update origin change path .header latest
      return members.set key (.tables latest earlier)

/-- Add a new member. -/
def add (key : String) (part : Part) (members : Members) : Option Members :=
  match members.lookup key with
  | some _ => none
  | none => some (members ++ [(key, part)])

/-- A header defines the table of a key. -/
def openTable (key : String) (members : Members) : Option Members :=
  match members.lookup key with
  | none => some (members ++ [(key, .table .header [])])
  | some (.table .passed inner) => some (members.set key (.table .header inner))
  | some _ => none

/-- A header adds a table to the array of a key. -/
def openElement (key : String) (members : Members) : Option Members :=
  match members.lookup key with
  | none => some (members ++ [(key, .tables [] [])])
  | some (.tables latest earlier) => some (members.set key (.tables [] (latest :: earlier)))
  | some _ => none

/-- Set the value of a dotted key within a table. The tables on the way must have
been made by dotted keys. -/
def assign (path : List String) (key : String) (value : Value) (own : Origin)
    (members : Members) : Option Members :=
  members.update .dotted
    (fun origin inner =>
      if path.isEmpty ∨ origin = .dotted then inner.add key (.value value) else none)
    path own

end Members

mutual

/-- The data of a part. -/
def Part.data : Part → Value
  | .value value => value
  | .table _ members => .table (dataMembers members)
  | .tables latest earlier => .array (dataTables earlier [.table (dataMembers latest)])

def dataMembers : List (String × Part) → List (String × Value)
  | [] => []
  | (key, part) :: rest => (key, part.data) :: dataMembers rest

/-- The data of tables listed latest first, before the data of those behind them. -/
def dataTables : List (List (String × Part)) → List Value → List Value
  | [], behind => behind
  | members :: rest, behind => dataTables rest (.table (dataMembers members) :: behind)

end

end Overlay.Toml

import Overlay.Toml.Scalar

/-!
# Reading TOML documents

Values that hold others, statements, and documents. Every reader here takes
`fuel`, which is more than the text is long; each of them reads at least one
character before it calls another.
-/

namespace Overlay.Toml

mutual

/-- A value, inside of `depth` others. -/
def value : Nat → Nat → Reader Value
  | 0, _, _ => none
  | fuel + 1, depth, text =>
    match text with
    | '[' :: rest =>
      if depth + 1 < depthLimit then
        (items fuel (depth + 1) (skipTrivia false rest)).map fun (found, rest) =>
          (.array found, rest)
      else none
    | '{' :: rest =>
      if depth + 1 < depthLimit then
        match skipSpaces rest with
        | '}' :: rest => some (.table [], rest)
        | rest =>
          (members fuel (depth + 1) [] rest).map fun (found, rest) =>
            (.table (dataMembers found), rest)
      else none
    | text => scalar text

/-- The items of an array up to its end. A comma may follow the last one. -/
def items : Nat → Nat → Reader (List Value)
  | 0, _, _ => none
  | _ + 1, _, ']' :: rest => some ([], rest)
  | fuel + 1, depth, text => do
    let (item, rest) ← value fuel depth text
    match skipTrivia false rest with
    | ',' :: rest =>
      let (others, rest) ← items fuel depth (skipTrivia false rest)
      return (item :: others, rest)
    | ']' :: rest => return ([item], rest)
    | _ => none

/-- The members of an inline table up to its end, added to those before them. -/
def members : Nat → Nat → Members → Reader Members
  | 0, _, _, _ => none
  | fuel + 1, depth, before, text => do
    let (path, found, rest) ← assignment fuel depth text
    let last ← path.getLast?
    let after ← before.assign path.dropLast last found .header
    match skipSpaces rest with
    | ',' :: rest => members fuel depth after rest
    | '}' :: rest => return (after, rest)
    | _ => none

/-- A key and its value. -/
def assignment : Nat → Nat → List Char → Option (List String × Value × List Char)
  | 0, _, _ => none
  | fuel + 1, depth, text => do
    let (path, rest) ← key text
    let (_, rest) ← expect '=' rest
    let (found, rest) ← value fuel depth (skipSpaces rest)
    return (path, found, rest)

end

/-- What has been read of a document: its members, and the path of the header
that the next assignments belong to. -/
structure Draft where
  members : Members := []
  header : List String := []

namespace Draft

/-- Change the table that a path leads to. -/
def update (draft : Draft) (path : List String)
    (change : Origin → Members → Option Members) : Option Members :=
  draft.members.update .passed change path .header

/-- Start the table of a header. -/
def openHeader (draft : Draft) (path : List String)
    (start : String → Members → Option Members) : Option Draft := do
  let last ← path.getLast?
  let members ← draft.update path.dropLast fun _ inner => start last inner
  return { members, header := path }

/-- Take in an assignment under the current header. -/
def assign (draft : Draft) (path : List String) (value : Value) : Option Draft := do
  let last ← path.getLast?
  let members ← draft.update draft.header fun own inner =>
    Members.assign path.dropLast last value own inner
  return { draft with members }

end Draft

/-- Read statements, one a line, into a draft. -/
def statements : Nat → Draft → List Char → Option Draft
  | 0, _, _ => none
  | fuel + 1, draft, text =>
    match skipSpaces text with
    | [] => some draft
    | '[' :: '[' :: rest => do
      let (path, rest) ← key rest
      let (_, rest) ← expect ']' rest
      let (_, rest) ← expect ']' rest
      let rest ← endOfLine rest
      statements fuel (← draft.openHeader path Members.openElement) rest
    | '[' :: rest => do
      let (path, rest) ← key rest
      let (_, rest) ← expect ']' rest
      let rest ← endOfLine rest
      statements fuel (← draft.openHeader path Members.openTable) rest
    | c :: rest =>
      if c = '#' ∨ c = '\n' ∨ c = '\r' then do
        statements fuel draft (← endOfLine (c :: rest))
      else do
        let (path, found, rest) ← assignment (rest.length + 2) 0 (c :: rest)
        let rest ← endOfLine rest
        statements fuel (← draft.assign path found) rest

/-- The data of a document, if the text is one. A byte order mark may stand in
front. -/
def document (text : String) : Option Value := do
  let text := text.toList
  let text := if text.head? = some '\ufeff' then text.tail else text
  let draft ← statements (text.length + 1) {} text
  return .table (dataMembers draft.members)

end Overlay.Toml

/-!
# The lexical level of TOML

Comments, keys and strings. Each reader takes the text that it is to read from
the front of the given text and returns what it read and the text behind it.
-/

namespace Overlay.Toml

/-- A reader of something at the front of a text. -/
abbrev Reader (α : Type) := List Char → Option (α × List Char)

/-- Space and tab. -/
def isSpace (c : Char) : Bool := c == ' ' || c == '\t'

def skipSpaces (text : List Char) : List Char := text.dropWhile isSpace

/-- May the character stand in comments and strings as it is? A tab may, other
controls may not. -/
def isPlain (c : Char) : Bool := c == '\t' || (0x20 ≤ c.toNat && c.toNat != 0x7f)

/-- The text behind a line feed, which a carriage return may precede. -/
def newline? : List Char → Option (List Char)
  | '\n' :: rest => some rest
  | '\r' :: '\n' :: rest => some rest
  | _ => none

/-- The text at the end of a comment, whose first character is the hash. -/
def skipComment (text : List Char) : List Char := text.dropWhile isPlain

/-- The text behind the end of a line on which only a comment may follow. The text
may end there too. -/
def endOfLine (text : List Char) : Option (List Char) :=
  let text := skipSpaces text
  let text := if text.head? = some '#' then skipComment text else text
  if text.isEmpty then some [] else newline? text

/-- Skip spaces, line ends and comments. `comment` says whether the text starts
inside a comment. A character that no comment may hold ends the skipping. -/
def skipTrivia (comment : Bool) : List Char → List Char
  | [] => []
  | '\n' :: rest => skipTrivia false rest
  | '\r' :: '\n' :: rest => skipTrivia false rest
  | c :: rest =>
    if comment then if isPlain c then skipTrivia true rest else c :: rest
    else if c = '#' then skipTrivia true rest
    else if isSpace c then skipTrivia false rest
    else c :: rest

-- ---------------------------------------------------------------------------
-- Strings
-- ---------------------------------------------------------------------------

def hexValue? (c : Char) : Option Nat :=
  if '0' ≤ c ∧ c ≤ '9' then some (c.toNat - '0'.toNat)
  else if 'a' ≤ c ∧ c ≤ 'f' then some (c.toNat - 'a'.toNat + 10)
  else if 'A' ≤ c ∧ c ≤ 'F' then some (c.toNat - 'A'.toNat + 10)
  else none

/-- The character whose number these hexadecimal digits give. Surrogates are no
characters. -/
def hexChar? (digits : List Char) : Option Char := do
  let number ← digits.foldlM (fun n c => (hexValue? c).map (n * 16 + ·)) 0
  if number.isValidChar then some (Char.ofNat number) else none

/-- The character for the letter behind a backslash. -/
def escape? : Char → Option Char
  | 'b' => some '\x08'
  | 't' => some '\t'
  | 'n' => some '\n'
  | 'f' => some '\x0c'
  | 'r' => some '\r'
  | '"' => some '"'
  | '\\' => some '\\'
  | _ => none

def consTo (c : Char) (read : List Char × List Char) : List Char × List Char :=
  (c :: read.1, read.2)

/-- The rest of a string in double quotes. -/
def basicRest : Reader (List Char)
  | [] => none
  | '"' :: rest => some ([], rest)
  | '\\' :: 'u' :: a :: b :: c :: d :: rest => do
    let e ← hexChar? [a, b, c, d]
    return consTo e (← basicRest rest)
  | '\\' :: 'U' :: a :: b :: c :: d :: e :: f :: g :: h :: rest => do
    let i ← hexChar? [a, b, c, d, e, f, g, h]
    return consTo i (← basicRest rest)
  | '\\' :: c :: rest => do
    let d ← escape? c
    return consTo d (← basicRest rest)
  | c :: rest => if isPlain c && c != '\\' then (basicRest rest).map (consTo c) else none

/-- Where a string over several lines is: in its text, or behind a backslash that
takes away the white space up to the next text, which must hold a line end. -/
inductive LineMode
  | text
  | joining (ended : Bool)
deriving DecidableEq, Repr

/-- The rest of a string in three double quotes. Up to two quotes may stand
before the closing ones. -/
def basicLines : LineMode → Reader (List Char)
  | _, [] => none
  | .joining _, '\n' :: rest => basicLines (.joining true) rest
  | .joining _, '\r' :: '\n' :: rest => basicLines (.joining true) rest
  | .joining ended, ' ' :: rest => basicLines (.joining ended) rest
  | .joining ended, '\t' :: rest => basicLines (.joining ended) rest
  | .joining false, _ => none
  | _, '"' :: '"' :: '"' :: '"' :: '"' :: rest => some (['"', '"'], rest)
  | _, '"' :: '"' :: '"' :: '"' :: rest => some (['"'], rest)
  | _, '"' :: '"' :: '"' :: rest => some ([], rest)
  | _, '\n' :: rest => (basicLines .text rest).map (consTo '\n')
  | _, '\r' :: '\n' :: rest => (basicLines .text rest).map (consTo '\n')
  | _, '\\' :: '\n' :: rest => basicLines (.joining true) rest
  | _, '\\' :: '\r' :: '\n' :: rest => basicLines (.joining true) rest
  | _, '\\' :: ' ' :: rest => basicLines (.joining false) rest
  | _, '\\' :: '\t' :: rest => basicLines (.joining false) rest
  | _, '\\' :: 'u' :: a :: b :: c :: d :: rest => do
    let e ← hexChar? [a, b, c, d]
    return consTo e (← basicLines .text rest)
  | _, '\\' :: 'U' :: a :: b :: c :: d :: e :: f :: g :: h :: rest => do
    let i ← hexChar? [a, b, c, d, e, f, g, h]
    return consTo i (← basicLines .text rest)
  | _, '\\' :: c :: rest => do
    let d ← escape? c
    return consTo d (← basicLines .text rest)
  | _, c :: rest =>
    if isPlain c && c != '\\' then (basicLines .text rest).map (consTo c) else none

/-- The rest of a string in single quotes. -/
def literalRest : Reader (List Char)
  | [] => none
  | '\'' :: rest => some ([], rest)
  | c :: rest => if isPlain c then (literalRest rest).map (consTo c) else none

/-- The rest of a string in three single quotes. -/
def literalLines : Reader (List Char)
  | [] => none
  | '\'' :: '\'' :: '\'' :: '\'' :: '\'' :: rest => some (['\'', '\''], rest)
  | '\'' :: '\'' :: '\'' :: '\'' :: rest => some (['\''], rest)
  | '\'' :: '\'' :: '\'' :: rest => some ([], rest)
  | '\n' :: rest => (literalLines rest).map (consTo '\n')
  | '\r' :: '\n' :: rest => (literalLines rest).map (consTo '\n')
  | c :: rest => if isPlain c then (literalLines rest).map (consTo c) else none

/-- A line end right behind the opening quotes does not count. -/
def dropNewline (text : List Char) : List Char := (newline? text).getD text

/-- A string of any of the four kinds. -/
def string : Reader String := fun text =>
  (match text with
    | '"' :: '"' :: '"' :: rest => basicLines .text (dropNewline rest)
    | '\'' :: '\'' :: '\'' :: rest => literalLines (dropNewline rest)
    | '"' :: rest => basicRest rest
    | '\'' :: rest => literalRest rest
    | _ => none).map fun (chars, rest) => (String.ofList chars, rest)

-- ---------------------------------------------------------------------------
-- Keys
-- ---------------------------------------------------------------------------

def isBare (c : Char) : Bool := c.isAlphanum || c == '_' || c == '-'

/-- A bare key, or a quoted one on a single line. -/
def simpleKey : Reader String := fun text =>
  match text with
  | '"' :: rest => (basicRest rest).map fun (chars, rest) => (String.ofList chars, rest)
  | '\'' :: rest => (literalRest rest).map fun (chars, rest) => (String.ofList chars, rest)
  | _ =>
    let chars := text.takeWhile isBare
    if chars.isEmpty then none else some (String.ofList chars, text.dropWhile isBare)

/-- Documents do not nest this deep. -/
def depthLimit : Nat := 80

/-- A dotted key of at most `fuel` parts, with the spaces around it. -/
def dottedKey : Nat → Reader (List String)
  | 0, _ => none
  | fuel + 1, text => do
    let (first, rest) ← simpleKey (skipSpaces text)
    match skipSpaces rest with
    | '.' :: rest =>
      let (others, rest) ← dottedKey fuel rest
      return (first :: others, rest)
    | rest => return ([first], rest)

def key : Reader (List String) := dottedKey (depthLimit - 1)

end Overlay.Toml

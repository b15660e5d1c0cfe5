import Overlay.Text.Hidden

/-!
# Quoted text

Text as it stands in descriptions: between quotes, with the quote, the backslash
and what cannot be shown escaped.
-/

namespace Overlay.Text

/-- The escape for a character by its code point. -/
def codeEscape (c : Char) : List Char :=
  '\\' :: 'u' :: '{' :: Nat.toDigits 16 c.toNat ++ ['}']

/-- A character between the given quotes. -/
def escapeChar (quote c : Char) : List Char :=
  if c = '\x00' then ['\\', '0']
  else if c = '\t' then ['\\', 't']
  else if c = '\n' then ['\\', 'n']
  else if c = '\r' then ['\\', 'r']
  else if c = '\\' ∨ c = quote then ['\\', c]
  else if isHidden c then codeEscape c
  else [c]

/-- Text between the given quotes. -/
def quoteWith (quote : Char) (text : List Char) : String :=
  String.ofList (quote :: text.flatMap (escapeChar quote) ++ [quote])

/-- A string in double quotes. -/
def quoted (s : String) : String := quoteWith '"' s.toList

end Overlay.Text

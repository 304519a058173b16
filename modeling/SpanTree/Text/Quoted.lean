import SpanTree.Text.GraphemeExtend

/-!
# Quoted text for messages

Messages show characters and names between quotes. Tab, line feed, carriage
return, NUL, the backslash and the quote in use are escaped by a letter or by
themselves; a character that would not show, or that would combine with the quote
before it, is written as its code point in hexadecimal.
-/

namespace SpanTree

namespace Text

/-- The hexadecimal digits of a number, in small letters and without leading zeros. -/
def hexDigits (n : Nat) : List Char := Nat.toDigits 16 n

/-- A character as it stands between quotes of the given kind. -/
def escapeChar (quote : Char) (c : Char) : List Char :=
  if c = Char.ofNat 0 then ['\\', '0']
  else if c = '\t' then ['\\', 't']
  else if c = '\r' then ['\\', 'r']
  else if c = '\n' then ['\\', 'n']
  else if c = '\\' ∨ c = quote then ['\\', c]
  else if isPrintable c && !isCombining c then [c]
  else ['\\', 'u', Char.ofNat 123] ++ hexDigits c.toNat ++ [Char.ofNat 125]

/-- A character between single quotes. -/
def quoteChar (c : Char) : String := String.ofList ('\'' :: escapeChar '\'' c ++ ['\''])

/-- Text between double quotes. -/
def quoteText (s : String) : String :=
  String.ofList ('"' :: s.toList.flatMap (escapeChar '"') ++ ['"'])

end Text

end SpanTree

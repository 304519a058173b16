/-!
# Characters of TOML

The classes of characters that the format tells apart: the two blanks inside a line,
the characters that may stand unescaped in strings and comments, and those of bare
keys. Control characters other than the tab never stand for themselves.
-/

namespace SpanTree

namespace Toml

/-- What is read off the front of a text, and the text after it; nothing if the front
is not of the form read. -/
abbrev Reader (α : Type) := List Char → Option (α × List Char)

/-- Add a character in front of what is read. -/
def consRead (c : Char) : Option (List Char × List Char) → Option (List Char × List Char)
  | none => none
  | some (cs, rest) => some (c :: cs, rest)

/-- A blank or a tab. -/
def isGap (c : Char) : Bool := c == ' ' || c == '\t'

/-- A control character that has to be escaped everywhere: neither a tab nor a line
feed. -/
def isControl (c : Char) : Bool :=
  (decide (c.toNat < 32) && c != '\t' && c != '\n') || c.toNat == 127

/-- A character that may stand in a comment. -/
def isCommentChar (c : Char) : Bool := !isControl c && c != '\n'

/-- A character that stands for itself in a string with escapes, on one line. -/
def isPlain (c : Char) : Bool := isCommentChar c && c != '"' && c != '\\'

/-- A character that stands for itself in a string without escapes, on one line. -/
def isVerbatim (c : Char) : Bool := isCommentChar c && c != '\''

/-- A character of a bare key. -/
def isBareKeyChar (c : Char) : Bool := c.isAlphanum || c == '_' || c == '-'

/-- The text after the blanks and tabs at its front. -/
def skipGap (cs : List Char) : List Char := cs.dropWhile isGap

/-- The text after the line end at its front: a line feed, alone or after a carriage
return. -/
def newline? : List Char → Option (List Char)
  | '\n' :: rest => some rest
  | '\r' :: '\n' :: rest => some rest
  | _ => none

/-- The value of a digit in base sixteen. -/
def hexValue? (c : Char) : Option Nat :=
  if c.isDigit then some (c.toNat - 48)
  else if 'a' ≤ c ∧ c ≤ 'f' then some (c.toNat - 87)
  else if 'A' ≤ c ∧ c ≤ 'F' then some (c.toNat - 55)
  else none

/-- The number that digits in base sixteen spell. -/
def hexNumber? (digits : List Char) : Option Nat :=
  digits.foldlM (fun n c => (hexValue? c).map (n * 16 + ·)) 0

/-- The character whose code point is spelled in base sixteen. -/
def scalar? (digits : List Char) : Option Char := do
  let n ← hexNumber? digits
  if n.isValidChar then some (Char.ofNat n) else none

end Toml

end SpanTree

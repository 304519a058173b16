import SpanTree.Toml.Char

/-!
# Strings in TOML

A string is written in one of four notations: on one line or over several, and with
escapes or verbatim. The writer takes the plainest notation that can hold the string,
and escapes only where no other can. The reader undoes each notation.

A notation over several lines ends at three quotes in a row; up to two more directly
before them belong to the string. A line end directly after the opening quotes does
not.
-/

namespace SpanTree

namespace Toml

/-- How a string is written. -/
inductive Notation where
  /-- between double quotes, with escapes -/
  | basic
  /-- between single quotes, as it stands -/
  | literal
  /-- between three double quotes, with escapes -/
  | multiBasic
  /-- between three single quotes, as it stands -/
  | multiLiteral
  deriving DecidableEq, Repr

namespace Notation

/-- Whether a string in this notation may go over several lines. -/
def isMulti : Notation → Bool
  | multiBasic => true
  | multiLiteral => true
  | _ => false

/-- The quotes around a string. -/
def delimiter : Notation → List Char
  | basic => ['"']
  | literal => ['\'']
  | multiBasic => ['"', '"', '"']
  | multiLiteral => ['\'', '\'', '\'']

end Notation

/-! ## Writing -/

/-- The length of the longest run of a character; `current` is the length of the run
that the text continues. -/
def longestRun (c : Char) : (current : Nat) → List Char → Nat
  | current, [] => current
  | current, d :: rest =>
    if d = c then longestRun c (current + 1) rest else max current (longestRun c 0 rest)

/-- The plainest notation that can hold a string. -/
def notationOf (cs : List Char) : Notation :=
  let controls := cs.any isControl
  let lines := cs.contains '\n'
  let escapes := cs.contains '\\'
  let double := longestRun '"' 0 cs
  let single := longestRun '\'' 0 cs
  if !controls && !escapes && !lines && double == 0 then .basic
  else if !controls && !lines && single == 0 then .literal
  else if !controls && !escapes && decide (double ≤ 2) then .multiBasic
  else if !controls && decide (single ≤ 2) then .multiLiteral
  else if lines then .multiBasic
  else .basic

/-- The four digits of a code point in base sixteen, in capitals. -/
def fourDigits (n : Nat) : List Char :=
  let digits := (Nat.toDigits 16 n).map Char.toUpper
  List.replicate (4 - digits.length) '0' ++ digits

/-- A character other than the double quote in a notation with escapes. -/
def escapeChar (multi : Bool) (c : Char) : List Char :=
  if c = '\\' then ['\\', '\\']
  else if c = '\t' then ['\\', 't']
  else if c = '\n' then (if multi then ['\n'] else ['\\', 'n'])
  else if c = '\r' then ['\\', 'r']
  else if c = Char.ofNat 8 then ['\\', 'b']
  else if c = Char.ofNat 12 then ['\\', 'f']
  else if isControl c then '\\' :: 'u' :: fourDigits c.toNat
  else [c]

/-- A string in a notation with escapes. Over several lines two double quotes in a row
stand for themselves and the third is escaped, `run` being the number of those before;
on one line each is escaped. -/
def escapeFrom (multi : Bool) : (run : Nat) → List Char → List Char
  | _, [] => []
  | run, c :: rest =>
    if c = '"' then
      if multi && decide (run < 2) then '"' :: escapeFrom multi (run + 1) rest
      else '\\' :: '"' :: escapeFrom multi 0 rest
    else escapeChar multi c ++ escapeFrom multi 0 rest

/-- A string in a notation, without its quotes. -/
def bodyIn (style : Notation) (cs : List Char) : List Char :=
  match style with
  | .basic => escapeFrom false 0 cs
  | .multiBasic => escapeFrom true 0 cs
  | .literal => cs
  | .multiLiteral => cs

/-- A string as it is written: in the plainest notation that can hold it, and on lines
of its own if it goes over several. -/
def writeString (cs : List Char) : List Char :=
  let style := notationOf cs
  style.delimiter ++ (if style.isMulti && cs.contains '\n' then ['\n'] else []) ++
    bodyIn style cs ++ style.delimiter

/-! ## Reading -/

/-- A character that is written by one letter after the backslash. -/
def letterEscape? : Char → Option Char
  | 'b' => some (Char.ofNat 8)
  | 't' => some '\t'
  | 'n' => some '\n'
  | 'f' => some (Char.ofNat 12)
  | 'r' => some '\r'
  | '"' => some '"'
  | '\\' => some '\\'
  | _ => none

/-- Read a string on one line with escapes, after its opening quote. -/
def readBasic : Reader (List Char)
  | [] => none
  | '"' :: rest => some ([], rest)
  | '\\' :: 'u' :: a :: b :: c :: d :: rest =>
    match scalar? [a, b, c, d] with
    | some x => consRead x (readBasic rest)
    | none => none
  | '\\' :: 'U' :: a :: b :: c :: d :: e :: f :: g :: h :: rest =>
    match scalar? [a, b, c, d, e, f, g, h] with
    | some x => consRead x (readBasic rest)
    | none => none
  | '\\' :: c :: rest =>
    match letterEscape? c with
    | some x => consRead x (readBasic rest)
    | none => none
  | c :: rest => if isPlain c then consRead c (readBasic rest) else none

/-- Read a string on one line without escapes, after its opening quote. -/
def readLiteral : Reader (List Char)
  | [] => none
  | '\'' :: rest => some ([], rest)
  | c :: rest => if isVerbatim c then consRead c (readLiteral rest) else none

/-- Whether a backslash before this text joins lines: nothing but blanks and tabs comes
before the end of the line. -/
def joinsLines (afterBackslash : List Char) : Bool := (newline? (skipGap afterBackslash)).isSome

/-- Read a string over several lines with escapes, after its opening quotes. While
`joining`, blanks, tabs and line ends are passed over, as they are after a backslash
at the end of a line. -/
def readMultiBasic : (joining : Bool) → Reader (List Char)
  | _, [] => none
  | _, '"' :: '"' :: '"' :: '"' :: '"' :: rest => some (['"', '"'], rest)
  | _, '"' :: '"' :: '"' :: '"' :: rest => some (['"'], rest)
  | _, '"' :: '"' :: '"' :: rest => some ([], rest)
  | _, '"' :: rest => consRead '"' (readMultiBasic false rest)
  | _, '\\' :: 'u' :: a :: b :: c :: d :: rest =>
    match scalar? [a, b, c, d] with
    | some x => consRead x (readMultiBasic false rest)
    | none => none
  | _, '\\' :: 'U' :: a :: b :: c :: d :: e :: f :: g :: h :: rest =>
    match scalar? [a, b, c, d, e, f, g, h] with
    | some x => consRead x (readMultiBasic false rest)
    | none => none
  | _, '\\' :: c :: rest =>
    match letterEscape? c with
    | some x => consRead x (readMultiBasic false rest)
    | none => if joinsLines (c :: rest) then readMultiBasic true (c :: rest) else none
  | joining, '\n' :: rest =>
    if joining then readMultiBasic true rest else consRead '\n' (readMultiBasic false rest)
  | joining, '\r' :: '\n' :: rest =>
    if joining then readMultiBasic true rest else consRead '\n' (readMultiBasic false rest)
  | joining, c :: rest =>
    if joining && isGap c then readMultiBasic true rest
    else if isPlain c then consRead c (readMultiBasic false rest)
    else none

/-- Read a string over several lines without escapes, after its opening quotes. -/
def readMultiLiteral : Reader (List Char)
  | [] => none
  | '\'' :: '\'' :: '\'' :: '\'' :: '\'' :: rest => some (['\'', '\''], rest)
  | '\'' :: '\'' :: '\'' :: '\'' :: rest => some (['\''], rest)
  | '\'' :: '\'' :: '\'' :: rest => some ([], rest)
  | '\'' :: rest => consRead '\'' (readMultiLiteral rest)
  | '\n' :: rest => consRead '\n' (readMultiLiteral rest)
  | '\r' :: '\n' :: rest => consRead '\n' (readMultiLiteral rest)
  | c :: rest => if isVerbatim c then consRead c (readMultiLiteral rest) else none

/-- The text after the line end at its front, or the whole text if there is none. -/
def skipNewline (cs : List Char) : List Char := (newline? cs).getD cs

/-- Read a string on one line. -/
def readLineString : Reader (List Char)
  | '"' :: rest => readBasic rest
  | '\'' :: rest => readLiteral rest
  | _ => none

/-- Read a string in any notation. -/
def readString : Reader (List Char)
  | '"' :: '"' :: '"' :: rest => readMultiBasic false (skipNewline rest)
  | '\'' :: '\'' :: '\'' :: rest => readMultiLiteral (skipNewline rest)
  | cs => readLineString cs

end Toml

end SpanTree

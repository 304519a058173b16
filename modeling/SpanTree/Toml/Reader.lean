import SpanTree.Toml.Number
import SpanTree.Toml.Quoted
import SpanTree.Toml.Table

/-!
# Reading TOML

A document is read line by line: headers, keys with their values, and lines that are
blank or a comment. Arrays may go over several lines and have comments in them; inline
tables may not. Arrays and inline tables nest to a limited depth, and a dotted key has
a limited number of parts.
-/

namespace SpanTree

namespace Toml

/-- The number of parts a dotted key must stay below, and the depth that nested arrays
and inline tables must stay below. -/
def depthLimit : Nat := 80

/-! ## Keys -/

/-- Read a bare key: letters, digits, underscores and hyphens. -/
def readBareKey : Reader (List Char) := fun cs =>
  let key := cs.takeWhile isBareKeyChar
  if key.isEmpty then none else some (key, cs.dropWhile isBareKeyChar)

/-- Read one part of a key, bare or quoted on one line. -/
def readKeyPart : Reader String := fun cs =>
  let read :=
    match cs with
    | '"' :: _ => readLineString cs
    | '\'' :: _ => readLineString cs
    | _ => readBareKey cs
  read.map fun (key, rest) => (String.ofList key, rest)

/-- Read the parts of a dotted key, with blanks around each of them; `fuel` bounds the
number of parts. -/
def readKeyParts : (fuel : Nat) → Reader (List String)
  | 0, _ => none
  | fuel + 1, cs =>
    match readKeyPart (skipGap cs) with
    | none => none
    | some (key, rest) =>
      match skipGap rest with
      | '.' :: rest => (readKeyParts fuel rest).map fun (keys, rest) => (key :: keys, rest)
      | rest => some ([key], rest)

/-- Read a dotted key. -/
def readKey : Reader (List String) := fun cs => readKeyParts (depthLimit - 1) cs

/-! ## Blank space and comments -/

/-- The text after a comment, which goes up to the end of the line. -/
def skipComment : List Char → List Char
  | '#' :: rest => rest.dropWhile isCommentChar
  | cs => cs

/-- The text after the rest of a line, which may hold a comment. -/
def endLine (cs : List Char) : Option (List Char) :=
  match skipComment (skipGap cs) with
  | [] => some []
  | rest => newline? rest

/-- The text after blanks, line ends and comments; `fuel` bounds the number of lines. -/
def skipLines : (fuel : Nat) → List Char → Option (List Char)
  | 0, cs => some (skipGap cs)
  | fuel + 1, cs =>
    match skipGap cs with
    | '#' :: rest => (newline? (rest.dropWhile isCommentChar)).bind (skipLines fuel)
    | '\n' :: rest => skipLines fuel rest
    | '\r' :: '\n' :: rest => skipLines fuel rest
    | '\r' :: _ => none
    | rest => some rest

/-- The text after blanks, line ends and comments. -/
def skipBlank (cs : List Char) : Option (List Char) := skipLines cs.length cs

/-! ## Values -/

/-- Read the items of an array that follow its opening bracket, and the closing one. A
comma may follow the last item. -/
def readItems (readItem : Reader Item) : (fuel : Nat) → Reader (List Item)
  | 0, _ => none
  | fuel + 1, cs =>
    match skipBlank cs with
    | none => none
    | some (']' :: rest) => some ([], rest)
    | some cs =>
      match readItem cs with
      | none => none
      | some (item, rest) =>
        match skipBlank rest with
        | some (']' :: rest) => some ([item], rest)
        | some (',' :: rest) =>
          (readItems readItem fuel rest).map fun (items, rest) => (item :: items, rest)
        | _ => none

/-- Read a key, the equals sign and a value. -/
def readPair (readItem : Reader Item) : Reader (List String × Item) := fun cs =>
  match readKey cs with
  | some (keys, '=' :: rest) =>
    (readItem (skipGap rest)).map fun (item, rest) => ((keys, item), rest)
  | _ => none

/-- Read the members of an inline table that follow its opening brace or a comma, and
the closing brace; they are added to those already read. -/
def readMembers (readItem : Reader Item) : (fuel : Nat) → Members → Reader Members
  | 0, _, _ => none
  | fuel + 1, ms, cs =>
    match readPair readItem cs with
    | none => none
    | some ((keys, item), rest) =>
      match ms.addDotted keys item with
      | none => none
      | some ms =>
        match skipGap rest with
        | '\x7d' :: rest => some (ms, rest)
        | ',' :: rest => readMembers readItem fuel ms rest
        | _ => none

/-- Read an inline table after its opening brace. -/
def readInline (readItem : Reader Item) : Reader Members := fun cs =>
  match skipGap cs with
  | '\x7d' :: rest => some ([], rest)
  | _ => readMembers readItem cs.length [] cs

/-- Read a value; `depth` is the number of arrays and inline tables that may still be
opened. -/
def readItem : (depth : Nat) → Reader Item
  | depth, cs =>
    match cs with
    | [] => none
    | '[' :: rest =>
      match depth with
      | 0 => none
      | depth + 1 =>
        (readItems (readItem depth) rest.length rest).map fun (items, rest) =>
          (.array items, rest)
    | '\x7b' :: rest =>
      match depth with
      | 0 => none
      | depth + 1 =>
        (readInline (readItem depth) rest).map fun (ms, rest) => (.table .inline ms, rest)
    | 't' :: 'r' :: 'u' :: 'e' :: rest => some (.boolean true, rest)
    | 'f' :: 'a' :: 'l' :: 's' :: 'e' :: rest => some (.boolean false, rest)
    | c :: _ =>
      if c = '"' ∨ c = '\'' then
        (readString cs).map fun (s, rest) => (.string (String.ofList s), rest)
      else
        (readScalar cs).map fun
          | (.integer n, rest) => (.integer n, rest)
          | (.float, rest) => (.float, rest)
          | (.datetime, rest) => (.datetime, rest)

/-- Read a value. -/
def readValue : Reader Item := readItem (depthLimit - 1)

/-! ## Lines -/

/-- Read a header in double brackets, after these, and open the table. -/
def readElementHeader (d : Document) (cs : List Char) : Option (Document × List Char) :=
  match readKey cs with
  | some (keys, ']' :: ']' :: rest) => do
    let d ← d.openElementHeader keys
    let rest ← endLine rest
    return (d, rest)
  | _ => none

/-- Read a header after its bracket and open the table. -/
def readHeader (d : Document) (cs : List Char) : Option (Document × List Char) :=
  match readKey cs with
  | some (keys, ']' :: rest) => do
    let d ← d.openHeader keys
    let rest ← endLine rest
    return (d, rest)
  | _ => none

/-- Read a line with a key and its value and add them. -/
def readKeyLine (d : Document) (cs : List Char) : Option (Document × List Char) := do
  let ((keys, item), rest) ← readPair readValue cs
  let rest ← endLine rest
  let d ← d.addLine keys item
  return (d, rest)

/-- Read the lines of a document into what was read of it; `fuel` bounds the number of
lines. -/
def readLines : (fuel : Nat) → Document → List Char → Option Document
  | 0, d, cs => if (skipGap cs).isEmpty then some d else none
  | fuel + 1, d, cs =>
    match skipGap cs with
    | [] => some d
    | '#' :: rest => (endLine ('#' :: rest)).bind (readLines fuel d)
    | '\n' :: rest => readLines fuel d rest
    | '\r' :: '\n' :: rest => readLines fuel d rest
    | '[' :: '[' :: rest =>
      match readElementHeader d rest with
      | some (d, rest) => readLines fuel d rest
      | none => none
    | '[' :: rest =>
      match readHeader d rest with
      | some (d, rest) => readLines fuel d rest
      | none => none
    | cs =>
      match readKeyLine d cs with
      | some (d, rest) => readLines fuel d rest
      | none => none

/-- The text without the mark that tells the order of bytes. -/
def skipByteOrderMark : List Char → List Char
  | '\uFEFF' :: rest => rest
  | cs => cs

/-- The root table of a document. -/
def read (text : String) : Option Members :=
  let cs := skipByteOrderMark text.toList
  (readLines cs.length .empty cs).map (·.members)

end Toml

end SpanTree

import SpanTree.Byte

/-!
# Line and column positions

A position names an offset by its line, counted from one, and its column, the
number of bytes from the start of the line. Only a line feed starts a line, so a
carriage return before it belongs to the line it ends. The lines of a buffer are
indexed once, by the offsets they start at, and looked up from there.
-/

namespace SpanTree

/-- A line, counted from one, and a byte column, counted from zero. -/
structure Position where
  line : UInt32
  column : UInt32
  deriving DecidableEq, Repr, Inhabited

namespace Position

/-- Positions are ordered as they are read: by line, then by column. -/
instance : LT Position where
  lt p q := p.line < q.line ∨ (p.line = q.line ∧ p.column < q.column)

instance : DecidableRel (fun p q : Position => p < q) := fun p q =>
  inferInstanceAs (Decidable (p.line < q.line ∨ (p.line = q.line ∧ p.column < q.column)))

/-- A position as `line:column`. -/
def text (p : Position) : String := p.line.toNat.repr ++ ":" ++ p.column.toNat.repr

end Position

/-- The offsets at which the lines of a buffer start. -/
structure LineIndex where
  /-- the line starts, in order; the first is zero -/
  starts : List Nat
  /-- the length of the buffer -/
  length : Nat
  deriving DecidableEq, Repr

namespace LineIndex

/-- The line starts that the line feeds of a buffer make, the buffer itself
starting at `offset`. -/
def startsAfter (offset : Nat) : Bytes → List Nat
  | [] => []
  | b :: rest =>
    if b = Byte.newline then (offset + 1) :: startsAfter (offset + 1) rest
    else startsAfter (offset + 1) rest

/-- The line index of a buffer. -/
def ofBytes (source : Bytes) : LineIndex := ⟨0 :: startsAfter 0 source, source.length⟩

/-- The number of lines; a final line feed is followed by one more, empty line. -/
def lineCount (index : LineIndex) : Nat := index.starts.length

/-- The last line, counted from zero, that starts at or before an offset. -/
def lineOf (index : LineIndex) (offset : Nat) : Nat :=
  (index.starts.takeWhile (· ≤ offset)).length - 1

/-- The offset at which a line, counted from zero, starts. -/
def lineStart? (index : LineIndex) (line : Nat) : Option Nat := index.starts[line]?

/-- The position of an offset; one past the end has the position of the end. -/
def position (index : LineIndex) (offset : Nat) : Position :=
  let offset := min offset index.length
  let line := index.lineOf offset
  { line := UInt32.ofNat line + 1
    column := UInt32.ofNat (offset - (index.lineStart? line).getD 0) }

end LineIndex

end SpanTree

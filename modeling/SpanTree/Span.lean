import SpanTree.Position

/-!
# Spans

A span is a half-open range of byte offsets together with the positions of its
two ends, which a line index supplies.
-/

namespace SpanTree

/-- The bytes from `start` up to `stop`, and where these offsets lie. -/
structure Span where
  start : Nat
  stop : Nat
  startPos : Position
  stopPos : Position
  deriving DecidableEq, Repr, Inhabited

namespace Span

/-- The span of a range, its positions looked up in a line index. -/
def ofRange (index : LineIndex) (start stop : Nat) : Span :=
  { start, stop, startPos := index.position start, stopPos := index.position stop }

/-- The span of a whole buffer. -/
def whole (source : Bytes) : Span := ofRange (LineIndex.ofBytes source) 0 source.length

/-- The number of bytes. -/
def length (s : Span) : Nat := s.stop - s.start

/-- Whether the range holds no byte. -/
def isEmpty (s : Span) : Bool := s.start == s.stop

/-- Whether another range lies inside this one; its ends may coincide. -/
def contains (s other : Span) : Bool := decide (s.start ≤ other.start ∧ other.stop ≤ s.stop)

/-- Whether the byte at an offset is one of the range. -/
def containsOffset (s : Span) (offset : Nat) : Bool :=
  decide (s.start ≤ offset ∧ offset < s.stop)

/-- Whether the range is the one given, whatever the positions are. -/
def sameRange (s : Span) (start stop : Nat) : Bool := s.start == start && s.stop == stop

/-- A span as the positions of its ends, `line:column-line:column`. -/
def text (s : Span) : String := s.startPos.text ++ "-" ++ s.stopPos.text

end Span

end SpanTree

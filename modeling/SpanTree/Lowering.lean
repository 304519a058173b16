import SpanTree.Fault
import SpanTree.Node
import SpanTree.RawTree

/-!
# Lowering raw trees

Lowering turns raw trees into nodes that tile a range: the children of a node
follow one another without gap or overlap from its start to its end. A raw node is
clamped to what its earlier siblings and its parent leave over, and every byte that
no raw node covers goes into a leaf of its own, white space if it is blank and an
error if it is not. Nothing is assumed of the raw offsets.

The steps that have preconditions go through `clamp`, `unshift` and `readRange`,
so a lowering that yields nodes has met none of their faults.
-/

namespace SpanTree

/-- What lowering looks at besides the raw tree. -/
structure Lowering where
  /-- the buffer that the parser saw -/
  source : Bytes
  /-- the lines of the buffer that the nodes speak of -/
  index : LineIndex
  /-- where that buffer starts in the one that the parser saw -/
  shift : Nat

/-- What is lowered into a range: a raw tree, or bytes without any. -/
inductive Piece where
  | tree (t : RawTree)
  | bare (start stop : Nat)
  deriving Repr

/-- The kind that the flags of a raw node give. -/
def RawTree.nodeKind (t : RawTree) : NodeKind :=
  if t.error then .error
  else if t.missing then .missing t.kind
  else .symbol t.kind

namespace Lowering

/-- The span of a range of the buffer that the parser saw. -/
def span (l : Lowering) (start stop : Nat) : Except Fault Span := do
  let start ← unshift start l.shift
  let stop ← unshift stop l.shift
  return Span.ofRange l.index start stop

/-- The leaf for a range that no raw node covers. -/
def gap (l : Lowering) (start stop : Nat) : Except Fault Node := do
  let bytes ← readRange l.source start stop
  let span ← l.span start stop
  return if bytes.all Byte.isSpace then .leaf .trivia false span else .leaf .error true span

/-- The leaf for what is left between two offsets, if anything is. -/
def fill (l : Lowering) (start stop : Nat) : Except Fault (List Node) :=
  if start < stop then (l.gap start stop).map ([·]) else .ok []

/-- The end of a lowered node in the buffer that the parser saw. -/
def nodeEnd (l : Lowering) (n : Node) : Nat := n.span.stop + l.shift

/-- A lowered node, after the leaf for what lies between the cursor and its start. -/
def place (l : Lowering) (cursor : Nat) (n : Node) : Except Fault (List Node) :=
  (l.fill cursor (n.span.start + l.shift)).map (· ++ [n])

mutual

/-- A raw tree lowered into the range from `lo` to `hi`. -/
def node (l : Lowering) : RawTree → Nat → Nat → Except Fault Node
  | ⟨kind, named, error, missing, troubled, start, stop, children⟩, lo, hi => do
    let newStart ← clamp start lo hi
    let newStop ← clamp stop newStart hi
    let lowered ← if children.isEmpty then pure [] else l.nodes children newStart newStop
    let span ← l.span newStart newStop
    return {
      kind := RawTree.nodeKind ⟨kind, named, error, missing, troubled, start, stop, children⟩
      named := named || error
      span
      children := lowered }

/-- Raw trees lowered into the range from the cursor to `stop`, one after another,
with leaves for what they leave uncovered. -/
def nodes (l : Lowering) : List RawTree → Nat → Nat → Except Fault (List Node)
  | [], cursor, stop => l.fill cursor stop
  | t :: ts, cursor, stop => do
    let n ← l.node t cursor stop
    let placed ← l.place cursor n
    let rest ← l.nodes ts (l.nodeEnd n) stop
    return placed ++ rest

end

/-- A piece lowered into the range from `lo` to `hi`; bytes without a raw tree are
an error. -/
def piece (l : Lowering) : Piece → Nat → Nat → Except Fault Node
  | .tree t, lo, hi => l.node t lo hi
  | .bare start stop, lo, hi => do
    let start ← clamp start lo hi
    let stop ← clamp stop start hi
    let span ← l.span start stop
    return .leaf .error true span

/-- Pieces lowered into the range from the cursor to `stop`. -/
def assemble (l : Lowering) : List Piece → Nat → Nat → Except Fault (List Node)
  | [], cursor, stop => l.fill cursor stop
  | p :: ps, cursor, stop => do
    let n ← l.piece p cursor stop
    let placed ← l.place cursor n
    let rest ← l.assemble ps (l.nodeEnd n) stop
    return placed ++ rest

/-- The span of a range that does not start before the output buffer. -/
theorem span_of_le (l : Lowering) {start stop : Nat} (hstart : l.shift ≤ start)
    (hstop : l.shift ≤ stop) :
    l.span start stop = .ok (Span.ofRange l.index (start - l.shift) (stop - l.shift)) := by
  unfold span
  rw [unshift_of_le hstart, unshift_of_le hstop]
  rfl

/-- Lowering trees as pieces is lowering them as children. -/
theorem assemble_trees (l : Lowering) (ts : List RawTree) (cursor stop : Nat) :
    l.assemble (ts.map .tree) cursor stop = l.nodes ts cursor stop := by
  induction ts generalizing cursor with
  | nil => simp [assemble, nodes]
  | cons t ts ih => simp [assemble, nodes, piece, ih]

end Lowering

end SpanTree

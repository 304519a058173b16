import SpanTree.Grammar
import SpanTree.Lowering
import SpanTree.RawTree.Tally

/-!
# Fragments

The parser sees a fragment inside the wrapper of a start rule. What belongs to the
fragment is taken out of the raw tree again: the outermost raw nodes that lie inside
the window, while nodes across an edge of the window are opened, down to leaves, of
which the part inside the window is kept as bare bytes. These pieces are lowered
into a tree over the fragment, with offsets counted from its start.
-/

namespace SpanTree

namespace RawTree

mutual

/-- The pieces of a raw tree that lie in the window, in order. -/
def piecesIn (window : Extent) : RawTree → List Piece
  | ⟨kind, named, error, missing, troubled, start, stop, children⟩ =>
    if window.contains start stop then
      [.tree ⟨kind, named, error, missing, troubled, start, stop, children⟩]
    else if window.overlaps start stop then
      if children.isEmpty then [.bare (max start window.start) (min stop window.stop)]
      else piecesInAll window children
    else []

/-- The pieces of raw trees that lie in the window, in order. -/
def piecesInAll (window : Extent) : List RawTree → List Piece
  | [] => []
  | t :: ts => piecesIn window t ++ piecesInAll window ts

end

/-- The pieces that go below the root of a fragment: those of the raw root's
children, or of the raw root itself if it is an error. -/
def fragmentPieces (t : RawTree) (window : Extent) : List Piece :=
  if t.error then t.piecesIn window else piecesInAll window t.children

end RawTree

/-- A fragment parsed under one start rule. -/
structure FragmentParse where
  rule : PatternRule
  /-- the root, over the fragment alone -/
  root : Node
  /-- the number of errors in the whole wrapped parse -/
  errorCount : Nat
  deriving DecidableEq, Repr

/-- The parse of a fragment under a rule, from the raw tree that the parser returned
for the wrapped fragment. -/
def FragmentParse.ofRaw (rule : PatternRule) (fragment : Bytes) (t : RawTree) :
    Except Fault FragmentParse := do
  let window := rule.window fragment
  let l : Lowering :=
    { source := rule.wrap fragment, index := LineIndex.ofBytes fragment, shift := window.start }
  let children ← l.assemble (t.fragmentPieces window) window.start window.stop
  let span ← l.span window.start window.stop
  return {
    rule
    root := { kind := .fragment, named := true, span, children }
    errorCount := t.countErrors }

end SpanTree

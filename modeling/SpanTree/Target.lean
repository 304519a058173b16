import SpanTree.Grammar
import SpanTree.Lowering
import SpanTree.SyntaxTree

/-!
# Target trees

A target is a whole source. Its raw tree is lowered into a tree whose root covers
every byte of the source, so a source that is broken in places still has a tree.
-/

namespace SpanTree

namespace RawTree

/-- The kind of the root of a target tree: that of the raw root, or the grammar's
start rule if the raw root is an error. -/
def rootKind (t : RawTree) (g : Grammar) : NodeKind :=
  .symbol (if t.error then g.targetRule else t.kind)

/-- The raw trees that go below the root of a target tree: the children of the raw
root, or the raw root itself if it is an error. -/
def belowRoot (t : RawTree) : List RawTree := if t.error then [t] else t.children

end RawTree

/-- The tree of a source in a language, from the raw tree that the parser returned
for it. -/
def SyntaxTree.ofTarget (g : Grammar) (language : LanguageId) (source : Bytes)
    (t : RawTree) : Except Fault SyntaxTree := do
  let l : Lowering := { source, index := LineIndex.ofBytes source, shift := 0 }
  let span ← l.span 0 source.length
  let children ← l.assemble (t.belowRoot.map .tree) 0 source.length
  return { language, root := { kind := t.rootKind g, named := true, span, children }, source }

end SpanTree

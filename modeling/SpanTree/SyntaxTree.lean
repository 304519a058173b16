import SpanTree.Fault
import SpanTree.Language
import SpanTree.Node.Json
import SpanTree.Node.Walk
import SpanTree.Text.Utf8

/-!
# Syntax trees

A syntax tree is a root node over the bytes it was made from, with the language it
was parsed as. Its leaves from left to right cover the bytes exactly once.
-/

namespace SpanTree

/-- A tree over a source. -/
structure SyntaxTree where
  language : LanguageId
  root : Node
  source : Bytes
  deriving DecidableEq, Repr

namespace SyntaxTree

/-- The source bytes under a node. -/
def bytes (t : SyntaxTree) (n : Node) : Except Fault Bytes :=
  readRange t.source n.span.start n.span.stop

/-- The source text under a node; what is no UTF-8 shows as replacement characters. -/
def text (t : SyntaxTree) (n : Node) : Except Fault String :=
  (t.bytes n).map Utf8.decodeLenient

/-- The leaves from left to right. -/
def leaves (t : SyntaxTree) : List Node := t.root.leaves

/-- The nodes that stand for syntax errors, outer ones before inner ones. -/
def errorNodes (t : SyntaxTree) : List Node := t.root.findAll Node.isErrorRecovery

/-- Whether any node stands for a syntax error. -/
def hasErrors (t : SyntaxTree) : Bool := t.root.walk.any Node.isErrorRecovery

/-- The tree as nested parentheses, without white space and unnamed tokens. -/
def sexp (t : SyntaxTree) : String := t.root.sexp

/-- The tree as a JSON value, without the source. -/
def toJson (t : SyntaxTree) : Json :=
  .object [("language", t.language.toJson), ("root", t.root.toJson)]

end SyntaxTree

end SpanTree

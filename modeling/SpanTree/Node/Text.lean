import SpanTree.Node

/-!
# Nodes as text

Two texts are made of nodes: nested parentheses with the kinds of a whole subtree,
and one line with the kind and the range of a single node.
-/

namespace SpanTree

namespace Node

mutual

/-- The subtree as nested parentheses. Children that the grammar does not name are
left out, unless they stand for a syntax error. -/
def sexp : Node → String
  | ⟨kind, _, _, children⟩ => "(" ++ kind.text ++ sexpAll children ++ ")"

/-- The shown subtrees of a list, each after a blank. -/
def sexpAll : List Node → String
  | [] => ""
  | n :: ns =>
    if n.named || n.isErrorRecovery then " " ++ sexp n ++ sexpAll ns else sexpAll ns

end

/-- One line for the node alone: its kind, `anon` if the grammar does not name it,
its range and its positions. -/
def line (n : Node) : String :=
  n.kind.text ++ (if n.named then "" else " anon") ++ " " ++ n.span.start.repr ++ ".." ++
    n.span.stop.repr ++ " " ++ n.span.text

end Node

end SpanTree

/-!
# Raw trees

What the backend parser returns for a buffer: a tree of nodes with the parser's
own kinds, flags and byte offsets. Nothing is assumed of it. Offsets may lie
outside the buffer, ends may come before starts, siblings may overlap, and the
flag that announces errors below a node need not agree with what is there.
-/

namespace SpanTree

/-- A node of a raw tree. -/
structure RawTree where
  /-- the kind in the grammar table -/
  kind : String
  /-- whether the table names the kind -/
  named : Bool
  /-- whether the node holds what the parser could not fit -/
  error : Bool
  /-- whether the node is a token that the parser assumed -/
  missing : Bool
  /-- whether the parser announces an error at or below the node -/
  troubled : Bool
  start : Nat
  stop : Nat
  children : List RawTree
  deriving Repr, Inhabited

namespace RawTree

/-- Whether the node stands for a syntax error. -/
def isErrorRecovery (t : RawTree) : Bool := t.error || t.missing

mutual

/-- The number of error and missing nodes that can be reached through troubled
nodes: below a node without the flag nothing is counted. -/
def errorCount : RawTree → Nat
  | ⟨_, _, error, missing, troubled, _, _, children⟩ =>
    (if error || missing then 1 else 0) + (if troubled then errorCountAll children else 0)

/-- The error count of trees taken together. -/
def errorCountAll : List RawTree → Nat
  | [] => 0
  | t :: ts => errorCount t + errorCountAll ts

end

/-- One line of a raw tree written as a flat list, each node before its children. -/
structure Entry where
  kind : String
  /-- sum of 1 for a named node, 2 for an error, 4 for a missing token, 8 for a troubled node -/
  flags : Nat
  start : Nat
  stop : Nat
  childCount : Nat
  deriving DecidableEq, Repr

/-- The tree with the fields of an entry and the given children. -/
def Entry.tree (e : Entry) (children : List RawTree) : RawTree :=
  { kind := e.kind
    named := e.flags.testBit 0
    error := e.flags.testBit 1
    missing := e.flags.testBit 2
    troubled := e.flags.testBit 3
    start := e.start
    stop := e.stop
    children }

/-- The trees that a flat list spells. Read from its end, each entry takes as many
of the finished trees for its children as it counts. -/
def ofEntries (entries : List Entry) : List RawTree :=
  entries.foldr (fun e trees => e.tree (trees.take e.childCount) :: trees.drop e.childCount) []

end RawTree

end SpanTree

import SpanTree.Json
import SpanTree.Node.Text

/-!
# Nodes as JSON

The rendering of spans, kinds and subtrees as JSON values. A node without children
has no member for them.
-/

namespace SpanTree

/-- A position as a JSON object. -/
def Position.toJson (p : Position) : Json :=
  .object [("line", .ofNat p.line.toNat), ("column", .ofNat p.column.toNat)]

/-- A span as a JSON object: the range and the positions of its ends. -/
def Span.toJson (s : Span) : Json :=
  .object
    [ ("start", .ofNat s.start), ("end", .ofNat s.stop),
      ("start_pos", s.startPos.toJson), ("end_pos", s.stopPos.toJson) ]

/-- A kind as a JSON value: a name, or an object with what the kind carries. -/
def NodeKind.toJson : NodeKind → Json
  | symbol name => .object [("syntax", .string name)]
  | error => .string "error"
  | missing name => .object [("missing", .string name)]
  | trivia => .string "trivia"
  | fragment => .string "fragment"
  | metavariable name ellipsis =>
    .object [("metavariable", .object [("name", .string name), ("ellipsis", .bool ellipsis)])]
  | wildcard => .string "wildcard"

namespace Node

mutual

/-- A subtree as a JSON object. -/
def toJson : Node → Json
  | ⟨kind, named, span, children⟩ =>
    .object
      ([("kind", kind.toJson), ("named", .bool named), ("span", span.toJson)] ++
        (if children.isEmpty then [] else [("children", .array (toJsonAll children))]))

/-- Subtrees as JSON objects. -/
def toJsonAll : List Node → List Json
  | [] => []
  | n :: ns => toJson n :: toJsonAll ns

end

end Node

end SpanTree

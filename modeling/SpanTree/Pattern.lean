import SpanTree.Pattern.Choice
import SpanTree.Pattern.Tagging
import SpanTree.SyntaxTree

/-!
# Patterns

A pattern is made from a fragment of code, which may be incomplete, in which
placeholders stand for what is to be matched. The placeholders are masked, the
result is parsed under the start rule that suits it best, and the nodes at the
placeholders are tagged. The tree speaks of the fragment as it was given.

A fragment is refused if it is blank, if it has nothing but comments, or if no part
of it has any structure; a strict parse refuses every fragment with an error in it.
-/

namespace SpanTree

/-- A parsed pattern. -/
structure PatternTree where
  tree : SyntaxTree
  /-- the name of the start rule that the fragment was parsed under -/
  rule : String
  shape : FragmentShape
  /-- the metavariables that were tagged, in order -/
  metavariables : List Metavariable
  /-- the wildcards that were tagged, in order -/
  wildcards : List Span
  deriving DecidableEq, Repr

namespace Pattern

/-- The parts of a fragment that count as code: those directly below the root that are
neither white space nor comments. -/
def significant (g : Grammar) (root : Node) : List Node :=
  root.nonTriviaChildren.filter (!g.isCommentKind ·.kind.label)

/-- Whether a part has structure in the grammar: punctuation has none, and neither has
what the parser could not fit. -/
def hasStructure (n : Node) : Bool := n.named && !n.isErrorRecovery

/-- The part that is to blame in a fragment without structure: the first that stands
for an error, or else the first at all. -/
def offending (first : Node) (rest : List Node) : Node :=
  ((first :: rest).find? Node.isErrorRecovery).getD first

/-- Refuse the parse of a fragment that cannot serve as a pattern. -/
def check (g : Grammar) (strict : Bool) (root : Node) (source : Bytes) : Except Error Unit :=
  match significant g root with
  | [] => .error (.unparseablePattern (.whole source) .noCode)
  | first :: rest =>
    if !(first :: rest).any hasStructure then
      .error (.unparseablePattern (offending first rest).span (.noStructure g.name))
    else if strict then
      match root.walk.find? Node.isErrorRecovery with
      | some n => .error (.unparseablePattern n.span .syntaxError)
      | none => .ok ()
    else .ok ()

end Pattern

namespace PatternTree

/-- The root of a pattern, of kind `fragment`. -/
def root (p : PatternTree) : Node := p.tree.root

/-- Whether the fragment was parsed with error recovery. -/
def hasErrors (p : PatternTree) : Bool := p.tree.hasErrors

/-- The pattern made from a parse of a fragment, its placeholders tagged. -/
def ofParse (language : LanguageId) (source : Bytes) (parse : FragmentParse)
    (sites : List Site) : PatternTree :=
  let tagging := Tagging.ofSites parse.root sites
  { tree := { language, root := tagging.root, source }
    rule := parse.rule.name
    shape := parse.rule.shape
    metavariables := tagging.metavariables
    wildcards := tagging.wildcards }

/-- The pattern that a text is in a language, from the raw trees that the parser
returned for the start rules. -/
def ofText (g : Grammar) (strict : Bool) (language : LanguageId) (expressionOnly : Bool)
    (text : String) (trees : Choice.RuleTrees) : Except Error PatternTree := do
  let source := Utf8.encode text
  if Text.isBlank text then throw (.unparseablePattern (.whole source) .blank)
  let placeholders := Placeholders.scan g.sigil g.wildcard source
  let best ← Fault.lift (FragmentParse.best g expressionOnly placeholders.masked trees)
  Pattern.check g strict best.root source
  return ofParse language source best placeholders.sites

/-- A metavariable as a JSON object. -/
def metavariableToJson (m : Metavariable) : Json :=
  .object [("name", .string m.name), ("ellipsis", .bool m.ellipsis), ("span", m.span.toJson)]

/-- The pattern as a JSON value, without the source. -/
def toJson (p : PatternTree) : Json :=
  .object
    [ ("tree", p.tree.toJson),
      ("rule", .string p.rule),
      ("shape", .string p.shape.name),
      ("metavariables", .array (p.metavariables.map metavariableToJson)),
      ("wildcards", .array (p.wildcards.map Span.toJson)) ]

end PatternTree

end SpanTree

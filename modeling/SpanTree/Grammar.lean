import SpanTree.Grammar.KindTable
import SpanTree.Grammar.Rule
import SpanTree.Grammar.Sigil

/-!
# Grammars

A grammar is a table together with what the engine has to know around it: the
start rule of whole files, the start rules for fragments in the order they are
tried, how placeholders are written, and which kinds of node are comments.
-/

namespace SpanTree

/-- How a grammar sees the wildcard `...`. -/
inductive WildcardStyle where
  /-- three dots parse as a node of their own -/
  | native
  /-- three dots are parsed as an identifier of the same length -/
  | identifier
  deriving DecidableEq, Repr, Inhabited

namespace WildcardStyle

/-- The name of a style in descriptions. -/
def title : WildcardStyle → String
  | native => "Native"
  | identifier => "Identifier"

/-- The style with the given name. -/
def ofName? : String → Option WildcardStyle
  | "native" => some native
  | "identifier" => some identifier
  | _ => none

end WildcardStyle

/-- A grammar table and what the engine has to know around it. -/
structure Grammar where
  name : String
  /-- the start rule of whole files -/
  targetRule : String
  /-- the declared start rules for fragments, in the order they are tried -/
  patternRules : List PatternRule
  /-- the rule for fragments if none is declared -/
  fallbackRule : PatternRule
  sigil : Sigil
  wildcard : WildcardStyle
  /-- the kinds of node that are comments and no content of a pattern -/
  commentKinds : List String
  /-- the named kinds of node that occur in trees, in order -/
  nodeKinds : List String
  deriving DecidableEq, Repr, Inhabited

namespace Grammar

/-- A grammar over a table, with the start rule of whole files, no start rules for
fragments and the usual conventions. The table must have the start rule. -/
def ofTable (name : String) (table : KindTable) (targetRule : String) : Except Error Grammar :=
  if table.hasStart targetRule then
    .ok
      { name
        targetRule
        patternRules := []
        fallbackRule := .bare targetRule .items
        sigil := .dollar
        wildcard := .native
        commentKinds := ["comment"]
        nodeKinds := table.kinds }
  else .error (.grammar (.unknownStart name targetRule))

/-- The grammar with one more start rule for fragments, tried after the others. -/
def withRule (g : Grammar) (rule : PatternRule) : Grammar :=
  { g with patternRules := g.patternRules ++ [rule] }

/-- A declared start rule, with its place among the declared ones. -/
structure Candidate where
  place : Nat
  rule : PatternRule
  deriving DecidableEq, Repr

/-- The declared start rules in order, each with its place. -/
def declared (g : Grammar) : List Candidate :=
  g.patternRules.zipIdx.map fun (rule, place) => ⟨place, rule⟩

/-- The start rules that a pattern parse tries, in order. For expressions only, these
are the declared rules of that shape; if there are none, or if any code is wanted,
all declared rules; and if none is declared, the fallback rule. -/
def candidates (g : Grammar) (expressionOnly : Bool) : List Candidate :=
  if g.patternRules.isEmpty then [⟨0, g.fallbackRule⟩]
  else if expressionOnly then
    let expressions := g.declared.filter (·.rule.shape == .expression)
    if expressions.isEmpty then g.declared else expressions
  else g.declared

/-- Whether nodes of a kind are comments. -/
def isCommentKind (g : Grammar) (kind : String) : Bool := g.commentKinds.contains kind

/-- Whether nodes of a kind occur in trees of the grammar. -/
def hasNodeKind (g : Grammar) (kind : String) : Bool := g.nodeKinds.contains kind

/-- A rule with its fields by name, as it stands in the description of a grammar. -/
def describeRule (rule : PatternRule) : String :=
  "PatternRule \x7b name: " ++ Text.quoteText rule.name ++
    ", shape: " ++ rule.shape.title ++
    ", prefix: " ++ Text.quoteText rule.before ++
    ", suffix: " ++ Text.quoteText rule.after ++ " \x7d"

/-- The grammar with its main fields by name. -/
def describe (g : Grammar) : String :=
  "Grammar \x7b name: " ++ Text.quoteText g.name ++
    ", target_rule: " ++ Text.quoteText g.targetRule ++
    ", pattern_rules: [" ++ String.intercalate ", " (g.patternRules.map describeRule) ++
    "], wildcard: " ++ g.wildcard.title ++
    ", node_kinds: " ++ g.nodeKinds.length.repr ++ " \x7d"

end Grammar

end SpanTree

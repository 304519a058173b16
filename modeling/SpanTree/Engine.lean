import SpanTree.Config
import SpanTree.Pattern
import SpanTree.Registry.Builtin
import SpanTree.Source
import SpanTree.Target

/-!
# The engine

An engine holds a registry of languages, the provider that reads its files, and
whether it is strict about patterns. Every call is a function of these and of what it
is given. The trees of the backend parser are given too: for a target the one of the
source, for a pattern one for each declared start rule.
-/

namespace SpanTree

/-- How a request is to be parsed. -/
inductive Mode where
  /-- as a fragment; under the rules for expressions alone, if it says so -/
  | pattern (expressionOnly : Bool)
  /-- as a whole source -/
  | target
  deriving DecidableEq, Repr

/-- One request to parse. -/
structure Request where
  /-- the id of the language, in any spelling -/
  language : String
  source : Source
  mode : Mode
  deriving DecidableEq, Repr

/-- What a request is answered with. -/
inductive Parsed where
  | pattern (p : PatternTree)
  | target (t : SyntaxTree)
  deriving DecidableEq, Repr

/-- The tree of an answer, whatever the mode. -/
def Parsed.tree : Parsed → SyntaxTree
  | pattern p => p.tree
  | target t => t

/-- A parsing engine. -/
structure Engine where
  registry : Registry
  provider : SourceProvider
  /-- whether patterns that parse with error recovery are refused -/
  strict : Bool

namespace Engine

/-- The engine that a configuration describes. -/
def ofConfig (provider : SourceProvider) (c : Config) : Except Error Engine := do
  let registry ← Registry.builtin c.languages
  return { registry, provider, strict := c.strict }

/-- The language ids that the engine offers, in order. -/
def languages (e : Engine) : List LanguageId := e.registry.languages

/-- The engine with its main fields by name. -/
def describe (e : Engine) : String :=
  "Engine \x7b languages: " ++ e.registry.size.repr ++ ", strict_patterns: " ++
    (if e.strict then "true" else "false") ++ " \x7d"

/-- Parse a text as a pattern. -/
def parsePattern (e : Engine) (expressionOnly : Bool) (language text : String)
    (trees : Choice.RuleTrees) : Except Error PatternTree := do
  let entry ← e.registry.resolveEntry language
  PatternTree.ofText entry.bound.grammar e.strict entry.id expressionOnly text trees

/-- Parse a whole source. The language is looked up before the source is read. -/
def parseTarget (e : Engine) (language : String) (source : Source) (tree : RawTree) :
    Except Error SyntaxTree := do
  let entry ← e.registry.resolveEntry language
  let bytes ← source.read e.provider
  Fault.lift (SyntaxTree.ofTarget entry.bound.grammar entry.id bytes tree)

/-- Answer a request. The raw tree of a target is the first of those given. The text of
a pattern is read before the language is looked up. -/
def parse (e : Engine) (r : Request) (trees : Choice.RuleTrees) : Except Error Parsed :=
  match r.mode with
  | .target => do
    let tree ← e.parseTarget r.language r.source (trees 0)
    return .target tree
  | .pattern expressionOnly => do
    let text ← r.source.readText e.provider
    let pattern ← e.parsePattern expressionOnly r.language text trees
    return .pattern pattern

end Engine

end SpanTree

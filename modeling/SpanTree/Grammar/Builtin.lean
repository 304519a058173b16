import SpanTree.Grammar

/-!
# Built-in grammars

The grammars that every engine can offer, and the language ids that each of them
serves. The order of the families, and of the ids in a family, is the order in
which languages are listed.
-/

namespace SpanTree

namespace Grammar

/-- The rule that reads a fragment as an expression between brackets. -/
def bracketedExpression : PatternRule := ⟨"expression", .expression, "(\n", "\n)"⟩

/-- The grammar for HTML, which serves XML documents too. -/
def html : Except Error Grammar :=
  (ofTable "html" .html "document").map fun g =>
    { g with patternRules := [.bare "document" .items] }

/-- The grammar for Python of either major version. -/
def python : Except Error Grammar :=
  (ofTable "python" .python "module").map fun g =>
    { g with patternRules := [.bare "module" .statements, bracketedExpression] }

/-- The grammar for JavaScript. -/
def javascript : Except Error Grammar :=
  (ofTable "javascript" .javascript "program").map fun g =>
    { g with
      wildcard := .identifier
      patternRules :=
        [ .bare "program" .statements,
          ⟨"class_body", .members, "class __Pattern__ \x7b\n", "\n\x7d"⟩,
          bracketedExpression ] }

/-- The grammar for Rust. -/
def rust : Except Error Grammar :=
  (ofTable "rust" .rust "source_file").map fun g =>
    { g with
      wildcard := .identifier
      commentKinds := ["line_comment", "block_comment"]
      patternRules :=
        [ .bare "source_file" .items,
          ⟨"block", .statements, "fn __pattern__() \x7b\n", "\n\x7d"⟩,
          ⟨"impl_body", .members, "impl __Pattern__ \x7b\n", "\n\x7d"⟩,
          ⟨"expression", .expression, "const __PATTERN__: () = (\n", "\n);"⟩ ] }

/-- The grammar for Go. -/
def go : Except Error Grammar :=
  (ofTable "go" .go "source_file").map fun g =>
    { g with
      wildcard := .identifier
      patternRules :=
        [ ⟨"source_file", .items, "package __pattern__\n", "\n"⟩,
          ⟨"block", .statements, "package __pattern__\nfunc __pattern__() \x7b\n", "\n\x7d\n"⟩,
          ⟨"expression", .expression, "package __pattern__\nvar __pattern__ = (\n", "\n)\n"⟩ ] }

/-- The built-in grammar with the given name. -/
def builtin? : String → Option (Except Error Grammar)
  | "html" => some html
  | "python" => some python
  | "javascript" => some javascript
  | "rust" => some rust
  | "go" => some go
  | _ => none

/-- The language ids that one built-in grammar serves. -/
structure Family where
  ids : List String
  grammar : Except Error Grammar

/-- The built-in families, in the order in which languages are listed. -/
def families : List Family :=
  [ ⟨["html", "xml"], html⟩,
    ⟨["python", "python2", "python3"], python⟩,
    ⟨["javascript"], javascript⟩,
    ⟨["rust"], rust⟩,
    ⟨["go"], go⟩ ]

/-- All built-in language ids, in order. -/
def builtinIds : List String := families.flatMap (·.ids)

end Grammar

end SpanTree

import SpanTree.Json
import SpanTree.Text.Blank

/-!
# Language ids

A language id is the key a host picks a grammar by. Ids are normalized when they
are made: blank characters around them are dropped and ASCII letters lowered, so
two spellings of one id are the same id. Letters beyond ASCII keep their case.
-/

namespace SpanTree

/-- The normal form of the spelling of an id. -/
def normalizeId (spelling : String) : String :=
  String.ofList ((Text.trimChars spelling.toList).map Char.toLower)

/-- A normalized language id. -/
structure LanguageId where
  name : String
  deriving DecidableEq, Repr, Inhabited

namespace LanguageId

/-- The id that a spelling names. -/
def ofSpelling (spelling : String) : LanguageId := ⟨normalizeId spelling⟩

/-- The id as a JSON value. -/
def toJson (id : LanguageId) : Json := .string id.name

/-- The id that a JSON value spells. -/
def ofJson? : Json → Option LanguageId
  | .string spelling => some (ofSpelling spelling)
  | _ => none

/-- Ids in the order of their names, with one more put where it belongs unless it is
there already. -/
def insertInOrder (id : LanguageId) : List LanguageId → List LanguageId
  | [] => [id]
  | first :: rest =>
    if id = first then first :: rest
    else if id.name < first.name then id :: first :: rest
    else first :: insertInOrder id rest

/-- The ids of a list once each, in the order of their names. -/
def sorted (ids : List LanguageId) : List LanguageId := ids.foldr insertInOrder []

end LanguageId

end SpanTree

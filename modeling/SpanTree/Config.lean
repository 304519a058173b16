import SpanTree.Error
import SpanTree.Json
import SpanTree.Toml.Reader

/-!
# Engine configuration

A configuration says which of the built-in languages an engine offers and whether it
is strict about patterns. It is read from a TOML document or from a JSON value, where
fields that are absent have their default and fields that are unknown are passed over.
Either form may also give the fields of a record as a list, in their order; at the end
of the list fields may be left out.
-/

namespace SpanTree

/-- What can be configured of an engine. -/
structure Config where
  /-- the ids that the built-in languages are restricted to; nothing for all of them -/
  languages : Option (List String)
  /-- whether patterns that parse with error recovery are refused -/
  strict : Bool
  deriving DecidableEq, Repr

namespace Config

/-- All built-in languages, and patterns may have errors in them. -/
def default : Config := ⟨none, false⟩

/-! ## From TOML -/

/-- The texts of a TOML array of strings. -/
def stringsOfItem? : Toml.Item → Option (List String)
  | .array items =>
    items.mapM fun
      | .string s => some s
      | _ => none
  | _ => none

/-- The truth value of a TOML item. -/
def boolOfItem? : Toml.Item → Option Bool
  | .boolean b => some b
  | _ => none

/-- The strictness that the pattern section of a TOML document sets. A date stands for
a section without known fields. -/
def strictOfItem? : Toml.Item → Option Bool
  | .table _ ms =>
    match Toml.Members.get? ms "strict" with
    | none => some false
    | some item => boolOfItem? item
  | .array [] => some false
  | .array (item :: _) => boolOfItem? item
  | .datetime => some false
  | _ => none

/-- The configuration that a TOML document holds. -/
def ofMembers? (ms : Toml.Members) : Option Config := do
  let languages ←
    match ms.get? "languages" with
    | none => some none
    | some item => (stringsOfItem? item).map some
  let strict ←
    match ms.get? "pattern" with
    | none => some false
    | some item => strictOfItem? item
  return { languages, strict }

/-- The configuration that a TOML text holds. -/
def ofToml (text : String) : Except Error Config :=
  match Toml.read text with
  | none => .error (.config .malformed)
  | some ms =>
    match ofMembers? ms with
    | none => .error (.config .mistyped)
    | some config => .ok config

/-! ## From JSON -/

/-- The text of a JSON string. -/
def stringOfJson? : Json → Option String
  | .string s => some s
  | _ => none

/-- The restriction that a JSON value gives: none, or a list of ids. -/
def languagesOfJson? : Json → Option (Option (List String))
  | .null => some none
  | .array items => (items.mapM stringOfJson?).map some
  | _ => none

/-- The truth value of a JSON value. -/
def boolOfJson? : Json → Option Bool
  | .bool b => some b
  | _ => none

/-- The strictness that the pattern section of a JSON value sets. -/
def strictOfJson? : Json → Option Bool
  | .object members =>
    match Json.member? members "strict" with
    | none => some false
    | some value => boolOfJson? value
  | .array [] => some false
  | .array [value] => boolOfJson? value
  | _ => none

/-- The configuration that a JSON value gives. -/
def ofJson? : Json → Option Config
  | .object members => do
    let languages ←
      match Json.member? members "languages" with
      | none => some none
      | some value => languagesOfJson? value
    let strict ←
      match Json.member? members "pattern" with
      | none => some false
      | some value => strictOfJson? value
    return { languages, strict }
  | .array [] => some default
  | .array [languages] => do return { default with languages := ← languagesOfJson? languages }
  | .array [languages, pattern] => do
    return { languages := ← languagesOfJson? languages, strict := ← strictOfJson? pattern }
  | _ => none

/-! ## To TOML and JSON -/

/-- A list of strings as a TOML array: on one line if there are less than two, and else
each on a line of its own. -/
def writeStrings : List String → List Char
  | [] => ['[', ']']
  | [s] => '[' :: Toml.writeString s.toList ++ [']']
  | many =>
    '[' :: '\n' ::
      many.flatMap (fun s => "    ".toList ++ Toml.writeString s.toList ++ [',', '\n']) ++ [']']

/-- The name of a truth value. -/
def boolName (b : Bool) : String := if b then "true" else "false"

/-- The configuration as a TOML text. -/
def toToml (c : Config) : String :=
  let languages :=
    match c.languages with
    | none => []
    | some ids => "languages = ".toList ++ writeStrings ids ++ ['\n', '\n']
  String.ofList
    (languages ++ "[pattern]\nstrict = ".toList ++ (boolName c.strict).toList ++ ['\n'])

/-- The configuration as a JSON value. -/
def toJson (c : Config) : Json :=
  .object
    [ ("languages",
        match c.languages with
        | none => .null
        | some ids => .array (ids.map .string)),
      ("pattern", .object [("strict", .bool c.strict)]) ]

end Config

end SpanTree

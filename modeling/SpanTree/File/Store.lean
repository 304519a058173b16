import SpanTree.Error
import SpanTree.Source

/-!
# A store of files

A store holds files and directories below one working directory and answers for
paths relative to it. A path is walked name by name: a blank name or `.` stays where
it is, `..` goes up, and every name but the last has to be that of a directory. A path
that ends in a slash names a directory. Above the working directory there is nothing
to be found.
-/

namespace SpanTree

namespace File

/-- What is at a path. -/
inductive Entry where
  | file (content : Bytes)
  | directory
  deriving DecidableEq, Repr

/-- Files and directories by the names that lead to them from the working directory,
which itself is always there. -/
structure Store where
  entries : List (List String × Entry)
  deriving DecidableEq, Repr

/-- Where a walk along a path has come to. -/
inductive Place where
  /-- the names that lead there from the working directory -/
  | below (names : List String)
  /-- a directory above the working directory -/
  | above
  deriving DecidableEq, Repr

/-- The number of bytes that a name may have. -/
def nameLimit : Nat := 255

/-- The number of bytes that a path may have. -/
def pathLimit : Nat := 4095

/-- The stretches of text between slashes; there is always a first one. -/
def splitAtSlashes : List Char → List (List Char)
  | [] => [[]]
  | c :: rest =>
    match splitAtSlashes rest with
    | [] => [[c]]
    | name :: names => if c = '/' then [] :: name :: names else (c :: name) :: names

/-- The names of a path; a slash at the end counts as a blank name after it. -/
def namesOf (path : String) : List String := (splitAtSlashes path.toList).map String.ofList

namespace Store

/-- The store with nothing in it. -/
def empty : Store := ⟨[]⟩

/-- What the names from the working directory lead to. -/
def lookup (s : Store) (names : List String) : Option Entry :=
  if names.isEmpty then some .directory else (s.entries.find? (·.1 == names)).map (·.2)

/-- The store with an entry at the names, in place of what was there. -/
def put (s : Store) (names : List String) (entry : Entry) : Store :=
  ⟨s.entries.filter (·.1 != names) ++ [(names, entry)]⟩

/-- The store with directories along the names, where there is nothing yet; `upper`
are the names that lead to the first of them. -/
def putDirectories (s : Store) (upper : List String) : List String → Store
  | [] => s
  | name :: rest =>
    let names := upper ++ [name]
    let s := if (s.lookup names).isSome then s else s.put names .directory
    putDirectories s names rest

/-- The place a name leads to from a place that is there. -/
def step (s : Store) (name : String) : Place → Except FileFault Place
  | .above =>
    if name = "" ∨ name = "." ∨ name = ".." then .ok .above else .error .notFound
  | .below names =>
    match s.lookup names with
    | none => .error .notFound
    | some (.file _) => .error .notDirectory
    | some .directory =>
      if name = "" ∨ name = "." then .ok (.below names)
      else if name = ".." then .ok (if names.isEmpty then .above else .below names.dropLast)
      else if nameLimit < (Utf8.encode name).length then .error .nameTooLong
      else .ok (.below (names ++ [name]))

/-- The place that names lead to; what the last of them names need not be there. -/
def walk (s : Store) (names : List String) : Except FileFault Place :=
  names.foldlM (fun place name => s.step name place) (.below [])

/-- The entry at a place. -/
def entryAt (s : Store) : Place → Except FileFault Entry
  | .above => .ok .directory
  | .below names =>
    match s.lookup names with
    | some entry => .ok entry
    | none => .error .notFound

/-- The names of a path that may be walked: one that is not blank, begins in the
working directory and is short enough. -/
def walkable (path : String) : Except FileFault (List String) :=
  if path.toList.contains (Char.ofNat 0) then .error .nulInName
  else if path = "" then .error .notFound
  else if pathLimit < (Utf8.encode path).length then .error .nameTooLong
  else if (namesOf path).head? = some "" then .error .notFound
  else .ok (namesOf path)

/-- The place that a path leads to. -/
def locate (s : Store) (path : String) : Except FileFault Place := do
  s.walk (← walkable path)

/-- Whether a path leads to a file or a directory. -/
def existsAt (s : Store) (path : String) : Bool :=
  ((s.locate path).bind s.entryAt).isOk

/-- The content of the file at a path. -/
def read (s : Store) (path : String) : Except FileFault Bytes := do
  match ← s.entryAt (← s.locate path) with
  | .file content => return content
  | .directory => throw .isDirectory

/-- The text of the file at a path. -/
def readText (s : Store) (path : String) : Except FileFault String := do
  match Utf8.decode (← s.read path) with
  | .ok text => return text
  | .error _ => throw .notUtf8

/-- The store after a file is written, in place of what it held or as a new one. A
path that ends in a slash cannot be that of a file. -/
def write (s : Store) (path : String) (content : Bytes) : Except FileFault Store := do
  let names ← walkable path
  match ← s.walk (names.reverse.dropWhile (· == "")).reverse with
  | .above => throw .isDirectory
  | .below target =>
    if names.getLast? = some "" ∨ s.lookup target = some .directory then throw .isDirectory
    else return s.put target (.file content)

/-- The store that holds the files given, or directories where there is no content,
with the directories that lead to them. -/
def ofFiles (files : List (String × Option Bytes)) : Store :=
  files.foldl
    (fun s (path, content) =>
      let names := (namesOf path).filter fun name => name != "" && name != "."
      let s := s.putDirectories [] names.dropLast
      match content with
      | some content => s.put names (.file content)
      | none => s.putDirectories [] names)
    .empty

/-- The provider that reads from the store. -/
def provider (s : Store) : SourceProvider := fun path =>
  match s.read path with
  | .ok content => .ok content
  | .error fault => .error (Error.ofFile path fault)

end Store

end File

end SpanTree

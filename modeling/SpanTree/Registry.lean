import SpanTree.Grammar
import SpanTree.Language

/-!
# The registry of languages

A registry binds language ids to grammars, in the order in which the ids were
registered; nothing is ever removed or replaced. One grammar may serve several ids,
which then form a family. Which ids share a grammar is a matter of identity and not
of contents: a grammar gets a handle when it is shared, and two grammars made alike
have different handles.
-/

namespace SpanTree

/-- A grammar that may be bound to several ids; the handle tells it from all others. -/
structure SharedGrammar where
  handle : Nat
  grammar : Grammar
  deriving DecidableEq, Repr

/-- Whether two shared grammars are the same object. -/
def SharedGrammar.isSame (a b : SharedGrammar) : Bool := a.handle == b.handle

/-- An id bound to a grammar. -/
structure RegistryEntry where
  id : LanguageId
  bound : SharedGrammar
  deriving DecidableEq, Repr

/-- The languages registered, in order, and the handle of the next grammar to be shared. -/
structure Registry where
  entries : List RegistryEntry
  nextHandle : Nat
  deriving DecidableEq, Repr

namespace Registry

/-- The registry without any language. -/
def empty : Registry := ⟨[], 0⟩

/-- The registered ids in order. -/
def languages (r : Registry) : List LanguageId := r.entries.map (·.id)

/-- The number of ids. -/
def size (r : Registry) : Nat := r.entries.length

/-- Whether no id is registered. -/
def isEmpty (r : Registry) : Bool := r.entries.isEmpty

/-- The entry of an id. -/
def entry? (r : Registry) (id : LanguageId) : Option RegistryEntry :=
  r.entries.find? (·.id == id)

/-- A grammar with a handle of its own. -/
def share (r : Registry) (g : Grammar) : SharedGrammar × Registry :=
  (⟨r.nextHandle, g⟩, { r with nextHandle := r.nextHandle + 1 })

/-- Bind one more id to a grammar. An id that is registered stays as it is. -/
def register (r : Registry) (id : LanguageId) (bound : SharedGrammar) : Except Error Registry :=
  match r.entry? id with
  | some _ => .error (.duplicateLanguage id.name)
  | none => .ok { r with entries := r.entries ++ [⟨id, bound⟩] }

/-- The first id of a list that is registered or occurs earlier in the list; `earlier`
are the ids before it. -/
def firstDuplicate (r : Registry) (earlier : List LanguageId) : List LanguageId → Option LanguageId
  | [] => none
  | id :: rest =>
    if (r.entry? id).isSome || earlier.contains id then some id
    else firstDuplicate r (earlier ++ [id]) rest

/-- Share a grammar and bind it to ids, in the order given: to all of them or, if one
is a duplicate, to none. -/
def registerFamily (r : Registry) (spellings : List String) (g : Grammar) :
    Except Error (SharedGrammar × Registry) := do
  let ids := spellings.map .ofSpelling
  match r.firstDuplicate [] ids with
  | some id => throw (.duplicateLanguage id.name)
  | none =>
    let (bound, r) := r.share g
    let r ← ids.foldlM (fun r id => r.register id bound) r
    return (bound, r)

/-- The entry that a spelling names. An unknown id is an error, never a default. -/
def resolveEntry (r : Registry) (spelling : String) : Except Error RegistryEntry :=
  match r.entry? (.ofSpelling spelling) with
  | some entry => .ok entry
  | none => .error (.unknownLanguage spelling)

/-- The grammar that a spelling names. -/
def resolve (r : Registry) (spelling : String) : Except Error SharedGrammar :=
  (r.resolveEntry spelling).map (·.bound)

/-- Whether a spelling names a registered id. -/
def contains (r : Registry) (spelling : String) : Bool := (r.resolve spelling).isOk

/-- The ids bound to the same grammar as the one a spelling names, in order. -/
def family (r : Registry) (spelling : String) : Except Error (List LanguageId) :=
  (r.resolve spelling).map fun bound =>
    (r.entries.filter (·.bound.isSame bound)).map (·.id)

/-- The different grammars of entries that are not among those seen, in order. -/
def distinctFrom (seen : List SharedGrammar) : List RegistryEntry → List SharedGrammar
  | [] => []
  | e :: rest =>
    if seen.any (·.isSame e.bound) then distinctFrom seen rest
    else e.bound :: distinctFrom (seen ++ [e.bound]) rest

/-- The different grammars, in the order of their first ids. -/
def grammars (r : Registry) : List SharedGrammar := distinctFrom [] r.entries

end Registry

end SpanTree

import SpanTree.Grammar.Builtin
import SpanTree.Registry

/-!
# Registries of the built-in grammars

A registry of the built-in grammars holds all their ids, or those of them that are
asked for. Ids keep their built-in order, whatever order they are asked for in, and
may be asked for in any spelling and more than once.
-/

namespace SpanTree

namespace Registry

/-- The first spelling of a list that names no built-in id. -/
def firstUnknown (only : List String) : Option String :=
  only.find? fun spelling => !Grammar.builtinIds.contains (normalizeId spelling)

/-- The ids of a family that are asked for: all of them if nothing is said. -/
def wanted (only : Option (List String)) (ids : List String) : List String :=
  match only with
  | none => ids
  | some only => ids.filter fun id => only.any fun spelling => normalizeId spelling == id

/-- Register a built-in family under those of its ids that are asked for, if any. -/
def addFamily (only : Option (List String)) (r : Registry) (family : Grammar.Family) :
    Except Error Registry := do
  let ids := wanted only family.ids
  if ids.isEmpty then return r
  let g ← family.grammar
  let (_, r) ← r.registerFamily ids g
  return r

/-- The registry of the built-in grammars, restricted to the ids asked for. -/
def builtin (only : Option (List String)) : Except Error Registry := do
  if let some spelling := only.bind firstUnknown then throw (.unknownLanguage spelling)
  Grammar.families.foldlM (addFamily only) .empty

end Registry

end SpanTree

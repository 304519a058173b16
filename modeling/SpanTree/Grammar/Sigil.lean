import SpanTree.Error

/-!
# Sigils

A metavariable is marked by one character in front of its name. Any ASCII
character will do that is no letter, no digit and no white space.
-/

namespace SpanTree

/-- Whether a character can mark metavariables. -/
def isSigilChar (c : Char) : Bool :=
  decide (c.toNat < 128) && !Byte.isAlphanumeric (UInt8.ofNat c.toNat) &&
    !Byte.isSpace (UInt8.ofNat c.toNat)

/-- A character that marks metavariables. -/
structure Sigil where
  char : Char
  admissible : isSigilChar char = true
  deriving DecidableEq, Repr

namespace Sigil

/-- The sigil that a character is, if it can be one. -/
def ofChar (c : Char) : Except Error Sigil :=
  if h : isSigilChar c = true then .ok ⟨c, h⟩ else .error (.grammar (.badSigil c))

/-- The sigil of `$X`. -/
def dollar : Sigil := ⟨'$', by decide⟩

/-- The one byte that the sigil is written in. -/
def byte (s : Sigil) : UInt8 := UInt8.ofNat s.char.toNat

instance : Inhabited Sigil := ⟨dollar⟩

end Sigil

end SpanTree

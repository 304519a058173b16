/-!
# Bytes and their ASCII classes

Sources, fragments and files are buffers of bytes, and offsets count bytes. The
classes here are the ones that lexing and lowering look at: white space, digits,
letters and the characters of identifiers. All of them are ASCII classes: a byte
of 128 or more is in none.
-/

namespace SpanTree

/-- A buffer: the bytes of a source, a fragment or a file. -/
abbrev Bytes := List UInt8

namespace Byte

/-- The byte that ends a line. -/
def newline : UInt8 := 10

/-- The byte `_`, which stands in for the marks of placeholders in what is parsed. -/
def underscore : UInt8 := 95

/-- The byte `.`. -/
def dot : UInt8 := 46

/-- Blank, tab, line feed, form feed or carriage return; a vertical tab is not white space. -/
def isSpace (b : UInt8) : Bool :=
  b == 32 || b == 9 || b == 10 || b == 12 || b == 13

/-- A decimal digit. -/
def isDigit (b : UInt8) : Bool := decide (48 ≤ b ∧ b ≤ 57)

/-- A capital letter from `A` to `Z`. -/
def isUpper (b : UInt8) : Bool := decide (65 ≤ b ∧ b ≤ 90)

/-- A small letter from `a` to `z`. -/
def isLower (b : UInt8) : Bool := decide (97 ≤ b ∧ b ≤ 122)

/-- A letter or a digit. -/
def isAlphanumeric (b : UInt8) : Bool := isDigit b || isUpper b || isLower b

/-- A letter, a digit or an underscore: what an identifier is spelled with. -/
def isIdentifier (b : UInt8) : Bool := isAlphanumeric b || b == underscore

/-- A byte that can end an operand: of a name `xs`, of a call `f(x)`, of an element `a[i]`. -/
def isOperandEnd (b : UInt8) : Bool := isIdentifier b || b == 41 || b == 93

/-- A byte that can open the name of a metavariable. -/
def isNameStart (b : UInt8) : Bool := isUpper b || b == underscore

/-- A byte that can continue the name of a metavariable. -/
def isNameRest (b : UInt8) : Bool := isNameStart b || isDigit b

end Byte

/-- The bytes of `buffer` from `start` up to `stop`, if that is a range of it. -/
def Bytes.slice? (buffer : Bytes) (start stop : Nat) : Option Bytes :=
  if start ≤ stop ∧ stop ≤ buffer.length then some ((buffer.drop start).take (stop - start))
  else none

theorem Bytes.length_of_slice? {buffer part : Bytes} {start stop : Nat}
    (h : Bytes.slice? buffer start stop = some part) : part.length = stop - start := by
  unfold Bytes.slice? at h
  split at h
  · cases h
    simp only [List.length_take, List.length_drop]
    omega
  · cases h

end SpanTree

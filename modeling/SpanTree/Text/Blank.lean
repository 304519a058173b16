/-!
# Blank characters

The characters with the Unicode property `White_Space`, and trimming by them.
Text that consists of them alone is blank.
-/

namespace SpanTree

namespace Text

/-- The characters with the property `White_Space`: tab to carriage return, the
blank, the next-line control, and the spaces and separators beyond Latin-1. -/
def isBlankChar (c : Char) : Bool :=
  let n := c.toNat
  decide (9 ≤ n ∧ n ≤ 13) || n == 0x20 || n == 0x85 || n == 0xA0 || n == 0x1680 ||
    decide (0x2000 ≤ n ∧ n ≤ 0x200A) || n == 0x2028 || n == 0x2029 || n == 0x202F ||
    n == 0x205F || n == 0x3000

/-- Characters without the blank ones at either end. -/
def trimChars (cs : List Char) : List Char :=
  ((cs.dropWhile isBlankChar).reverse.dropWhile isBlankChar).reverse

/-- Text without the blank characters at either end. -/
def trim (s : String) : String := String.ofList (trimChars s.toList)

/-- Whether text has no character but blank ones. -/
def isBlank (s : String) : Bool := s.toList.all isBlankChar

/-- Every white-space character that the core library knows is blank. -/
theorem isBlankChar_of_isWhitespace : ∀ c : Char, c.isWhitespace = true → isBlankChar c = true := by
  intro c h
  simp only [Char.isWhitespace, Bool.or_eq_true, decide_eq_true_eq] at h
  rcases h with ((rfl | rfl) | rfl) | rfl <;> decide

end Text

end SpanTree

import SpanTree.Extent
import SpanTree.Text.Utf8

/-!
# Start rules for fragments

A grammar table has one start rule, the one for whole files. Fragments of other
shapes are parsed by putting them between two texts that together with a fragment
of that shape make a complete file; the parser then sees the wrapped buffer, and
the fragment is a window of it.
-/

namespace SpanTree

/-- The shape of code that a start rule accepts. -/
inductive FragmentShape where
  /-- top-level items: definitions, imports, markup -/
  | items
  /-- statements of a function body -/
  | statements
  /-- members of a class or implementation body -/
  | members
  /-- a bare expression -/
  | expression
  deriving DecidableEq, Repr, Inhabited

namespace FragmentShape

/-- The name of a shape in answers. -/
def name : FragmentShape → String
  | items => "items"
  | statements => "statements"
  | members => "members"
  | expression => "expression"

/-- The name of a shape in the description of a grammar. -/
def title : FragmentShape → String
  | items => "Items"
  | statements => "Statements"
  | members => "Members"
  | expression => "Expression"

/-- The shape with the given name. -/
def ofName? : String → Option FragmentShape
  | "items" => some items
  | "statements" => some statements
  | "members" => some members
  | "expression" => some expression
  | _ => none

end FragmentShape

/-- A start rule for fragments: a fragment of the shape, put between the two texts,
makes a complete file. -/
structure PatternRule where
  name : String
  shape : FragmentShape
  before : String
  after : String
  deriving DecidableEq, Repr, Inhabited

namespace PatternRule

/-- The rule that parses a fragment as it stands. -/
def bare (name : String) (shape : FragmentShape) : PatternRule := ⟨name, shape, "", ""⟩

/-- The number of bytes in front of the fragment. -/
def shift (rule : PatternRule) : Nat := (Utf8.encode rule.before).length

/-- The buffer that the parser sees. -/
def wrap (rule : PatternRule) (fragment : Bytes) : Bytes :=
  Utf8.encode rule.before ++ fragment ++ Utf8.encode rule.after

/-- Where the fragment lies in the wrapped buffer. -/
def window (rule : PatternRule) (fragment : Bytes) : Extent :=
  ⟨rule.shift, rule.shift + fragment.length⟩

theorem length_wrap (rule : PatternRule) (fragment : Bytes) :
    (rule.wrap fragment).length =
      (rule.window fragment).stop + (Utf8.encode rule.after).length := by
  simp [wrap, window, shift, Nat.add_assoc]

end PatternRule

end SpanTree

import SpanTree.Extent
import SpanTree.Node
import SpanTree.Grammar

/-!
# Placeholders

The placeholders of a pattern are found in its text before it is parsed: the
metavariables `$X` and `$...ARGS`, with whatever sigil the grammar uses, and the
wildcard `...`. Before parsing they are masked: their marks are overwritten
by underscores, which gives `_X`, `____ARGS` and `___`, spellings of the same length that
the grammar accepts as identifiers. So offsets mean the same in the text and in what is
parsed.

A placeholder in the middle of an identifier is none. Three dots are no wildcard
where they are an operator of the language: before a name or after an operand, and
as part of four dots or more.
-/

namespace SpanTree

/-- What sits at a site. -/
inductive SiteKind where
  /-- a metavariable, its name with the sigil; `ellipsis` if it stands for a sequence -/
  | metavariable (name : String) (ellipsis : Bool)
  | wildcard
  deriving DecidableEq, Repr

/-- The kind of node that a site becomes. -/
def SiteKind.nodeKind : SiteKind → NodeKind
  | metavariable name ellipsis => .metavariable name ellipsis
  | wildcard => .wildcard

/-- One placeholder of a fragment. -/
structure Site where
  extent : Extent
  kind : SiteKind
  deriving DecidableEq, Repr

namespace Site

/-- The offsets of a site that are masked: the sigil and the dots. Where the
grammar has three dots of its own, a wildcard is left as it is. -/
def masked (style : WildcardStyle) (s : Site) : Extent :=
  match s.kind with
  | .metavariable _ true => ⟨s.extent.start, s.extent.start + 4⟩
  | .metavariable _ false => ⟨s.extent.start, s.extent.start + 1⟩
  | .wildcard =>
    match style with
    | .native => ⟨s.extent.start, s.extent.start⟩
    | .identifier => s.extent

end Site

namespace Placeholder

/-- Whether a buffer opens with three dots. -/
def opensWithDots : Bytes → Bool
  | a :: b :: c :: _ => a == Byte.dot && b == Byte.dot && c == Byte.dot
  | _ => false

/-- The text of ASCII bytes. -/
def asciiText (bytes : Bytes) : String :=
  String.ofList (bytes.map fun b => Char.ofNat b.toNat)

/-- The number of bytes before the name of a metavariable that opens a buffer: the
sigil, and the three dots if they follow it. -/
def markLength (afterSigil : Bytes) : Nat := if opensWithDots afterSigil then 4 else 1

/-- The length of the metavariable that opens a buffer, if one does: the sigil, three
dots or none, a capital or an underscore, and the capitals, digits and underscores
that follow. -/
def metavariableLength? (sigil : Sigil) : Bytes → Option Nat
  | [] => none
  | b :: afterSigil =>
    if b = sigil.byte then
      match afterSigil.drop (markLength afterSigil - 1) with
      | [] => none
      | first :: rest =>
        if Byte.isNameStart first then
          some (markLength afterSigil + 1 + (rest.takeWhile Byte.isNameRest).length)
        else none
    else none

/-- The metavariable of the given length that opens a buffer at `offset`. -/
def metavariableSite (offset length : Nat) (buffer : Bytes) : Site :=
  { extent := ⟨offset, offset + length⟩
    kind := .metavariable (asciiText (buffer.take length)) (opensWithDots (buffer.drop 1)) }

/-- The metavariables from `offset` on. The first `skip` bytes belong to the match
before and are passed over; `previous` is the byte in front. A match that directly
follows a character of an identifier is passed over like the others, but is none. -/
def metavariablesFrom (sigil : Sigil) :
    (offset skip : Nat) → (previous : Option UInt8) → Bytes → List Site
  | _, _, _, [] => []
  | offset, skip + 1, _, b :: rest => metavariablesFrom sigil (offset + 1) skip (some b) rest
  | offset, 0, previous, b :: rest =>
    match metavariableLength? sigil (b :: rest) with
    | none => metavariablesFrom sigil (offset + 1) 0 (some b) rest
    | some length =>
      let later := metavariablesFrom sigil (offset + 1) (length - 1) (some b) rest
      if previous.any Byte.isIdentifier then later
      else metavariableSite offset length (b :: rest) :: later

/-- Whether the byte after three dots makes them part of a name or of more dots. -/
def continuesDots (next : Option UInt8) : Bool :=
  next.any fun b => Byte.isIdentifier b || b == Byte.dot

/-- The wildcards from `offset` on that overlap none of the sites taken. Three dots
are looked at once, whether they turn out to be a wildcard or not: the first `skip`
bytes are passed over. -/
def wildcardsFrom (taken : List Site) :
    (offset skip : Nat) → (previous : Option UInt8) → Bytes → List Site
  | _, _, _, [] => []
  | offset, skip + 1, _, b :: rest => wildcardsFrom taken (offset + 1) skip (some b) rest
  | offset, 0, previous, b :: rest =>
    if opensWithDots (b :: rest) then
      let later := wildcardsFrom taken (offset + 1) 2 (some b) rest
      if taken.any fun s => s.extent.overlaps offset (offset + 3) then later
      else if continuesDots (rest.drop 2).head? then later
      else if previous.any Byte.isOperandEnd then later
      else { extent := ⟨offset, offset + 3⟩, kind := .wildcard } :: later
    else wildcardsFrom taken (offset + 1) 0 (some b) rest

/-- Sites in order with one more put where it belongs. -/
def insertSite (s : Site) : List Site → List Site
  | [] => [s]
  | t :: rest =>
    if t.extent.start ≤ s.extent.start then t :: insertSite s rest else s :: t :: rest

/-- The placeholders of a fragment, in the order they stand. -/
def sites (sigil : Sigil) (fragment : Bytes) : List Site :=
  let metavariables := metavariablesFrom sigil 0 0 none fragment
  (wildcardsFrom metavariables 0 0 none fragment).foldl (fun found s => insertSite s found)
    metavariables

/-- A fragment with the marks of its placeholders overwritten by underscores. -/
def mask (style : WildcardStyle) (found : List Site) (fragment : Bytes) : Bytes :=
  fragment.mapIdx fun i b =>
    if found.any fun s => (s.masked style).covers i then Byte.underscore else b

end Placeholder

/-- The placeholders of a fragment, and the fragment as it is parsed. -/
structure Placeholders where
  sites : List Site
  /-- the fragment with their marks overwritten, which is what is parsed -/
  masked : Bytes
  deriving DecidableEq, Repr

/-- The placeholders of a fragment. -/
def Placeholders.scan (sigil : Sigil) (style : WildcardStyle) (fragment : Bytes) :
    Placeholders :=
  let sites := Placeholder.sites sigil fragment
  { sites, masked := Placeholder.mask style sites fragment }

end SpanTree

import SpanTree.Byte

/-!
# UTF-8

Text is written as UTF-8 and read back from it. A lead byte fixes, for each byte
that has to follow, the range this byte must lie in: the ranges leave out
overlong forms, surrogates and values above `U+10FFFF`. Where a buffer departs
from them, the ill-formed piece is the lead byte with the continuation bytes that
still fit, so a strict reader can point at exactly the first ill-formed piece and
a lenient one can replace each piece by one replacement character.
-/

namespace SpanTree

namespace Utf8

/-- The bytes of a text. -/
def encode (s : String) : Bytes := s.toList.flatMap String.utf8EncodeChar

/-- The ranges that the bytes after a lead byte must lie in; no ranges at all for
a byte that cannot lead. -/
def continuations (lead : UInt8) : Option (List (UInt8 × UInt8)) :=
  if lead < 0x80 then some []
  else if lead < 0xC2 then none
  else if lead < 0xE0 then some [(0x80, 0xBF)]
  else if lead = 0xE0 then some [(0xA0, 0xBF), (0x80, 0xBF)]
  else if lead = 0xED then some [(0x80, 0x9F), (0x80, 0xBF)]
  else if lead < 0xF0 then some [(0x80, 0xBF), (0x80, 0xBF)]
  else if lead = 0xF0 then some [(0x90, 0xBF), (0x80, 0xBF), (0x80, 0xBF)]
  else if lead < 0xF4 then some [(0x80, 0xBF), (0x80, 0xBF), (0x80, 0xBF)]
  else if lead = 0xF4 then some [(0x80, 0x8F), (0x80, 0xBF), (0x80, 0xBF)]
  else none

/-- How many bytes at the front lie in the ranges asked for, one after another. -/
def agreeing : List (UInt8 × UInt8) → Bytes → Nat
  | (lo, hi) :: ranges, b :: rest =>
    if lo ≤ b ∧ b ≤ hi then agreeing ranges rest + 1 else 0
  | _, _ => 0

/-- The code point of a lead byte with its continuation bytes: the low bits of the
lead, then six bits of each byte that follows. -/
def codePoint (lead : UInt8) (following : Bytes) : Nat :=
  let leading :=
    match following.length with
    | 0 => lead.toNat
    | 1 => lead.toNat % 32
    | 2 => lead.toNat % 16
    | _ => lead.toNat % 8
  following.foldl (fun value b => value * 64 + b.toNat % 64) leading

/-- What a buffer opens with. -/
inductive Piece where
  /-- a character written in `size` bytes -/
  | scalar (value : Char) (size : Nat)
  /-- `size` bytes that can belong to no character, whatever follows -/
  | illFormed (size : Nat)
  /-- `size` bytes that open a character, at the end of the buffer -/
  | truncated (size : Nat)
  deriving DecidableEq, Repr

/-- The number of bytes a piece takes up. -/
def Piece.size : Piece → Nat
  | .scalar _ size => size
  | .illFormed size => size
  | .truncated size => size

/-- The piece that a lead byte opens. -/
def piece (lead : UInt8) (rest : Bytes) : Piece :=
  match continuations lead with
  | none => .illFormed 1
  | some ranges =>
    let n := agreeing ranges rest
    if n = ranges.length then .scalar (Char.ofNat (codePoint lead (rest.take n))) (n + 1)
    else if n = rest.length then .truncated (n + 1)
    else .illFormed (n + 1)

/-- The pieces of a buffer after `skip` bytes of the piece read last. -/
def piecesFrom : Nat → Bytes → List Piece
  | _, [] => []
  | skip + 1, _ :: rest => piecesFrom skip rest
  | 0, lead :: rest =>
    let p := piece lead rest
    p :: piecesFrom (p.size - 1) rest

/-- A buffer cut into characters and ill-formed pieces. -/
def pieces (buffer : Bytes) : List Piece := piecesFrom 0 buffer

/-- The range of the first ill-formed sequence of a buffer. -/
structure IllFormed where
  /-- the length of the longest well-formed text at the front -/
  start : Nat
  /-- where the ill-formed sequence ends -/
  stop : Nat
  deriving DecidableEq, Repr

/-- The characters of pieces that start at `offset`, or the first that is ill-formed. -/
def charsFrom (offset : Nat) : List Piece → Except IllFormed (List Char)
  | [] => .ok []
  | .scalar c size :: rest => (charsFrom (offset + size) rest).map (c :: ·)
  | .illFormed size :: _ => .error ⟨offset, offset + size⟩
  | .truncated size :: _ => .error ⟨offset, offset + size⟩

/-- The text that a buffer holds, or the first sequence of it that is no UTF-8. -/
def decode (buffer : Bytes) : Except IllFormed String :=
  (charsFrom 0 (pieces buffer)).map String.ofList

/-- The character that stands for a piece; `U+FFFD` for one that is ill-formed. -/
def Piece.lenient : Piece → Char
  | .scalar c _ => c
  | .illFormed _ => '\uFFFD'
  | .truncated _ => '\uFFFD'

/-- The text of a buffer with one replacement character for each ill-formed piece. -/
def decodeLenient (buffer : Bytes) : String :=
  String.ofList ((pieces buffer).map Piece.lenient)

end Utf8

end SpanTree

/-!
# JSON values

The values that trees are rendered to and configurations are read from. An object
is a list of members in the order they are written. Numbers are decimals, the
mantissa divided by a power of ten; the trees hold natural numbers only.
-/

namespace SpanTree

/-- A JSON value. -/
inductive Json where
  | null
  | bool (value : Bool)
  /-- the number `mantissa / 10 ^ scale` -/
  | number (mantissa : Int) (scale : Nat)
  | string (value : String)
  | array (items : List Json)
  | object (members : List (String × Json))
  deriving Repr, Inhabited

namespace Json

/-- A natural number. -/
def ofNat (n : Nat) : Json := number n 0

/-- The member of an object with the given name; of several, the last. -/
def member? : List (String × Json) → String → Option Json
  | [], _ => none
  | (name, value) :: rest, wanted =>
    match member? rest wanted with
    | some later => some later
    | none => if name = wanted then some value else none

/-- The four hexadecimal digits of a control character. -/
def controlDigits (n : Nat) : List Char :=
  let digits := Nat.toDigits 16 n
  List.replicate (4 - digits.length) '0' ++ digits

/-- A character as it stands in a JSON string: the quote, the backslash and the
control characters below the blank are escaped, and everything else stands as it is. -/
def escapeChar (c : Char) : List Char :=
  if c = '"' ∨ c = '\\' then ['\\', c]
  else if c = Char.ofNat 8 then ['\\', 'b']
  else if c = '\t' then ['\\', 't']
  else if c = '\n' then ['\\', 'n']
  else if c = Char.ofNat 12 then ['\\', 'f']
  else if c = '\r' then ['\\', 'r']
  else if c.toNat < 32 then ['\\', 'u'] ++ controlDigits c.toNat
  else [c]

/-- The JSON text of a string. -/
def quote (s : String) : String := String.ofList ('"' :: s.toList.flatMap escapeChar ++ ['"'])

end Json

end SpanTree

import SpanTree.Toml.Char

/-!
# Numbers and dates in TOML

Digits may be grouped by single underscores. An integer has no leading zeros and must
fit in 64 bits with a sign. A number with a fraction or an exponent is a float; one
that is too large for the double format is refused. A date has to exist in the
calendar, and a time on the clock.

Integers keep their value. The values of floats, dates and times are of no use to a
configuration and are not kept.
-/

namespace SpanTree

namespace Toml

/-- A number or a date. -/
inductive Scalar where
  | integer (value : Int)
  | float
  | datetime
  deriving DecidableEq, Repr

/-! ## Digits -/

/-- Read the digits that follow others: digits, and single underscores before digits. -/
def readMoreDigits (isDigit : Char → Bool) : Reader (List Char)
  | [] => some ([], [])
  | '_' :: c :: rest =>
    if isDigit c then consRead c (readMoreDigits isDigit rest) else none
  | c :: rest =>
    if isDigit c then consRead c (readMoreDigits isDigit rest)
    else if c = '_' then none
    else some ([], c :: rest)

/-- Read digits, of which the first is no underscore. -/
def readDigits (isDigit : Char → Bool) : Reader (List Char)
  | [] => none
  | c :: rest => if isDigit c then consRead c (readMoreDigits isDigit rest) else none

/-- The number that digits spell in a base. -/
def numberOf (base : Nat) (digits : List Char) : Nat :=
  digits.foldl (fun n c => n * base + (hexValue? c).getD 0) 0

/-- Read a sign if there is one; whether it is a minus. -/
def readSign : List Char → Bool × List Char
  | '+' :: rest => (false, rest)
  | '-' :: rest => (true, rest)
  | cs => (false, cs)

/-- Read a whole number without leading zeros, as its digits. -/
def readWhole : Reader (List Char)
  | '0' :: rest => some (['0'], rest)
  | cs => readDigits Char.isDigit cs

/-! ## Integers and floats -/

/-- An integer of 64 bits with a sign. -/
def integer? (value : Int) : Option Scalar :=
  if Int64.minValue.toInt ≤ value ∧ value ≤ Int64.maxValue.toInt then some (.integer value)
  else none

/-- The least number that is too large for the double format: half a unit in the last
place above the largest double. -/
def doubleBound : Nat := Nat.pow 2 1024 - Nat.pow 2 970

/-- Whether `mantissa * 10 ^ exponent` is too large for the double format. -/
def exceedsDouble (mantissa : Nat) (exponent : Int) : Bool :=
  if mantissa = 0 then false
  else if 0 ≤ exponent then
    decide (309 ≤ exponent) || decide (doubleBound ≤ mantissa * Nat.pow 10 exponent.toNat)
  else if (Nat.toDigits 10 mantissa).length ≤ (-exponent).toNat then false
  else decide (doubleBound * Nat.pow 10 (-exponent).toNat ≤ mantissa)

/-- Read an exponent if there is one; zero if there is none. -/
def readExponent : Reader Int
  | [] => some (0, [])
  | c :: rest =>
    if c = 'e' ∨ c = 'E' then
      let (negative, rest) := readSign rest
      match readDigits Char.isDigit rest with
      | none => none
      | some (digits, rest) =>
        let n : Int := numberOf 10 digits
        some (if negative then -n else n, rest)
    else some (0, c :: rest)

/-- Read the fraction after a decimal point if there is one, as its digits. -/
def readFraction : Reader (List Char)
  | '.' :: rest => readDigits Char.isDigit rest
  | cs => some ([], cs)

/-- Whether a text goes on with a fraction or an exponent. -/
def opensFloat : List Char → Bool
  | c :: _ => c == '.' || c == 'e' || c == 'E'
  | [] => false

/-- Read a decimal number: an integer, or a float if a fraction or an exponent follows
the whole part. -/
def readDecimal : Reader Scalar := fun cs =>
  let (negative, cs) := readSign cs
  match readWhole cs with
  | none => none
  | some (whole, cs) =>
    if opensFloat cs then
      match readFraction cs with
      | none => none
      | some (fraction, cs) =>
        match readExponent cs with
        | none => none
        | some (exponent, cs) =>
          let mantissa := numberOf 10 (whole ++ fraction)
          if !negative && exceedsDouble mantissa (exponent - fraction.length) then none
          else some (.float, cs)
    else
      let n : Int := numberOf 10 whole
      (integer? (if negative then -n else n)).map (·, cs)

/-- Read an integer in another base, after its mark. -/
def readInBase (base : Nat) (isDigit : Char → Bool) : Reader Scalar := fun cs =>
  match readDigits isDigit cs with
  | none => none
  | some (digits, cs) => (integer? (numberOf base digits)).map (·, cs)

/-- Read one of the words for the infinite number and for none. -/
def readSpecial : Reader Scalar
  | 'i' :: 'n' :: 'f' :: rest => some (.float, rest)
  | 'n' :: 'a' :: 'n' :: rest => some (.float, rest)
  | _ => none

/-- Read a number. -/
def readNumber : Reader Scalar
  | '0' :: 'x' :: rest => readInBase 16 (fun c => (hexValue? c).isSome) rest
  | '0' :: 'o' :: rest => readInBase 8 (fun c => decide ('0' ≤ c ∧ c ≤ '7')) rest
  | '0' :: 'b' :: rest => readInBase 2 (fun c => c == '0' || c == '1') rest
  | cs =>
    match readSpecial (readSign cs).2 with
    | some read => some read
    | none => readDecimal cs

/-! ## Dates and times -/

/-- Read a number of exactly two digits between two bounds. -/
def readTwoDigits (lo hi : Nat) : Reader Nat
  | a :: b :: rest =>
    let n := numberOf 10 [a, b]
    if a.isDigit && b.isDigit && decide (lo ≤ n ∧ n ≤ hi) then some (n, rest) else none
  | _ => none

/-- Whether a year has a leap day. -/
def isLeapYear (year : Nat) : Bool := year % 4 == 0 && (year % 100 != 0 || year % 400 == 0)

/-- The number of days of a month. -/
def daysIn (year month : Nat) : Nat :=
  if month = 2 then (if isLeapYear year then 29 else 28)
  else if month = 4 ∨ month = 6 ∨ month = 9 ∨ month = 11 then 30
  else 31

/-- Whether a text opens like a date: four digits and a hyphen. -/
def opensDate : List Char → Bool
  | a :: b :: c :: d :: '-' :: _ => [a, b, c, d].all Char.isDigit
  | _ => false

/-- Whether a text opens like a time: two digits and a colon. -/
def opensTime : List Char → Bool
  | a :: b :: ':' :: _ => a.isDigit && b.isDigit
  | _ => false

/-- Read a date of the calendar; the text after it. -/
def readDate : List Char → Option (List Char)
  | a :: b :: c :: d :: '-' :: rest => do
    if ([a, b, c, d].any fun digit => !digit.isDigit) then none
    let year := numberOf 10 [a, b, c, d]
    let (month, rest) ← readTwoDigits 1 12 rest
    match rest with
    | '-' :: rest =>
      let (_, rest) ← readTwoDigits 1 (daysIn year month) rest
      some rest
    | _ => none
  | _ => none

/-- The text after the fraction of a second, if there is one. -/
def readSecondFraction : List Char → Option (List Char)
  | '.' :: c :: rest => if c.isDigit then some (rest.dropWhile Char.isDigit) else none
  | '.' :: [] => none
  | cs => some cs

/-- Read a time of the clock, in which a minute may have a leap second; the text after
it. -/
def readTime (cs : List Char) : Option (List Char) := do
  let (_, cs) ← readTwoDigits 0 23 cs
  match cs with
  | ':' :: cs =>
    let (_, cs) ← readTwoDigits 0 59 cs
    match cs with
    | ':' :: cs =>
      let (_, cs) ← readTwoDigits 0 60 cs
      readSecondFraction cs
    | _ => none
  | _ => none

/-- The text after the offset from universal time, if there is one. -/
def readOffset : List Char → Option (List Char)
  | [] => some []
  | c :: rest =>
    if c = 'Z' ∨ c = 'z' then some rest
    else if c = '+' ∨ c = '-' then do
      let (_, rest) ← readTwoDigits 0 23 rest
      match rest with
      | ':' :: rest =>
        let (_, rest) ← readTwoDigits 0 59 rest
        some rest
      | _ => none
    else some (c :: rest)

/-- The text after the time of day that follows a date, if one does: a `T` or a blank,
a time, and perhaps an offset. -/
def readTimeOfDay : List Char → Option (List Char)
  | [] => some []
  | c :: rest =>
    if (c = 'T' ∨ c = 't' ∨ c = ' ') ∧ opensTime rest = true then do
      let rest ← readTime rest
      readOffset rest
    else some (c :: rest)

/-- Read a date, a time of day, or both. -/
def readDatetime (cs : List Char) : Option (List Char) :=
  if opensDate cs then (readDate cs).bind readTimeOfDay else readTime cs

/-- Read a number or a date; what opens like a date or a time is one. -/
def readScalar : Reader Scalar := fun cs =>
  if opensDate cs || opensTime cs then (readDatetime cs).map (.datetime, ·) else readNumber cs

end Toml

end SpanTree

/-!
# TOML tables

A document is a tree of tables. How a table came about decides what may still be
added to it: a table opened by a header is closed to dotted keys from outside, one
that a header only passed through may get a header of its own later, one that dotted
keys made may grow by dotted keys alone, and an inline table is complete as it stands.
-/

namespace SpanTree

namespace Toml

/-- How a table came about. -/
inductive Origin where
  /-- by a header of its own, or as the root -/
  | header
  /-- as a step on the way to another header -/
  | implied
  /-- by a dotted key -/
  | dotted
  /-- as a value between braces -/
  | inline
  deriving DecidableEq, Repr

/-- What a key of a table leads to. -/
inductive Item where
  | string (value : String)
  | integer (value : Int)
  | float
  | boolean (value : Bool)
  | datetime
  | array (items : List Item)
  | table (origin : Origin) (members : List (String × Item))
  /-- the tables that headers in double brackets open one after another -/
  | tables (elements : List (List (String × Item)))
  deriving Repr, Inhabited

/-- The keys of a table and what they lead to, in order. -/
abbrev Members := List (String × Item)

/-- What a key leads to. -/
def Members.get? (ms : Members) (key : String) : Option Item :=
  (ms.find? (·.1 == key)).map (·.2)

/-- The table in which a key leads to an item, in place of what it led to. -/
def Members.set (ms : Members) (key : String) (item : Item) : Members :=
  match ms with
  | [] => [(key, item)]
  | m :: rest => if m.1 == key then (key, item) :: rest else m :: Members.set rest key item

/-- Change the table that keys lead to, one after another, from a table of the given
origin. Tables on the way are made if they are not there; of tables under one key the
last is meant. An inline table cannot be changed, and by a dotted key neither can one
that a header opened. -/
def Members.alter (dotted : Bool) (change : Origin → Members → Option Members) :
    (keys : List String) → Origin → Members → Option Members
  | [], origin, ms => change origin ms
  | key :: keys, _, ms =>
    match ms.get? key with
    | none =>
      let origin := if dotted then Origin.dotted else .implied
      (Members.alter dotted change keys origin []).map fun inner =>
        ms.set key (.table origin inner)
    | some (.table origin inner) =>
      if origin = .inline ∨ (dotted ∧ origin = .header) then none
      else
        (Members.alter dotted change keys origin inner).map fun inner =>
          ms.set key (.table origin inner)
    | some (.tables elements) =>
      match elements.getLast? with
      | none => none
      | some last =>
        (Members.alter dotted change keys .header last).map fun last =>
          ms.set key (.tables (elements.dropLast ++ [last]))
    | some _ => none

/-- Add a key to a table. It must be new; and if dotted keys lead to the table, these
must have made it. -/
def Members.addKey (viaDots : Bool) (key : String) (item : Item) :
    Origin → Members → Option Members := fun origin ms =>
  if (origin == .dotted) != viaDots then none
  else if (ms.get? key).isSome then none
  else some (ms ++ [(key, item)])

/-- Add what a dotted key leads to: all its parts but the last lead to a table. -/
def Members.addDotted (ms : Members) (keys : List String) (item : Item) : Option Members :=
  match keys.getLast? with
  | none => none
  | some key =>
    Members.alter true (Members.addKey (!keys.dropLast.isEmpty) key item) keys.dropLast .header ms

/-- Open a table by a header: a new one, or one that headers only passed through. -/
def Members.openTable (key : String) : Origin → Members → Option Members := fun _ ms =>
  match ms.get? key with
  | none => some (ms.set key (.table .header []))
  | some (.table .implied inner) => some (ms.set key (.table .header inner))
  | some _ => none

/-- Open one more of the tables under a key. -/
def Members.openElement (key : String) : Origin → Members → Option Members := fun _ ms =>
  match ms.get? key with
  | none => some (ms.set key (.tables [[]]))
  | some (.tables elements) => some (ms.set key (.tables (elements ++ [[]])))
  | some _ => none

/-- A document that is being read: its tables, and the keys of the header that the
lines read next belong to. -/
structure Document where
  members : Members
  current : List String

namespace Document

/-- The document with nothing in it. -/
def empty : Document := ⟨[], []⟩

/-- Add what a dotted key leads to in the current table. -/
def addLine (d : Document) (keys : List String) (item : Item) : Option Document :=
  (Members.alter false (fun _ ms => ms.addDotted keys item) d.current .header d.members).map
    fun members => { d with members }

/-- Open the table that keys lead to. -/
def openHeader (d : Document) (keys : List String) : Option Document :=
  match keys.getLast? with
  | none => none
  | some key =>
    (Members.alter false (Members.openTable key) keys.dropLast .header d.members).map
      fun members => ⟨members, keys⟩

/-- Open one more of the tables that keys lead to. -/
def openElementHeader (d : Document) (keys : List String) : Option Document :=
  match keys.getLast? with
  | none => none
  | some key =>
    (Members.alter false (Members.openElement key) keys.dropLast .header d.members).map
      fun members => ⟨members, keys⟩

end Document

end Toml

end SpanTree

/-!
# Extents

A half-open range of byte offsets, without positions. Placeholders and the window
of a wrapped fragment are extents.
-/

namespace SpanTree

/-- The offsets from `start` up to but not including `stop`. -/
structure Extent where
  start : Nat
  stop : Nat
  deriving DecidableEq, Repr, Inhabited

namespace Extent

/-- The number of offsets. -/
def length (e : Extent) : Nat := e.stop - e.start

/-- Whether an offset is one of the range. -/
def covers (e : Extent) (offset : Nat) : Bool := decide (e.start ≤ offset ∧ offset < e.stop)

/-- Whether the range from `start` to `stop` lies inside. -/
def contains (e : Extent) (start stop : Nat) : Bool := decide (e.start ≤ start ∧ stop ≤ e.stop)

/-- Whether the range from `start` to `stop` begins before this one ends, and ends
after this one begins. -/
def overlaps (e : Extent) (start stop : Nat) : Bool := decide (start < e.stop ∧ e.start < stop)

theorem covers_iff {e : Extent} {offset : Nat} :
    e.covers offset = true ↔ e.start ≤ offset ∧ offset < e.stop :=
  decide_eq_true_iff

theorem covers_eq_false_iff {e : Extent} {offset : Nat} :
    e.covers offset = false ↔ ¬(e.start ≤ offset ∧ offset < e.stop) :=
  decide_eq_false_iff_not

theorem contains_iff {e : Extent} {start stop : Nat} :
    e.contains start stop = true ↔ e.start ≤ start ∧ stop ≤ e.stop :=
  decide_eq_true_iff

theorem overlaps_iff {e : Extent} {start stop : Nat} :
    e.overlaps start stop = true ↔ start < e.stop ∧ e.start < stop :=
  decide_eq_true_iff

end Extent

end SpanTree

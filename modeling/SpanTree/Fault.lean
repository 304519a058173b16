import SpanTree.Byte

/-!
# Faults

The arithmetic of lowering has preconditions: the bounds of a clamp must be in
order, an offset must not lie before the buffer that the output speaks of, and a
range that is looked at must be one of its buffer. The operations here check them
and report a fault where they do not hold. That no fault ever arises is a fact
about the functions that use them, to be proved and not assumed.
-/

namespace SpanTree

/-- A precondition of byte arithmetic that did not hold. -/
inductive Fault where
  /-- a value was to be clamped between bounds in the wrong order -/
  | reversedBounds (lo hi : Nat)
  /-- an offset was to be moved to the left by more than its value -/
  | belowShift (offset shift : Nat)
  /-- a range was to be read that a buffer of this length does not have -/
  | outsideBuffer (start stop length : Nat)
  deriving DecidableEq, Repr

/-- The value nearest to `x` between two bounds. -/
def clamp (x lo hi : Nat) : Except Fault Nat :=
  if lo ≤ hi then .ok (max lo (min x hi)) else .error (.reversedBounds lo hi)

/-- An offset counted from `shift`. -/
def unshift (offset shift : Nat) : Except Fault Nat :=
  if shift ≤ offset then .ok (offset - shift) else .error (.belowShift offset shift)

/-- The bytes of a buffer from `start` up to `stop`. -/
def readRange (buffer : Bytes) (start stop : Nat) : Except Fault Bytes :=
  match buffer.slice? start stop with
  | some bytes => .ok bytes
  | none => .error (.outsideBuffer start stop buffer.length)

/-! ## Where the preconditions hold -/

theorem clamp_of_le {x lo hi : Nat} (h : lo ≤ hi) : clamp x lo hi = .ok (max lo (min x hi)) :=
  if_pos h

/-- Clamping changes nothing that lies between the bounds. -/
theorem clamp_of_mem {x lo hi : Nat} (hlo : lo ≤ x) (hhi : x ≤ hi) : clamp x lo hi = .ok x := by
  rw [clamp_of_le (Nat.le_trans hlo hhi), Nat.min_eq_left hhi, Nat.max_eq_right hlo]

theorem unshift_of_le {offset shift : Nat} (h : shift ≤ offset) :
    unshift offset shift = .ok (offset - shift) :=
  if_pos h

theorem readRange_of_le {buffer : Bytes} {start stop : Nat} (hle : start ≤ stop)
    (hstop : stop ≤ buffer.length) :
    readRange buffer start stop = .ok ((buffer.drop start).take (stop - start)) := by
  unfold readRange Bytes.slice?
  rw [if_pos ⟨hle, hstop⟩]

/-! ## Computations that may fail -/

/-- What follows a result goes on with it. -/
theorem ok_bind {ε α β : Type} (a : α) (f : α → Except ε β) : (Except.ok a >>= f) = f a := rfl

end SpanTree

import SpanTree.RawTree

/-!
# Counting errors

The errors of a raw tree are counted with a stack of the nodes still to be looked at. The
node on top is taken off and counted if it stands for an error, and if it is troubled its
children are put on top, the last one uppermost. The count is complete when the stack is
empty. Beside it stands `RawTree.errorCount`, the same number by recursion on the tree;
`Tally.after_of_sizeAll_le` says that the two agree, and after how many steps.
-/

namespace SpanTree

namespace RawTree

/-- The nodes that are looked at because the node was: its children if it is troubled. -/
def announced (t : RawTree) : List RawTree := if t.troubled then t.children else []

mutual

/-- The number of nodes in a raw tree. -/
def size : RawTree → Nat
  | ⟨_, _, _, _, _, _, _, children⟩ => sizeAll children + 1

/-- The number of nodes in a list of raw trees. -/
def sizeAll : List RawTree → Nat
  | [] => 0
  | t :: ts => size t + sizeAll ts

end

/-- A count in progress: the nodes still to be looked at, the next one first, and the number
of errors so far. -/
structure Tally where
  pending : List RawTree
  count : Nat
  deriving Repr

namespace Tally

/-- The count of a raw tree's errors before it starts. -/
def ofTree (t : RawTree) : Tally := ⟨[t], 0⟩

/-- The count after a look at the next node, if there is one. -/
def next : Tally → Option Tally
  | ⟨[], _⟩ => none
  | ⟨t :: rest, count⟩ =>
    some ⟨t.announced.reverse ++ rest, count + if t.isErrorRecovery then 1 else 0⟩

/-- The count after so many steps, or where it ended before. -/
def after : (steps : Nat) → Tally → Tally
  | 0, w => w
  | steps + 1, w =>
    match w.next with
    | none => w
    | some v => after steps v

end Tally

/-- The number of errors in a raw tree. No node is looked at twice, so as many steps as the
tree has nodes are enough. -/
def countErrors (t : RawTree) : Nat := ((Tally.ofTree t).after t.size).count

/-! ## The count by recursion -/

theorem size_eq (t : RawTree) : t.size = sizeAll t.children + 1 := by
  cases t
  rw [size]

theorem sizeAll_append (ts us : List RawTree) : sizeAll (ts ++ us) = sizeAll ts + sizeAll us := by
  induction ts with
  | nil => simp [sizeAll]
  | cons t ts ih => simp [sizeAll, ih, Nat.add_assoc]

theorem sizeAll_perm {ts us : List RawTree} (h : ts.Perm us) : sizeAll ts = sizeAll us := by
  induction h with
  | nil => rfl
  | cons t _ ih => rw [sizeAll, sizeAll, ih]
  | swap t u ts => simp only [sizeAll, Nat.add_left_comm]
  | trans _ _ ih ih' => rw [ih, ih']

/-- Fewer nodes are announced by a node than there are in its tree. -/
theorem sizeAll_announced_lt (t : RawTree) : sizeAll t.announced < t.size := by
  rw [announced, size_eq]
  split
  · exact Nat.lt_succ_self _
  · exact Nat.succ_pos _

theorem errorCountAll_append (ts us : List RawTree) :
    errorCountAll (ts ++ us) = errorCountAll ts + errorCountAll us := by
  induction ts with
  | nil => simp [errorCountAll]
  | cons t ts ih => simp [errorCountAll, ih, Nat.add_assoc]

theorem errorCountAll_perm {ts us : List RawTree} (h : ts.Perm us) :
    errorCountAll ts = errorCountAll us := by
  induction h with
  | nil => rfl
  | cons t _ ih => rw [errorCountAll, errorCountAll, ih]
  | swap t u ts => simp only [errorCountAll, Nat.add_left_comm]
  | trans _ _ ih ih' => rw [ih, ih']

/-- The errors of a tree are the node itself if it is one, and those of the nodes it
announces. -/
theorem errorCount_eq (t : RawTree) :
    t.errorCount = (if t.isErrorRecovery then 1 else 0) + errorCountAll t.announced := by
  obtain ⟨kind, named, error, missing, troubled, start, stop, children⟩ := t
  cases troubled <;> rfl

namespace Tally

/-- The errors counted so far and those of the trees still pending. -/
def total (w : Tally) : Nat := w.count + errorCountAll w.pending

theorem total_ofTree (t : RawTree) : (ofTree t).total = t.errorCount := by
  rw [total, ofTree, errorCountAll, errorCountAll, Nat.zero_add, Nat.add_zero]

/-- A step of a count that takes the pending nodes in any order: one of them is looked at,
wherever it stands, and the nodes that it announces are put anywhere among the others. -/
inductive Step : Tally → Tally → Prop
  | look (t : RawTree) {pending pending' rest : List RawTree} {count : Nat}
    (taken : pending.Perm (t :: rest)) (put : pending'.Perm (t.announced ++ rest)) :
    Step ⟨pending, count⟩ ⟨pending', count + if t.isErrorRecovery then 1 else 0⟩

theorem step_of_next {w v : Tally} (h : w.next = some v) : Step w v := by
  obtain ⟨_ | ⟨t, rest⟩, count⟩ := w
  · cases h
  · cases h
    exact .look t (.refl _) (t.announced.reverse_perm.append_right rest)

/-- A step changes neither what was counted nor what is still to be counted, taken together. -/
theorem Step.total_eq {w v : Tally} (h : Step w v) : v.total = w.total := by
  obtain ⟨t, taken, put⟩ := h
  simp only [total]
  rw [errorCountAll_perm put, errorCountAll_perm taken, errorCountAll_append, errorCountAll,
    errorCount_eq]
  omega

/-- With each step fewer nodes are pending. -/
theorem Step.sizeAll_lt {w v : Tally} (h : Step w v) : sizeAll v.pending < sizeAll w.pending := by
  obtain ⟨t, taken, put⟩ := h
  have := t.sizeAll_announced_lt
  rw [sizeAll_perm put, sizeAll_perm taken, sizeAll_append, sizeAll]
  omega

/-- Once it has made as many steps as the pending trees have nodes, a count is complete. -/
theorem after_of_sizeAll_le :
    ∀ (steps : Nat) (w : Tally), sizeAll w.pending ≤ steps → w.after steps = ⟨[], w.total⟩ := by
  intro steps
  induction steps with
  | zero =>
    intro w hle
    obtain ⟨_ | ⟨t, rest⟩, count⟩ := w
    · rfl
    · rw [sizeAll, size_eq] at hle
      omega
  | succ steps ih =>
    intro w hle
    rcases hnext : w.next with _ | v
    · obtain ⟨_ | ⟨t, rest⟩, count⟩ := w
      · rfl
      · cases hnext
    · have hstep := step_of_next hnext
      have hlt := hstep.sizeAll_lt
      rw [after, hnext, ← hstep.total_eq]
      exact ih v (by omega)

end Tally

theorem countErrors_eq_errorCount (t : RawTree) : t.countErrors = t.errorCount := by
  have hsize : sizeAll (Tally.ofTree t).pending ≤ t.size := Nat.le_of_eq (Nat.add_zero _)
  rw [countErrors, Tally.after_of_sizeAll_le _ _ hsize, Tally.total_ofTree]

end RawTree

end SpanTree

import Mathlib.Logic.Relation
import SpanTree.Proofs.Fragment
import SpanTree.Proofs.Nesting

/-!
# What is counted as an error

The count of errors looks below a node only if the node is troubled, and whether it is need
not agree with what is there. So the nodes that are counted are those that stand for an error
and have none but troubled nodes above them (`countP_placesBelow`). There are never more of
them than there are errors, and as many exactly if no error is below an untroubled node.

The order in which the pending nodes are looked at makes no difference. What was counted and
what is still to be counted add up to the same number at every step (`Tally.Step.total_eq`),
and hence along every run (`Tally.total_of_reflTransGen`); nor does any run go on forever,
since each step leaves fewer nodes pending (`Tally.acc_step`).
-/

namespace SpanTree

namespace RawTree

/-! ## Places -/

/-- A node of a raw tree at its place: with the nodes above it, the nearest first. -/
structure Place where
  above : List RawTree
  node : RawTree

/-- Whether the node is counted: it stands for an error, and all nodes above it are troubled. -/
def Place.isCounted (p : Place) : Bool :=
  p.above.all (·.troubled) && p.node.isErrorRecovery

mutual

/-- The places of a tree that itself has nodes above it, in the order of `nodes`. -/
def placesBelow (above : List RawTree) : RawTree → List Place
  | ⟨kind, named, error, missing, troubled, start, stop, children⟩ =>
    ⟨above, ⟨kind, named, error, missing, troubled, start, stop, children⟩⟩ ::
      placesBelowAll (⟨kind, named, error, missing, troubled, start, stop, children⟩ :: above)
        children

/-- The places of trees that have the same nodes above them. -/
def placesBelowAll (above : List RawTree) : List RawTree → List Place
  | [] => []
  | t :: ts => placesBelow above t ++ placesBelowAll above ts

end

/-- The places of a raw tree. -/
def places (t : RawTree) : List Place := t.placesBelow []

mutual

/-- Each node has one place. -/
theorem map_node_placesBelow : ∀ (above : List RawTree) (t : RawTree),
    (t.placesBelow above).map Place.node = t.nodes
  | above, ⟨kind, named, error, missing, troubled, start, stop, children⟩ => by
    rw [placesBelow, nodes, List.map_cons, map_node_placesBelowAll]

/-- Each node of several trees has one place. -/
theorem map_node_placesBelowAll : ∀ (above ts : List RawTree),
    (placesBelowAll above ts).map Place.node = nodesAll ts
  | _, [] => by rw [placesBelowAll, nodesAll, List.map_nil]
  | above, t :: ts => by
    rw [placesBelowAll, nodesAll, List.map_append, map_node_placesBelow,
      map_node_placesBelowAll]

end

mutual

/-- Below troubled nodes the errors counted are those at the places that count; below any
other there are no such places. -/
theorem countP_placesBelow : ∀ (above : List RawTree) (t : RawTree),
    (t.placesBelow above).countP Place.isCounted =
      if above.all (·.troubled) then t.errorCount else 0
  | above, ⟨kind, named, error, missing, troubled, start, stop, children⟩ => by
    rw [placesBelow, List.countP_cons, countP_placesBelowAll, errorCount]
    simp only [Place.isCounted, isErrorRecovery, List.all_cons]
    -- whether the nodes above are troubled decides for all that is below them
    by_cases hall : above.all (·.troubled) = true
    · cases troubled <;> simp [hall, Nat.add_comm]
    · simp [hall]

/-- The same for several trees. -/
theorem countP_placesBelowAll : ∀ (above ts : List RawTree),
    (placesBelowAll above ts).countP Place.isCounted =
      if above.all (·.troubled) then errorCountAll ts else 0
  | above, [] => by rw [placesBelowAll, List.countP_nil, errorCountAll, ite_self]
  | above, t :: ts => by
    rw [placesBelowAll, List.countP_append, countP_placesBelow, countP_placesBelowAll,
      errorCountAll]
    split
    · rfl
    · rfl

end

/-- The errors counted are those at the places that count. -/
theorem errorCount_eq_countP_places (t : RawTree) :
    t.errorCount = t.places.countP Place.isCounted := by
  rw [places, countP_placesBelow]
  rfl

/-- To count nodes is to count their places. -/
theorem countP_places_node (t : RawTree) (test : RawTree → Bool) :
    t.places.countP (fun p => test p.node) = t.nodes.countP test := by
  rw [← t.map_node_placesBelow [], List.countP_map]
  rfl

mutual

theorem length_nodes : ∀ t : RawTree, t.nodes.length = t.size
  | ⟨_, _, _, _, _, _, _, children⟩ => by
    rw [nodes, size, List.length_cons, length_nodesAll children]

theorem length_nodesAll : ∀ ts : List RawTree, (nodesAll ts).length = sizeAll ts
  | [] => rfl
  | t :: ts => by
    rw [nodesAll, sizeAll, List.length_append, length_nodes t, length_nodesAll ts]

end

/-! ## Any order -/

namespace Tally

/-- The steps of a run, taken together, change no more than one of them does. -/
theorem total_of_reflTransGen {w v : Tally} (h : Relation.ReflTransGen Step w v) :
    v.total = w.total := by
  induction h with
  | refl => rfl
  | tail _ hstep ih => rw [hstep.total_eq, ih]

/-- Whatever the order is, a count comes to its end. -/
theorem acc_step (w : Tally) : Acc (flip Step) w :=
  Subrelation.accessible (fun {_ _} hstep => Step.sizeAll_lt hstep)
    (InvImage.accessible (fun w : Tally => sizeAll w.pending) (Nat.lt_wfRel.wf.apply _))

/-- A count goes on as long as nodes are pending. -/
theorem pending_eq_nil {w : Tally} (h : ∀ v, ¬ Step w v) : w.pending = [] := by
  obtain ⟨_ | ⟨t, rest⟩, count⟩ := w
  · rfl
  · exact absurd (.look t (.refl _) (.refl _)) (h _)

end Tally

/-! ## The count -/

/-- What the number of errors in a raw tree is, in every way it can be come by. -/
structure IsErrorTotal (t : RawTree) (total : Nat) : Prop where
  /-- the stack runs empty within as many steps as there are nodes -/
  ends : ∀ steps, t.nodes.length ≤ steps → (Tally.ofTree t).after steps = ⟨[], total⟩
  /-- no order of looking at the nodes goes on forever -/
  ends_anyOrder : Acc (flip Tally.Step) (Tally.ofTree t)
  /-- where a count in any order cannot go on, it has come to this number -/
  anyOrder : ∀ w, Relation.ReflTransGen Tally.Step (Tally.ofTree t) w →
    (∀ v, ¬ Tally.Step w v) → w = ⟨[], total⟩
  /-- it is the number of error and missing nodes that have only troubled nodes above them -/
  counted : total = t.places.countP Place.isCounted
  le : total ≤ t.nodes.countP isErrorRecovery
  /-- no error is left out exactly if none has an untroubled node above it -/
  eq_iff : total = t.nodes.countP isErrorRecovery ↔
    ∀ p ∈ t.places, p.node.isErrorRecovery = true → ∀ s ∈ p.above, s.troubled = true
  /-- every parse of a fragment from the tree has it as its number of errors -/
  recorded : ∀ rule fragment, ∃ p, FragmentParse.ofRaw rule fragment t = .ok p ∧
    p.errorCount = total

/-- A place counts only if its node stands for an error. -/
theorem Place.isErrorRecovery_of_isCounted {p : Place} (h : p.isCounted = true) :
    p.node.isErrorRecovery = true := by
  rw [isCounted, Bool.and_eq_true] at h
  exact h.2

/-- No more errors are counted than there are. -/
theorem errorCount_le (t : RawTree) : t.errorCount ≤ t.nodes.countP isErrorRecovery := by
  rw [errorCount_eq_countP_places, ← countP_places_node]
  exact List.countP_mono_left fun p _ => p.isErrorRecovery_of_isCounted

/-- All errors are counted exactly if none is below a node that is not troubled. -/
theorem errorCount_eq_iff (t : RawTree) :
    t.errorCount = t.nodes.countP isErrorRecovery ↔
      ∀ p ∈ t.places, p.node.isErrorRecovery = true → ∀ s ∈ p.above, s.troubled = true := by
  have herrors : t.errorCount =
      (t.places.filter (·.node.isErrorRecovery)).countP Place.isCounted := by
    rw [errorCount_eq_countP_places, List.countP_filter]
    refine List.countP_congr fun p _ => ?_
    rw [Bool.and_eq_true]
    exact ⟨fun h => ⟨h, p.isErrorRecovery_of_isCounted h⟩, And.left⟩
  have hall : t.nodes.countP isErrorRecovery =
      (t.places.filter (·.node.isErrorRecovery)).length := by
    rw [← countP_places_node, List.countP_eq_length_filter]
  rw [herrors, hall, List.countP_eq_length]
  simp only [List.mem_filter, and_imp, Place.isCounted, Bool.and_eq_true, List.all_eq_true]
  refine ⟨?_, ?_⟩
  · intro h p hp herror
    exact (h p hp herror).1
  · intro h p hp herror
    exact ⟨h p hp herror, herror⟩

/-- **The count of errors is exact.** The stack runs empty, and the number that it leaves is
that of the error and missing nodes with only troubled nodes above them, whatever the flags
say of what is below a node, and in whatever order the pending nodes are looked at. -/
theorem countErrors_isErrorTotal (t : RawTree) : t.IsErrorTotal t.countErrors := by
  rw [countErrors_eq_errorCount]
  constructor
  case ends =>
    intro steps hsteps
    rw [length_nodes] at hsteps
    rw [Tally.after_of_sizeAll_le steps, Tally.total_ofTree]
    exact hsteps
  case ends_anyOrder => exact Tally.acc_step _
  case anyOrder =>
    intro w hrun hstop
    have hpending := Tally.pending_eq_nil hstop
    have hcount := Tally.total_of_reflTransGen hrun
    obtain ⟨pending, count⟩ := w
    obtain rfl : pending = [] := hpending
    rw [Tally.total_ofTree] at hcount
    rw [← hcount]
    rfl
  case counted => exact t.errorCount_eq_countP_places
  case le => exact t.errorCount_le
  case eq_iff => exact t.errorCount_eq_iff
  case recorded => exact fun rule fragment => ⟨_, FragmentParse.ofRaw_eq rule fragment t, rfl⟩

/-- The raw tree of a node that is both an error and missing, and of an error below it that
the flags do not announce. -/
def hiddenError : RawTree :=
  ⟨"module", true, false, false, true, 0, 2,
    [⟨"ERROR", true, true, true, false, 0, 2,
      [⟨"ERROR", true, true, false, true, 0, 1, []⟩]⟩]⟩

/-- The node that is both counts once, and the error below it does not. -/
theorem countErrors_isErrorTotal_hiddenError :
    hiddenError.nodes.countP isErrorRecovery = 2 ∧ hiddenError.IsErrorTotal 1 := by
  have htotal : hiddenError.countErrors = 1 := rfl
  have hcount := countErrors_isErrorTotal hiddenError
  rw [htotal] at hcount
  exact ⟨rfl, hcount⟩

end RawTree

end SpanTree

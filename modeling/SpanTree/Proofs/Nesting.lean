import SpanTree.Proofs.Covering
import SpanTree.Target

/-!
# Well-nested raw trees

A raw tree is well-nested if at every node the range is in order, the children lie in it,
and each child ends before the next one starts. Nothing below a node of such a tree leaves
the range of the node (`bounds_of_ordered`). Pieces are in order in a range if they lie in it one
behind the other and their trees are well-nested; where they are, clamping them to what
is left over changes nothing (`Extent.clampTo_of_mem`).
-/

namespace SpanTree

/-- A range that lies where it is to be clamped to stays as it is. -/
theorem Extent.clampTo_of_mem {e : Extent} {lo hi : Nat} (hlo : lo ≤ e.start)
    (hle : e.start ≤ e.stop) (hhi : e.stop ≤ hi) : e.clampTo lo hi = e := by
  obtain ⟨start, stop⟩ := e
  rw [clampTo]
  dsimp only at hlo hle hhi ⊢
  rw [Nat.min_eq_left (Nat.le_trans hle hhi), Nat.max_eq_right hlo, Nat.min_eq_left hhi,
    Nat.max_eq_right hle]

namespace RawTree

/-! ## The nodes of a raw tree -/

mutual

/-- The node and those below it, each before its children. -/
def nodes : RawTree → List RawTree
  | ⟨kind, named, error, missing, troubled, start, stop, children⟩ =>
    ⟨kind, named, error, missing, troubled, start, stop, children⟩ :: nodesAll children

/-- The nodes of raw trees one after another. -/
def nodesAll : List RawTree → List RawTree
  | [] => []
  | t :: ts => nodes t ++ nodesAll ts

end

theorem nodes_eq (t : RawTree) : t.nodes = t :: nodesAll t.children := by
  cases t
  rw [nodes]

theorem nodesAll_singleton (t : RawTree) : nodesAll [t] = t.nodes := by
  rw [nodesAll, nodesAll, List.append_nil]

theorem self_mem_nodes (t : RawTree) : t ∈ t.nodes := by
  rw [nodes_eq]
  exact List.mem_cons_self

theorem mem_nodesAll {s : RawTree} {ts : List RawTree} :
    s ∈ nodesAll ts ↔ ∃ t ∈ ts, s ∈ t.nodes := by
  induction ts with
  | nil => simp [nodesAll]
  | cons t ts ih => simp [nodesAll, ih]

/-- What holds of a raw node if it holds of its children holds of every raw node. -/
theorem induction {P : RawTree → Prop} (step : ∀ t : RawTree, (∀ c ∈ t.children, P c) → P t)
    (t : RawTree) : P t := by
  apply step
  intro c hc
  have : sizeOf c < sizeOf t := by
    obtain ⟨kind, named, error, missing, troubled, start, stop, children⟩ := t
    have := List.sizeOf_lt_of_mem hc
    simp only [mk.sizeOf_spec] at this ⊢
    omega
  exact induction step c
termination_by t

/-- Whether the node has no children. -/
def isLeaf (t : RawTree) : Bool := t.children.isEmpty

/-! ## Nesting -/

/-- The range of the node is in order, and its children lie in it, each one behind those
before it. -/
structure Ordered (t : RawTree) : Prop where
  le : t.start ≤ t.stop
  inside : ∀ c ∈ t.children, t.start ≤ c.start ∧ c.stop ≤ t.stop
  apart : t.children.Pairwise fun c d => c.stop ≤ d.start

instance (t : RawTree) : Decidable t.Ordered :=
  decidable_of_iff
    (t.start ≤ t.stop ∧ (∀ c ∈ t.children, t.start ≤ c.start ∧ c.stop ≤ t.stop) ∧
      t.children.Pairwise fun c d => c.stop ≤ d.start)
    ⟨fun ⟨hle, hinside, hapart⟩ => ⟨hle, hinside, hapart⟩,
      fun ⟨hle, hinside, hapart⟩ => ⟨hle, hinside, hapart⟩⟩

/-- Every node of the tree is ordered, and the tree lies in a buffer of the length. -/
structure WellNested (t : RawTree) (length : Nat) : Prop where
  ordered : ∀ s ∈ t.nodes, s.Ordered
  stop_le : t.stop ≤ length

instance (t : RawTree) (length : Nat) : Decidable (t.WellNested length) :=
  decidable_of_iff ((∀ s ∈ t.nodes, s.Ordered) ∧ t.stop ≤ length)
    ⟨fun ⟨hordered, hstop⟩ => ⟨hordered, hstop⟩, fun ⟨hordered, hstop⟩ => ⟨hordered, hstop⟩⟩

mutual

/-- No node of a well-nested tree leaves the range of the root. -/
theorem bounds_of_ordered : ∀ {t : RawTree}, (∀ s ∈ t.nodes, s.Ordered) →
    ∀ s ∈ t.nodes, t.start ≤ s.start ∧ s.stop ≤ t.stop
  | ⟨kind, named, error, missing, troubled, start, stop, children⟩, h => by
    rw [nodes, List.forall_mem_cons] at h ⊢
    obtain ⟨hself, hbelow⟩ := h
    refine ⟨⟨Nat.le_refl _, Nat.le_refl _⟩, ?_⟩
    exact bounds_of_orderedAll hbelow hself.inside

/-- No node of well-nested trees leaves a range that the trees lie in. -/
theorem bounds_of_orderedAll : ∀ {ts : List RawTree} {lo hi : Nat},
    (∀ s ∈ nodesAll ts, s.Ordered) → (∀ t ∈ ts, lo ≤ t.start ∧ t.stop ≤ hi) →
      ∀ s ∈ nodesAll ts, lo ≤ s.start ∧ s.stop ≤ hi
  | [], _, _, _, _ => by simp [nodesAll]
  | t :: ts, lo, hi, h, hin => by
    rw [nodesAll, List.forall_mem_append] at h ⊢
    obtain ⟨ht, hts⟩ := List.forall_mem_cons.mp hin
    refine ⟨fun s hs => ?_, bounds_of_orderedAll h.2 hts⟩
    have := bounds_of_ordered h.1 s hs
    omega

end

/-- What goes below the root of a well-nested tree is well-nested. -/
theorem ordered_belowRoot {t : RawTree} (h : ∀ s ∈ t.nodes, s.Ordered) :
    ∀ s ∈ nodesAll t.belowRoot, s.Ordered := by
  rw [belowRoot]
  split
  · rwa [nodesAll_singleton]
  · rw [nodes_eq, List.forall_mem_cons] at h
    exact h.2

end RawTree

namespace Piece

/-! ## Pieces in order -/

/-- The raw nodes that a piece holds whole. -/
def nodes : Piece → List RawTree
  | .tree t => t.nodes
  | .bare _ _ => []

/-- The raw tree that a piece is, if it is one. -/
def raws : Piece → List RawTree
  | .tree t => [t]
  | .bare _ _ => []

/-- The range of a piece that is bytes without a raw tree. -/
def bareExtent? : Piece → Option Extent
  | .tree _ => none
  | .bare start stop => some ⟨start, stop⟩

/-- The pieces lie in the range one behind the other, and are well-nested if they are
trees. -/
structure InOrder (lo hi : Nat) (ps : List Piece) : Prop where
  le : ∀ p ∈ ps, p.extent.start ≤ p.extent.stop
  ordered : ∀ p ∈ ps, ∀ s ∈ p.nodes, s.Ordered
  inside : ∀ p ∈ ps, lo ≤ p.extent.start ∧ p.extent.stop ≤ hi
  apart : ps.Pairwise fun p q => p.extent.stop ≤ q.extent.start

theorem InOrder.nil (lo hi : Nat) : InOrder lo hi [] := by
  constructor <;> simp

/-- The first piece lies in the range, and the others in what is left behind it. -/
theorem inOrder_cons {lo hi : Nat} {p : Piece} {ps : List Piece} :
    InOrder lo hi (p :: ps) ↔
      (lo ≤ p.extent.start ∧ p.extent.start ≤ p.extent.stop ∧ p.extent.stop ≤ hi ∧
        ∀ s ∈ p.nodes, s.Ordered) ∧ InOrder p.extent.stop hi ps := by
  constructor
  · rintro ⟨hle, hordered, hinside, hapart⟩
    rw [List.forall_mem_cons] at hle hordered hinside
    obtain ⟨hfirst, hapart⟩ := List.pairwise_cons.mp hapart
    exact ⟨⟨hinside.1.1, hle.1, hinside.1.2, hordered.1⟩, hle.2, hordered.2,
      fun q hq => ⟨hfirst q hq, (hinside.2 q hq).2⟩, hapart⟩
  · rintro ⟨⟨hlo, hle, hhi, hordered⟩, hles, hordereds, hinside, hapart⟩
    refine ⟨List.forall_mem_cons.mpr ⟨hle, hles⟩, List.forall_mem_cons.mpr ⟨hordered, hordereds⟩,
      List.forall_mem_cons.mpr ⟨⟨hlo, hhi⟩, fun q hq => ?_⟩,
      List.pairwise_cons.mpr ⟨fun q hq => (hinside q hq).1, hapart⟩⟩
    have := hinside q hq
    omega

/-- Pieces in order in one range, and pieces in order in a range behind it. -/
theorem InOrder.append {lo mid mid' hi : Nat} {ps qs : List Piece} (hps : InOrder lo mid ps)
    (hqs : InOrder mid' hi qs) (hlo : lo ≤ mid') (hmid : mid ≤ mid') (hhi : mid ≤ hi) :
    InOrder lo hi (ps ++ qs) where
  le := List.forall_mem_append.mpr ⟨hps.le, hqs.le⟩
  ordered := List.forall_mem_append.mpr ⟨hps.ordered, hqs.ordered⟩
  inside := by
    refine List.forall_mem_append.mpr ⟨fun p hp => ?_, fun q hq => ?_⟩
    · have := hps.inside p hp
      omega
    · have := hqs.inside q hq
      omega
  apart := by
    refine List.pairwise_append.mpr ⟨hps.apart, hqs.apart, fun p hp q hq => ?_⟩
    have hp := (hps.inside p hp).2
    have hq := (hqs.inside q hq).1
    omega

theorem InOrder.mono {lo hi lo' hi' : Nat} {ps : List Piece} (h : InOrder lo hi ps)
    (hlo : lo' ≤ lo) (hhi : hi ≤ hi') : InOrder lo' hi' ps where
  le := h.le
  ordered := h.ordered
  inside p hp := by
    have := h.inside p hp
    omega
  apart := h.apart

/-- Well-nested trees that lie in a range one behind the other are in order there. -/
theorem inOrder_trees {ts : List RawTree} {lo hi : Nat}
    (hordered : ∀ s ∈ RawTree.nodesAll ts, s.Ordered)
    (hinside : ∀ t ∈ ts, lo ≤ t.start ∧ t.stop ≤ hi)
    (hapart : ts.Pairwise fun c d => c.stop ≤ d.start) : InOrder lo hi (ts.map .tree) := by
  have hnodes : ∀ t ∈ ts, ∀ s ∈ t.nodes, s.Ordered := fun t ht s hs =>
    hordered s (RawTree.mem_nodesAll.mpr ⟨t, ht, hs⟩)
  refine ⟨List.forall_mem_map.mpr fun t ht => ?_, List.forall_mem_map.mpr hnodes,
    List.forall_mem_map.mpr hinside, List.pairwise_map.mpr hapart⟩
  exact (hnodes t ht t t.self_mem_nodes).le

/-- The children of a node of a well-nested tree are in order in its range. -/
theorem inOrder_children {t : RawTree} (h : ∀ s ∈ t.nodes, s.Ordered) :
    InOrder t.start t.stop (t.children.map .tree) := by
  rw [RawTree.nodes_eq, List.forall_mem_cons] at h
  obtain ⟨hself, hbelow⟩ := h
  exact inOrder_trees hbelow hself.inside hself.apart

/-- What goes below the root of a well-nested tree is in order in the buffer. -/
theorem inOrder_belowRoot {t : RawTree} {length : Nat} (h : t.WellNested length) :
    InOrder 0 length (t.belowRoot.map .tree) := by
  have hordered := RawTree.ordered_belowRoot h.ordered
  by_cases herror : t.error = true
  · rw [RawTree.belowRoot, if_pos herror] at hordered ⊢
    refine inOrder_trees hordered ?_ (List.pairwise_singleton _ t)
    exact List.forall_mem_singleton.mpr ⟨Nat.zero_le _, h.stop_le⟩
  · rw [RawTree.belowRoot, if_neg herror]
    exact (inOrder_children h.ordered).mono (Nat.zero_le _) h.stop_le

end Piece

end SpanTree

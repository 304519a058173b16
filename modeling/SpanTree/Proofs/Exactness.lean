import SpanTree.Proofs.Trace

/-!
# Lowering well-nested trees

Clamping does nothing to pieces that are in order, so every raw node keeps its range when
they are lowered (`exact_tracePieces`). What is inserted is known as well: at a node with
children, and in the range that pieces are lowered into, one leaf for each stretch that is
left over in front of the first, between neighbours and behind the last
(`insertions_traceAll`). Hence a byte lies in an inserted leaf exactly if no raw leaf and no
piece of one covers it (`gapAt_tracePieces`).
-/

namespace SpanTree

namespace RawTree

/-- The stretches of a range that raw trees in order leave over: in front of the first,
between neighbours and behind the last, as far as there is anything. -/
def stretches (start stop : Nat) (ts : List RawTree) : List Extent :=
  (List.zipWith Extent.mk (start :: ts.map (·.stop)) (ts.map (·.start) ++ [stop])).filter
    fun e => e.start < e.stop

/-- The stretches of a node's range that its children leave over. A node without children
is a token, and leaves nothing over. -/
def ownStretches (t : RawTree) : List Extent :=
  if t.isLeaf then [] else stretches t.start t.stop t.children

/-- No raw leaf at or below these trees covers the byte at the offset. -/
def Uncovered (ts : List RawTree) (offset : Nat) : Prop :=
  ∀ s ∈ nodesAll ts, s.isLeaf = true → s.extent.covers offset = false

theorem stretches_nil (start stop : Nat) :
    stretches start stop [] = if start < stop then [⟨start, stop⟩] else [] := by
  simp [stretches, List.filter_cons]

theorem stretches_cons (start stop : Nat) (t : RawTree) (ts : List RawTree) :
    stretches start stop (t :: ts) = stretches start t.start [] ++ stretches t.stop stop ts := by
  simp [stretches, List.filter_cons]
  split <;> rfl

/-- A node that has children covers no byte itself. -/
theorem uncovered_singleton {t : RawTree} (h : t.isLeaf = false) {offset : Nat} :
    Uncovered [t] offset ↔ Uncovered t.children offset := by
  simp [Uncovered, nodesAll_singleton, nodes_eq t, h]

end RawTree

/-- No raw leaf of a piece, and no bytes of one, cover the byte at the offset. -/
def Piece.Clear (offset : Nat) : Piece → Prop
  | .tree t => RawTree.Uncovered [t] offset
  | .bare start stop => (Extent.mk start stop).covers offset = false

theorem Piece.clear_trees {ts : List RawTree} {offset : Nat} :
    (∀ p ∈ ts.map Piece.tree, p.Clear offset) ↔ RawTree.Uncovered ts offset := by
  simp only [List.forall_mem_map, Piece.Clear, RawTree.Uncovered, RawTree.nodesAll_singleton,
    RawTree.mem_nodesAll]
  constructor
  · rintro h s ⟨t, ht, hs⟩
    exact h t ht s hs
  · intro h t ht s hs
    exact h s ⟨t, ht, hs⟩

/-- The byte at the offset lies in a leaf that was made for bytes that no raw node covers. -/
def Traced.GapAt (xs : List Traced) (offset : Nat) : Prop :=
  ∃ x ∈ walkAll xs, x.isGap = true ∧ x.span.containsOffset offset = true

namespace Lowering

variable {l : Lowering}

/-! ## Ranges -/

/-- A node that was made for a raw node has its range, and below it one leaf is inserted
for each stretch that the children of the raw node leave over. -/
structure Exact (l : Lowering) (x : Traced) : Prop where
  span : ∀ t, x.raw? = some t → x.span = l.spanOf t.extent
  insertions : ∀ t, x.raw? = some t → Traced.insertions x.children = t.ownStretches.map l.gapLeaf

theorem filter_isGap_traceGap (l : Lowering) (start stop : Nat) :
    (l.traceGap start stop).filter Traced.isGap = l.traceGap start stop := by
  rw [traceGap, gapLeaves]
  split <;> rfl

theorem insertions_traceGap (l : Lowering) (start stop : Nat) :
    Traced.insertions (l.traceGap start stop) =
      (RawTree.stretches start stop []).map l.gapLeaf := by
  rw [Traced.insertions, filter_isGap_traceGap, nodeAll_traceGap, gapLeaves,
    RawTree.stretches_nil]
  split <;> rfl

theorem insertions_step (l : Lowering) (start stop : Nat) {x : Traced} (hx : x.isGap = false)
    (xs : List Traced) :
    Traced.insertions (l.traceGap start stop ++ x :: xs) =
      (RawTree.stretches start stop []).map l.gapLeaf ++ Traced.insertions xs := by
  rw [← insertions_traceGap, Traced.insertions, Traced.insertions, Traced.insertions,
    List.filter_append, List.filter_cons_of_neg (Bool.eq_false_iff.mp hx),
    Traced.nodeAll_append]

theorem isGap_trace (l : Lowering) (t : RawTree) (lo hi : Nat) :
    (l.trace t lo hi).isGap = false := by
  rw [trace_eq]
  rfl

/-- **Between raw trees in order one leaf is inserted for each stretch** that they leave
over. -/
theorem insertions_traceAll {ts : List RawTree} {lo hi : Nat}
    (h : Piece.InOrder lo hi (ts.map .tree)) :
    Traced.insertions (l.traceAll ts lo hi) = (RawTree.stretches lo hi ts).map l.gapLeaf := by
  induction ts generalizing lo with
  | nil => rw [traceAll, insertions_traceGap]
  | cons t ts ih =>
    obtain ⟨⟨hlo, hle, hhi, -⟩, hts⟩ := Piece.inOrder_cons.mp h
    have hclamp : t.extent.clampTo lo hi = t.extent := Extent.clampTo_of_mem hlo hle hhi
    rw [traceAll, hclamp, insertions_step l _ _ (l.isGap_trace t lo hi), RawTree.stretches_cons,
      List.map_append]
    exact congrArg _ (ih hts)

theorem exact_traceGap {start stop : Nat} : ∀ x ∈ l.traceGap start stop, l.Exact x := by
  intro x hx
  obtain ⟨-, rfl⟩ := exists_of_mem_traceGap hx
  constructor <;> exact fun t ht => absurd ht (Option.some_ne_none t).symm

/-- Pieces in order keep their ranges, if each of their trees does where it is
well-nested. -/
theorem exact_tracePieces_of {ps : List Piece} {lo hi : Nat} (h : Piece.InOrder lo hi ps)
    (htree : ∀ t, .tree t ∈ ps → (∀ s ∈ t.nodes, s.Ordered) → ∀ lo hi, lo ≤ t.start →
      t.stop ≤ hi → ∀ x ∈ (l.trace t lo hi).walk, l.Exact x) :
    ∀ x ∈ Traced.walkAll (l.tracePieces ps lo hi), l.Exact x := by
  induction ps generalizing lo with
  | nil =>
    rw [tracePieces, walkAll_traceGap]
    exact exact_traceGap
  | cons p ps ih =>
    obtain ⟨⟨hlo, hle, hhi, hordered⟩, hps⟩ := Piece.inOrder_cons.mp h
    have hclamp : p.extent.clampTo lo hi = p.extent := Extent.clampTo_of_mem hlo hle hhi
    rw [tracePieces, walkAll_step, List.forall_mem_append, List.forall_mem_append, hclamp]
    refine ⟨exact_traceGap, ?_, ih hps fun t ht => htree t (List.mem_cons_of_mem _ ht)⟩
    cases p with
    | tree t => exact htree t List.mem_cons_self hordered lo hi hlo hhi
    | bare start stop =>
      refine List.forall_mem_singleton.mpr ?_
      constructor <;> exact fun t ht => absurd ht (Option.some_ne_none t).symm

/-- A well-nested raw tree keeps its ranges where there is room for it. -/
theorem exact_trace {t : RawTree} (hordered : ∀ s ∈ t.nodes, s.Ordered) :
    ∀ lo hi, lo ≤ t.start → t.stop ≤ hi → ∀ x ∈ (l.trace t lo hi).walk, l.Exact x := by
  induction t using RawTree.induction with
  | step t ih =>
    intro lo hi hlo hhi
    have hle := (hordered t t.self_mem_nodes).le
    have hclamp : t.extent.clampTo lo hi = t.extent := Extent.clampTo_of_mem hlo hle hhi
    have hchildren := Piece.inOrder_children hordered
    rw [Traced.walk_eq, List.forall_mem_cons, trace_eq, hclamp]
    constructor
    · refine ⟨fun s hs => ?_, fun s hs => ?_⟩
      · cases hs
        rfl
      · cases hs
        rw [RawTree.ownStretches, RawTree.isLeaf]
        dsimp only
        split
        · rfl
        · exact insertions_traceAll hchildren
    · dsimp only
      split
      · simp [Traced.walkAll]
      · rw [← tracePieces_trees]
        refine exact_tracePieces_of hchildren fun c hc => ?_
        obtain ⟨_, hc, ⟨⟩⟩ := List.mem_map.mp hc
        exact ih c hc

/-- **Raw nodes keep their ranges** when pieces in order are lowered. -/
theorem exact_tracePieces {ps : List Piece} {lo hi : Nat} (h : Piece.InOrder lo hi ps) :
    ∀ x ∈ Traced.walkAll (l.tracePieces ps lo hi), l.Exact x :=
  exact_tracePieces_of h fun _ _ => exact_trace

/-- The parts of raw leaves keep their ranges as well, and come in the order of the pieces. -/
theorem filter_isPart_tracePieces {ps : List Piece} {lo hi : Nat} (h : Piece.InOrder lo hi ps) :
    Traced.nodeAll ((Traced.walkAll (l.tracePieces ps lo hi)).filter Traced.isPart) =
      (ps.filterMap Piece.bareExtent?).map fun e => .leaf .error true (l.spanOf e) := by
  induction ps generalizing lo with
  | nil =>
    rw [tracePieces, walkAll_traceGap, filter_isPart_traceGap]
    rfl
  | cons p ps ih =>
    obtain ⟨⟨hlo, hle, hhi, -⟩, hps⟩ := Piece.inOrder_cons.mp h
    have hclamp : p.extent.clampTo lo hi = p.extent := Extent.clampTo_of_mem hlo hle hhi
    rw [tracePieces, filter_isPart_step, Traced.nodeAll_append, hclamp, ih hps]
    cases p with
    | tree t =>
      rw [tracePiece, filter_isPart_trace]
      rfl
    | bare start stop =>
      dsimp only [Piece.extent] at hclamp
      rw [tracePiece, hclamp]
      rfl

/-! ## Bytes that no raw leaf covers -/

theorem containsOffset_spanOf (l : Lowering) (e : Extent) (offset : Nat) :
    (l.spanOf e).containsOffset offset = e.covers (offset + l.shift) := by
  simp only [Span.containsOffset, spanOf, Span.ofRange, Extent.covers, Nat.sub_le_iff_le_add,
    Nat.lt_sub_iff_add_lt]

theorem gapAt_append {xs ys : List Traced} {offset : Nat} :
    Traced.GapAt (xs ++ ys) offset ↔ Traced.GapAt xs offset ∨ Traced.GapAt ys offset := by
  simp only [Traced.GapAt, Traced.walkAll_append, List.mem_append, or_and_right, exists_or]

theorem gapAt_cons {x : Traced} {xs : List Traced} {offset : Nat} :
    Traced.GapAt (x :: xs) offset ↔ Traced.GapAt [x] offset ∨ Traced.GapAt xs offset := by
  rw [← List.singleton_append, gapAt_append]

/-- Below a node that was not made for a gap, a byte is in a gap if it is in one of the
node's children. -/
theorem gapAt_singleton {x : Traced} {offset : Nat} (hx : x.isGap = false) :
    Traced.GapAt [x] offset ↔ Traced.GapAt x.children offset := by
  simp [Traced.GapAt, Traced.walkAll, Traced.walk_eq x, hx]

theorem gapAt_traceGap {start stop offset : Nat} :
    Traced.GapAt (l.traceGap start stop) offset ↔
      start ≤ offset + l.shift ∧ offset + l.shift < stop := by
  rw [Traced.GapAt, walkAll_traceGap, traceGap, gapLeaves]
  split
  · simp [Traced.ofLeaf, Traced.isGap, gapLeaf_span, containsOffset_spanOf, Extent.covers]
  · next hnot =>
    refine iff_of_false ?_ (by omega)
    rintro ⟨x, hx, -⟩
    exact absurd hx List.not_mem_nil

/-- Nothing of a well-nested piece covers a byte outside its range. -/
theorem clear_of_outside {p : Piece} {offset : Nat} (hordered : ∀ s ∈ p.nodes, s.Ordered)
    (h : p.extent.covers offset = false) : p.Clear offset := by
  cases p with
  | tree t =>
    intro s hs _
    rw [RawTree.nodesAll_singleton] at hs
    have hbounds := RawTree.bounds_of_ordered hordered s hs
    rw [Extent.covers_eq_false_iff] at h ⊢
    dsimp only [Piece.extent, RawTree.extent] at h ⊢
    omega
  | bare start stop => exact h

/-- Nothing of pieces in order covers a byte outside the range that they are in. -/
theorem clear_of_outsideAll {ps : List Piece} {lo hi offset : Nat} (h : Piece.InOrder lo hi ps)
    (hout : ¬(lo ≤ offset ∧ offset < hi)) : ∀ p ∈ ps, p.Clear offset := by
  intro p hp
  have hinside := h.inside p hp
  refine clear_of_outside (h.ordered p hp) ?_
  rw [Extent.covers_eq_false_iff]
  omega

/-- Among pieces in order a byte is in a gap if nothing covers it, provided that this is so
in each of their trees. -/
theorem gapAt_tracePieces_of {ps : List Piece} {lo hi offset : Nat}
    (h : Piece.InOrder lo hi ps)
    (htree : ∀ t, .tree t ∈ ps → (∀ s ∈ t.nodes, s.Ordered) → ∀ lo hi, lo ≤ t.start →
      t.stop ≤ hi → (Traced.GapAt [l.trace t lo hi] offset ↔
        t.extent.covers (offset + l.shift) = true ∧ RawTree.Uncovered [t] (offset + l.shift))) :
    Traced.GapAt (l.tracePieces ps lo hi) offset ↔
      (lo ≤ offset + l.shift ∧ offset + l.shift < hi) ∧ ∀ p ∈ ps, p.Clear (offset + l.shift) := by
  induction ps generalizing lo with
  | nil =>
    rw [tracePieces, gapAt_traceGap]
    exact (and_iff_left fun _ hp => absurd hp List.not_mem_nil).symm
  | cons p ps ih =>
    obtain ⟨⟨hlo, hle, hhi, hordered⟩, hps⟩ := Piece.inOrder_cons.mp h
    have hclamp : p.extent.clampTo lo hi = p.extent := Extent.clampTo_of_mem hlo hle hhi
    have hrest := ih hps fun t ht => htree t (List.mem_cons_of_mem _ ht)
    have hpiece : Traced.GapAt [l.tracePiece p lo hi] offset ↔
        p.extent.covers (offset + l.shift) = true ∧ p.Clear (offset + l.shift) := by
      cases p with
      | tree t => exact htree t List.mem_cons_self hordered lo hi hlo hhi
      | bare start stop =>
        refine iff_of_false ?_ ?_
        · rw [gapAt_singleton rfl]
          rintro ⟨x, hx, -⟩
          exact absurd hx List.not_mem_nil
        · rintro ⟨hcovers, hclear⟩
          exact Bool.false_ne_true (hclear.symm.trans hcovers)
    have hclear : ¬(p.extent.start ≤ offset + l.shift ∧ offset + l.shift < p.extent.stop) →
        p.Clear (offset + l.shift) := fun hout =>
      clear_of_outside hordered (Extent.covers_eq_false_iff.mpr hout)
    have hclears : ¬(p.extent.stop ≤ offset + l.shift ∧ offset + l.shift < hi) →
        ∀ q ∈ ps, q.Clear (offset + l.shift) := clear_of_outsideAll hps
    rw [tracePieces, hclamp, gapAt_append, gapAt_cons, gapAt_traceGap, hpiece, hrest,
      List.forall_mem_cons, Extent.covers_iff]
    -- the byte is in front of the piece, in it, or behind it: what it is not in is clear of it
    grind

/-- In the trace of a well-nested raw tree a byte is in a gap if no raw leaf covers it. -/
theorem gapAt_trace {t : RawTree} {offset : Nat} (hordered : ∀ s ∈ t.nodes, s.Ordered) :
    ∀ lo hi, lo ≤ t.start → t.stop ≤ hi → (Traced.GapAt [l.trace t lo hi] offset ↔
      t.extent.covers (offset + l.shift) = true ∧ RawTree.Uncovered [t] (offset + l.shift)) := by
  induction t using RawTree.induction with
  | step t ih =>
    intro lo hi hlo hhi
    have hle := (hordered t t.self_mem_nodes).le
    have hclamp : t.extent.clampTo lo hi = t.extent := Extent.clampTo_of_mem hlo hle hhi
    rw [gapAt_singleton (l.isGap_trace t lo hi), trace_eq, hclamp]
    by_cases hleaf : t.isLeaf = true
    · -- a raw leaf covers every byte of its range itself
      refine iff_of_false ?_ ?_
      · rw [RawTree.isLeaf] at hleaf
        rw [if_pos hleaf]
        rintro ⟨x, hx, -⟩
        exact absurd hx List.not_mem_nil
      · rintro ⟨hcovers, huncovered⟩
        have := huncovered t (by simp [RawTree.nodesAll, t.self_mem_nodes]) hleaf
        exact Bool.false_ne_true (this.symm.trans hcovers)
    · have hchildren := Piece.inOrder_children hordered
      have hgap : Traced.GapAt (l.tracePieces (t.children.map .tree) t.start t.stop) offset ↔ _ :=
        gapAt_tracePieces_of hchildren fun c hc => by
          obtain ⟨_, hc, ⟨⟩⟩ := List.mem_map.mp hc
          exact ih c hc
      rw [tracePieces_trees, Piece.clear_trees,
        ← RawTree.uncovered_singleton (Bool.eq_false_iff.mpr hleaf)] at hgap
      rw [RawTree.isLeaf] at hleaf
      rw [if_neg hleaf, Extent.covers_iff]
      exact hgap

/-- **A byte lies in an inserted leaf exactly if nothing covers it**: no raw leaf of the
pieces, and no piece that is part of one. -/
theorem gapAt_tracePieces {ps : List Piece} {lo hi offset : Nat} (h : Piece.InOrder lo hi ps) :
    Traced.GapAt (l.tracePieces ps lo hi) offset ↔
      (lo ≤ offset + l.shift ∧ offset + l.shift < hi) ∧ ∀ p ∈ ps, p.Clear (offset + l.shift) :=
  gapAt_tracePieces_of h fun _ _ => gapAt_trace

end Lowering

end SpanTree

import SpanTree.Extent
import SpanTree.Proofs.Tiling
import SpanTree.Lowering

/-!
# What lowering makes of raw trees

`Lowering.node` checks the preconditions of its arithmetic at every step. Here the
same lowering is done without checks (`cover`, `coverAll`, `coverPieces`), and the two
agree wherever the range that is lowered into is one of the buffer (`node_eq_cover`,
`assemble_eq_coverPieces`): whatever offsets the raw tree has, no check ever fails.
What is proved of the tree is proved of the lowering without checks, first of all that
it is tiled (`tiled_cover`) and fills its range (`tiles_coverAll`, `tiles_coverPieces`).
-/

namespace SpanTree

/-! ## Clamped ranges -/

/-- The range moved into the one from `lo` to `hi`, its end not before its start. -/
def Extent.clampTo (e : Extent) (lo hi : Nat) : Extent :=
  let start := max lo (min e.start hi)
  ⟨start, max start (min e.stop hi)⟩

/-- Whatever the offsets of a range are, once it is clamped they are in order. -/
theorem Extent.clampTo_bounds (e : Extent) {lo hi : Nat} (h : lo ≤ hi) :
    lo ≤ (e.clampTo lo hi).start ∧ (e.clampTo lo hi).start ≤ (e.clampTo lo hi).stop ∧
      (e.clampTo lo hi).stop ≤ hi := by
  rw [clampTo]
  dsimp only
  omega

theorem clamp_eq_clampTo_start {start stop lo hi : Nat} (h : lo ≤ hi) :
    clamp start lo hi = .ok ((Extent.mk start stop).clampTo lo hi).start :=
  clamp_of_le h

theorem clamp_eq_clampTo_stop {start stop lo hi : Nat} (h : lo ≤ hi) :
    clamp stop ((Extent.mk start stop).clampTo lo hi).start hi =
      .ok ((Extent.mk start stop).clampTo lo hi).stop := by
  have := (Extent.mk start stop).clampTo_bounds h
  exact clamp_of_le (by omega)

/-- Whether a kind is one that lowering gives to nodes. The root of a pattern and the
placeholders are not of its making. -/
def NodeKind.isPlain : NodeKind → Bool
  | .symbol _ => true
  | .error => true
  | .missing _ => true
  | .trivia => true
  | _ => false

/-- The range that a raw node claims. -/
def RawTree.extent (t : RawTree) : Extent := ⟨t.start, t.stop⟩

/-- The range that a piece claims. -/
def Piece.extent : Piece → Extent
  | .tree t => t.extent
  | .bare start stop => ⟨start, stop⟩

namespace Lowering

/-! ## Lowering without checks -/

/-- The span in the output of a range of the buffer that the parser saw. -/
def spanOf (l : Lowering) (e : Extent) : Span :=
  Span.ofRange l.index (e.start - l.shift) (e.stop - l.shift)

/-- The leaf for the bytes of a range: white space if they are blank, or else an error. -/
def gapLeaf (l : Lowering) (e : Extent) : Node :=
  if (l.source.slice e.start e.stop).all Byte.isSpace then .leaf .trivia false (l.spanOf e)
  else .leaf .error true (l.spanOf e)

/-- The leaf between two offsets, if there is anything between them. -/
def gapLeaves (l : Lowering) (start stop : Nat) : List Node :=
  if start < stop then [l.gapLeaf ⟨start, stop⟩] else []

mutual

/-- `node` without checks. -/
def cover (l : Lowering) : RawTree → Nat → Nat → Node
  | ⟨kind, named, error, missing, troubled, start, stop, children⟩, lo, hi =>
    let e := (Extent.mk start stop).clampTo lo hi
    { kind := RawTree.nodeKind ⟨kind, named, error, missing, troubled, start, stop, children⟩
      named := named || error
      span := l.spanOf e
      children := if children.isEmpty then [] else l.coverAll children e.start e.stop }

/-- `nodes` without checks. -/
def coverAll (l : Lowering) : List RawTree → Nat → Nat → List Node
  | [], cursor, stop => l.gapLeaves cursor stop
  | t :: ts, cursor, stop =>
    let e := t.extent.clampTo cursor stop
    l.gapLeaves cursor e.start ++ l.cover t cursor stop :: l.coverAll ts e.stop stop

end

/-- `piece` without checks. -/
def coverPiece (l : Lowering) : Piece → Nat → Nat → Node
  | .tree t, lo, hi => l.cover t lo hi
  | .bare start stop, lo, hi => .leaf .error true (l.spanOf ((Extent.mk start stop).clampTo lo hi))

/-- `assemble` without checks. -/
def coverPieces (l : Lowering) : List Piece → Nat → Nat → List Node
  | [], cursor, stop => l.gapLeaves cursor stop
  | p :: ps, cursor, stop =>
    let e := p.extent.clampTo cursor stop
    l.gapLeaves cursor e.start ++ l.coverPiece p cursor stop :: l.coverPieces ps e.stop stop

theorem cover_eq (l : Lowering) (t : RawTree) (lo hi : Nat) :
    l.cover t lo hi =
      { kind := t.nodeKind
        named := t.named || t.error
        span := l.spanOf (t.extent.clampTo lo hi)
        children :=
          if t.children.isEmpty then []
          else l.coverAll t.children (t.extent.clampTo lo hi).start (t.extent.clampTo lo hi).stop } := by
  obtain ⟨kind, named, error, missing, troubled, start, stop, children⟩ := t
  rw [cover]
  rfl

theorem cover_span (l : Lowering) (t : RawTree) (lo hi : Nat) :
    (l.cover t lo hi).span = l.spanOf (t.extent.clampTo lo hi) := by
  rw [cover_eq]

theorem coverPiece_span (l : Lowering) (p : Piece) (lo hi : Nat) :
    (l.coverPiece p lo hi).span = l.spanOf (p.extent.clampTo lo hi) := by
  cases p with
  | tree t => exact l.cover_span t lo hi
  | bare start stop => rfl

/-! ## No check fails -/

/-- The range from `start` to `stop` is one of the buffer that the parser saw, and does
not begin before the buffer that the output speaks of. -/
structure Admits (l : Lowering) (start stop : Nat) : Prop where
  shift_le : l.shift ≤ start
  le : start ≤ stop
  stop_le : stop ≤ l.source.length

variable {l : Lowering}

/-- The lowering of a part of a range meets the preconditions if that of the range does. -/
theorem Admits.part {lo hi start stop : Nat} (h : l.Admits lo hi) (hstart : lo ≤ start)
    (hle : start ≤ stop) (hstop : stop ≤ hi) : l.Admits start stop where
  shift_le := Nat.le_trans h.shift_le hstart
  le := hle
  stop_le := Nat.le_trans hstop h.stop_le

theorem Admits.span_eq {start stop : Nat} (h : l.Admits start stop) :
    l.span start stop = .ok (l.spanOf ⟨start, stop⟩) :=
  l.span_of_le h.shift_le (Nat.le_trans h.shift_le h.le)

theorem Admits.fill_eq {start stop : Nat} (h : l.Admits start stop) :
    l.fill start stop = .ok (l.gapLeaves start stop) := by
  rw [fill, gapLeaves, gap, gapLeaf]
  split
  · rw [readRange_eq_slice h.le h.stop_le, ok_bind, h.span_eq, ok_bind]
    split <;> rfl
  · rfl

/-- What comes out where the cursor was and a node is placed. -/
theorem Admits.place_eq {cursor : Nat} {e : Extent} {n : Node} (h : l.Admits cursor e.start)
    (hspan : n.span = l.spanOf e) :
    l.place cursor n = .ok (l.gapLeaves cursor e.start ++ [n]) := by
  have hshift : e.start - l.shift + l.shift = e.start :=
    Nat.sub_add_cancel (Nat.le_trans h.shift_le h.le)
  have hstart : n.span.start + l.shift = e.start := by
    rw [hspan]
    exact hshift
  rw [place, hstart, h.fill_eq]
  rfl

theorem nodeEnd_eq {e : Extent} {n : Node} (hstop : l.shift ≤ e.stop)
    (hspan : n.span = l.spanOf e) : l.nodeEnd n = e.stop := by
  rw [nodeEnd, hspan]
  exact Nat.sub_add_cancel hstop

/-- Placing a node whose span is a range clamped to what is left, and lowering the rest
behind it, meets no fault if the rest meets none. -/
theorem Admits.place_then {cursor stop : Nat} {claimed : Extent} {n : Node} {ns : List Node}
    (h : l.Admits cursor stop) (after : Nat → Except Fault (List Node))
    (hspan : n.span = l.spanOf (claimed.clampTo cursor stop))
    (hafter : l.Admits (claimed.clampTo cursor stop).stop stop →
      after (claimed.clampTo cursor stop).stop = .ok ns) :
    (do
      let placed ← l.place cursor n
      let rest ← after (l.nodeEnd n)
      return placed ++ rest) =
      .ok (l.gapLeaves cursor (claimed.clampTo cursor stop).start ++ n :: ns) := by
  obtain ⟨hlo, hle, hhi⟩ := claimed.clampTo_bounds h.le
  have hbefore := h.part (Nat.le_refl _) hlo (Nat.le_trans hle hhi)
  have hrest := h.part (Nat.le_trans hlo hle) hhi (Nat.le_refl _)
  rw [hbefore.place_eq hspan, ok_bind, nodeEnd_eq hrest.shift_le hspan, hafter hrest, ok_bind,
    List.append_assoc]
  rfl

mutual

/-- Lowering a raw tree into a range of the buffer meets no fault. -/
theorem node_eq_cover : ∀ (t : RawTree) (lo hi : Nat), l.Admits lo hi →
    l.node t lo hi = .ok (l.cover t lo hi)
  | ⟨kind, named, error, missing, troubled, start, stop, children⟩, lo, hi, h => by
    obtain ⟨hlo, hle, hhi⟩ := (Extent.mk start stop).clampTo_bounds h.le
    have hpart := h.part hlo hle hhi
    rw [node, cover, clamp_eq_clampTo_start h.le, ok_bind, clamp_eq_clampTo_stop h.le, ok_bind]
    by_cases hempty : children.isEmpty = true
    · simp only [hempty, if_true, pure_bind, hpart.span_eq]
      rfl
    · simp only [hempty, nodes_eq_coverAll children _ _ hpart, ok_bind, hpart.span_eq]
      rfl

/-- Lowering raw trees one after another meets no fault. -/
theorem nodes_eq_coverAll : ∀ (ts : List RawTree) (cursor stop : Nat), l.Admits cursor stop →
    l.nodes ts cursor stop = .ok (l.coverAll ts cursor stop)
  | [], cursor, stop, h => by rw [nodes, coverAll, h.fill_eq]
  | t :: ts, cursor, stop, h => by
    -- where the rest starts is read off the span of the node, and not off its raw offsets
    rw [nodes, coverAll, node_eq_cover t cursor stop h, ok_bind]
    exact h.place_then (l.nodes ts · stop) (l.cover_span t cursor stop)
      (nodes_eq_coverAll ts _ stop)

end

/-- Lowering a piece into a range of the buffer meets no fault. -/
theorem piece_eq_coverPiece (p : Piece) {lo hi : Nat} (h : l.Admits lo hi) :
    l.piece p lo hi = .ok (l.coverPiece p lo hi) := by
  cases p with
  | tree t => exact node_eq_cover t lo hi h
  | bare start stop =>
    obtain ⟨hlo, hle, hhi⟩ := (Extent.mk start stop).clampTo_bounds h.le
    rw [piece, coverPiece, clamp_eq_clampTo_start h.le, ok_bind, clamp_eq_clampTo_stop h.le,
      ok_bind, (h.part hlo hle hhi).span_eq]
    rfl

/-- Lowering pieces one after another meets no fault. -/
theorem assemble_eq_coverPieces (ps : List Piece) {cursor stop : Nat} (h : l.Admits cursor stop) :
    l.assemble ps cursor stop = .ok (l.coverPieces ps cursor stop) := by
  induction ps generalizing cursor with
  | nil => rw [assemble, coverPieces, h.fill_eq]
  | cons p ps ih =>
    rw [assemble, coverPieces, piece_eq_coverPiece p h, ok_bind]
    exact h.place_then (l.assemble ps · stop) (l.coverPiece_span p cursor stop) ih

/-! ## What comes out is tiled -/

theorem gapLeaf_span (l : Lowering) (e : Extent) : (l.gapLeaf e).span = l.spanOf e := by
  rw [gapLeaf]
  split <;> rfl

theorem tiled_gapLeaf (l : Lowering) {e : Extent} (hle : e.start ≤ e.stop) :
    (l.gapLeaf e).Tiled := by
  have hspan : (l.spanOf e).start ≤ (l.spanOf e).stop := Nat.sub_le_sub_right hle l.shift
  rw [gapLeaf]
  split <;> exact Node.tiled_leaf hspan

/-- What fills a gap tiles it, even if it is empty. -/
theorem tiles_gapLeaves (l : Lowering) {start stop : Nat} (hle : start ≤ stop) :
    Node.Tiles (start - l.shift) (stop - l.shift) (l.gapLeaves start stop) := by
  rw [gapLeaves]
  split
  · exact .cons (congrArg Span.start (l.gapLeaf_span ⟨start, stop⟩)) (l.tiled_gapLeaf hle)
      (.nil (congrArg Span.stop (l.gapLeaf_span ⟨start, stop⟩)))
  · exact .nil (by omega)

/-- A node in the range that it claims, the gap in front of it filled, and what tiles the
rest tile a range together. -/
theorem tiles_step {cursor stop : Nat} {claimed : Extent} {n : Node} {ns : List Node}
    (hle : cursor ≤ stop) (hspan : n.span = l.spanOf (claimed.clampTo cursor stop))
    (hn : n.Tiled)
    (hns : Node.Tiles ((claimed.clampTo cursor stop).stop - l.shift) (stop - l.shift) ns) :
    Node.Tiles (cursor - l.shift) (stop - l.shift)
      (l.gapLeaves cursor (claimed.clampTo cursor stop).start ++ n :: ns) := by
  obtain ⟨hlo, -, -⟩ := claimed.clampTo_bounds hle
  have hstart : n.span.start = (claimed.clampTo cursor stop).start - l.shift := by
    rw [hspan]
    rfl
  have hstop : n.span.stop = (claimed.clampTo cursor stop).stop - l.shift := by
    rw [hspan]
    rfl
  rw [← hstop] at hns
  exact (l.tiles_gapLeaves hlo).append (.cons hstart hn hns)

mutual

/-- A raw tree becomes a tiled tree, whatever its offsets are. -/
theorem tiled_cover : ∀ (t : RawTree) (lo hi : Nat), lo ≤ hi → (l.cover t lo hi).Tiled
  | ⟨kind, named, error, missing, troubled, start, stop, children⟩, lo, hi, hle => by
    obtain ⟨-, hle, -⟩ := (Extent.mk start stop).clampTo_bounds hle
    have hspan := Nat.sub_le_sub_right hle l.shift
    rw [cover]
    by_cases hempty : children.isEmpty = true
    · simp only [hempty, if_true]
      exact Node.tiled_leaf hspan
    · simp only [hempty]
      exact (tiles_coverAll children _ _ hle).tiled_node

/-- Raw trees become nodes that tile the range they are lowered into. -/
theorem tiles_coverAll : ∀ (ts : List RawTree) (cursor stop : Nat), cursor ≤ stop →
    Node.Tiles (cursor - l.shift) (stop - l.shift) (l.coverAll ts cursor stop)
  | [], cursor, stop, hle => by
    rw [coverAll]
    exact l.tiles_gapLeaves hle
  | t :: ts, cursor, stop, hle => by
    obtain ⟨-, -, hhi⟩ := t.extent.clampTo_bounds hle
    rw [coverAll]
    exact tiles_step hle (l.cover_span t cursor stop) (tiled_cover t cursor stop hle)
      (tiles_coverAll ts _ stop hhi)

end

theorem tiled_coverPiece (p : Piece) {lo hi : Nat} (hle : lo ≤ hi) :
    (l.coverPiece p lo hi).Tiled := by
  cases p with
  | tree t => exact tiled_cover t lo hi hle
  | bare start stop =>
    obtain ⟨-, hle, -⟩ := (Extent.mk start stop).clampTo_bounds hle
    exact Node.tiled_leaf (Nat.sub_le_sub_right hle l.shift)

/-- Pieces become nodes that tile the range they are lowered into. -/
theorem tiles_coverPieces (ps : List Piece) {cursor stop : Nat} (hle : cursor ≤ stop) :
    Node.Tiles (cursor - l.shift) (stop - l.shift) (l.coverPieces ps cursor stop) := by
  induction ps generalizing cursor with
  | nil => exact l.tiles_gapLeaves hle
  | cons p ps ih =>
    obtain ⟨-, -, hhi⟩ := p.extent.clampTo_bounds hle
    exact tiles_step hle (l.coverPiece_span p cursor stop) (tiled_coverPiece p hle) (ih hhi)

/-! ## The kinds of nodes that come out -/

theorem isPlain_nodeKind (t : RawTree) : t.nodeKind.isPlain = true := by
  rw [RawTree.nodeKind]
  split
  · rfl
  · split <;> rfl

/-- A raw node becomes an error exactly if it is one. -/
theorem isErrorRecovery_of_kind {n : Node} {t : RawTree} (h : n.kind = t.nodeKind) :
    n.isErrorRecovery = (t.error || t.missing) := by
  rw [Node.isErrorRecovery, h, RawTree.nodeKind]
  rcases t.error with _ | _ <;> rcases t.missing with _ | _ <;> rfl

theorem isPlain_gapLeaves (l : Lowering) (start stop : Nat) :
    ∀ n ∈ l.gapLeaves start stop, ∀ m ∈ n.walk, m.kind.isPlain = true := by
  intro n hn
  rw [gapLeaves, gapLeaf] at hn
  split at hn
  · obtain rfl := List.mem_singleton.mp hn
    split <;> exact Node.forall_mem_walk.mpr ⟨rfl, fun _ hc => absurd hc List.not_mem_nil⟩
  · exact absurd hn List.not_mem_nil

mutual

/-- Lowering a raw tree makes no placeholders and no root of a pattern. -/
theorem isPlain_cover : ∀ (t : RawTree) (lo hi : Nat),
    ∀ m ∈ (l.cover t lo hi).walk, m.kind.isPlain = true
  | ⟨kind, named, error, missing, troubled, start, stop, children⟩, lo, hi => by
    rw [cover, Node.forall_mem_walk]
    refine ⟨isPlain_nodeKind _, ?_⟩
    by_cases hempty : children.isEmpty = true
    · simp [hempty]
    · simp only [hempty]
      exact isPlain_coverAll children _ _

/-- Lowering raw trees makes no placeholders and no root of a pattern. -/
theorem isPlain_coverAll : ∀ (ts : List RawTree) (cursor stop : Nat),
    ∀ n ∈ l.coverAll ts cursor stop, ∀ m ∈ n.walk, m.kind.isPlain = true
  | [], cursor, stop => by
    rw [coverAll]
    exact l.isPlain_gapLeaves cursor stop
  | t :: ts, cursor, stop => by
    rw [coverAll, List.forall_mem_append, List.forall_mem_cons]
    exact ⟨l.isPlain_gapLeaves _ _, isPlain_cover t cursor stop, isPlain_coverAll ts _ stop⟩

end

theorem isPlain_coverPieces (ps : List Piece) (cursor stop : Nat) :
    ∀ n ∈ l.coverPieces ps cursor stop, ∀ m ∈ n.walk, m.kind.isPlain = true := by
  induction ps generalizing cursor with
  | nil => exact l.isPlain_gapLeaves cursor stop
  | cons p ps ih =>
    rw [coverPieces, List.forall_mem_append, List.forall_mem_cons]
    refine ⟨l.isPlain_gapLeaves _ _, ?_, ih _⟩
    cases p with
    | tree t => exact isPlain_cover t cursor stop
    | bare start stop =>
      exact Node.forall_mem_walk.mpr ⟨rfl, fun _ hc => absurd hc List.not_mem_nil⟩

end Lowering

end SpanTree

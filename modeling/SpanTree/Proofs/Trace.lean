import SpanTree.Proofs.Nesting

/-!
# What the nodes of a lowered tree were made for

A lowered tree does not say which of its nodes stand for raw nodes. An error leaf may be
a raw error without children, or a raw leaf cut to the window, or bytes that no raw node
covers. A trace is the lowered tree with that written beside each node: `trace`,
`traceAll` and `tracePieces` lower as `cover`, `coverAll` and `coverPieces` do, and
forgetting what the nodes were made for gives the same nodes (`nodeAll_tracePieces`).

Whatever the offsets of the raw trees are, a trace holds each raw node exactly once. If
all other nodes are deleted from it, the raw trees themselves remain, with their nesting
and order (`rawsAll_tracePieces`), and each node has the kind and the name flag that the
flags of its raw node ask for (`made_tracePieces`).
-/

namespace SpanTree

/-! ## Traces -/

/-- What a node of a lowered tree was made for. -/
inductive Origin where
  /-- a raw node -/
  | raw (t : RawTree)
  /-- the bytes of a raw leaf that lie in the window -/
  | part
  /-- bytes that no raw node covers -/
  | gap

/-- A lowered tree that says of each node what it was made for. -/
structure Traced where
  origin : Origin
  kind : NodeKind
  named : Bool
  span : Span
  children : List Traced

namespace Traced

/-- A leaf that was made for something. -/
def ofLeaf (origin : Origin) (n : Node) : Traced := ⟨origin, n.kind, n.named, n.span, []⟩

/-- The raw node that a node was made for. -/
def raw? (x : Traced) : Option RawTree :=
  match x.origin with
  | .raw t => some t
  | _ => none

/-- Whether a node was made for a part of a raw leaf. -/
def isPart (x : Traced) : Bool :=
  match x.origin with
  | .part => true
  | _ => false

/-- Whether a node was made for bytes that no raw node covers. -/
def isGap (x : Traced) : Bool :=
  match x.origin with
  | .gap => true
  | _ => false

mutual

/-- The tree alone, without what its nodes were made for. -/
def node : Traced → Node
  | ⟨_, kind, named, span, children⟩ => ⟨kind, named, span, nodeAll children⟩

/-- The trees alone. -/
def nodeAll : List Traced → List Node
  | [] => []
  | x :: xs => node x :: nodeAll xs

end

mutual

/-- The node and those below it, each before its children. -/
def walk : Traced → List Traced
  | ⟨origin, kind, named, span, children⟩ =>
    ⟨origin, kind, named, span, children⟩ :: walkAll children

/-- The nodes of trees one after another. -/
def walkAll : List Traced → List Traced
  | [] => []
  | x :: xs => walk x ++ walkAll xs

end

mutual

/-- What is left of the tree if every node that was not made for a raw node is deleted:
the raw nodes, as they are nested in it. -/
def raws : Traced → List RawTree
  | ⟨.raw t, _, _, _, children⟩ => [{ t with children := rawsAll children }]
  | ⟨.part, _, _, _, children⟩ => rawsAll children
  | ⟨.gap, _, _, _, children⟩ => rawsAll children

/-- What is left of trees one after another. -/
def rawsAll : List Traced → List RawTree
  | [] => []
  | x :: xs => raws x ++ rawsAll xs

end

/-- The nodes that were made for raw nodes have the kinds and the name flags that the
flags of the raw nodes ask for. An error is named, whatever its flag says. -/
def FlagsKept (below : List Traced) : Prop :=
  ∀ x ∈ walkAll below, ∀ s, x.raw? = some s →
    x.kind =
        (if s.error then .error else if s.missing then .missing s.kind else .symbol s.kind) ∧
      x.named = (s.named || s.error)

/-- The leaves among these nodes that were made for bytes that no raw node covers. -/
def insertions (xs : List Traced) : List Node := nodeAll (xs.filter isGap)

theorem nodeAll_append (xs ys : List Traced) : nodeAll (xs ++ ys) = nodeAll xs ++ nodeAll ys := by
  induction xs with
  | nil => rfl
  | cons x xs ih => rw [List.cons_append, nodeAll, ih, nodeAll, List.cons_append]

theorem walkAll_append (xs ys : List Traced) : walkAll (xs ++ ys) = walkAll xs ++ walkAll ys := by
  induction xs with
  | nil => rfl
  | cons x xs ih => rw [List.cons_append, walkAll, ih, walkAll, List.append_assoc]

theorem rawsAll_append (xs ys : List Traced) : rawsAll (xs ++ ys) = rawsAll xs ++ rawsAll ys := by
  induction xs with
  | nil => rfl
  | cons x xs ih => rw [List.cons_append, rawsAll, ih, rawsAll, List.append_assoc]

theorem node_ofLeaf (origin : Origin) {n : Node} (h : n.children = []) :
    (ofLeaf origin n).node = n := by
  obtain ⟨kind, named, span, children⟩ := n
  obtain rfl : children = [] := h
  rfl

theorem node_eq (x : Traced) : x.node = ⟨x.kind, x.named, x.span, nodeAll x.children⟩ := by
  cases x
  rw [node]

theorem walk_eq (x : Traced) : x.walk = x :: walkAll x.children := by
  cases x
  rw [walk]

mutual

/-- The nodes of the tree alone are those of the trace, in the same order. -/
theorem walk_node : ∀ x : Traced, x.node.walk = x.walk.map node
  | ⟨origin, kind, named, span, children⟩ => by
    rw [Node.walk_eq, walk, List.map_cons, ← walk_nodeAll children]
    rfl

/-- The nodes of the trees alone are those of the traces, in the same order. -/
theorem walk_nodeAll : ∀ xs : List Traced, (nodeAll xs).flatMap Node.walk = (walkAll xs).map node
  | [] => rfl
  | x :: xs => by
    rw [nodeAll, walkAll, List.flatMap_cons, List.map_append, walk_node x, walk_nodeAll xs]

end

end Traced

/-! ## Lowering with a trace -/

namespace Lowering

/-- `gapLeaves` as a trace. -/
def traceGap (l : Lowering) (start stop : Nat) : List Traced :=
  (l.gapLeaves start stop).map (Traced.ofLeaf .gap)

mutual

/-- `cover` as a trace. -/
def trace (l : Lowering) : RawTree → Nat → Nat → Traced
  | ⟨kind, named, error, missing, troubled, start, stop, children⟩, lo, hi =>
    let e := (Extent.mk start stop).clampTo lo hi
    { origin := .raw ⟨kind, named, error, missing, troubled, start, stop, children⟩
      kind := RawTree.nodeKind ⟨kind, named, error, missing, troubled, start, stop, children⟩
      named := named || error
      span := l.spanOf e
      children := if children.isEmpty then [] else l.traceAll children e.start e.stop }

/-- `coverAll` as a trace. -/
def traceAll (l : Lowering) : List RawTree → Nat → Nat → List Traced
  | [], cursor, stop => l.traceGap cursor stop
  | t :: ts, cursor, stop =>
    let e := t.extent.clampTo cursor stop
    l.traceGap cursor e.start ++ l.trace t cursor stop :: l.traceAll ts e.stop stop

end

/-- `coverPiece` as a trace. -/
def tracePiece (l : Lowering) : Piece → Nat → Nat → Traced
  | .tree t, lo, hi => l.trace t lo hi
  | .bare start stop, lo, hi =>
    .ofLeaf .part (.leaf .error true (l.spanOf ((Extent.mk start stop).clampTo lo hi)))

/-- `coverPieces` as a trace. -/
def tracePieces (l : Lowering) : List Piece → Nat → Nat → List Traced
  | [], cursor, stop => l.traceGap cursor stop
  | p :: ps, cursor, stop =>
    let e := p.extent.clampTo cursor stop
    l.traceGap cursor e.start ++ l.tracePiece p cursor stop :: l.tracePieces ps e.stop stop

theorem trace_eq (l : Lowering) (t : RawTree) (lo hi : Nat) :
    l.trace t lo hi =
      { origin := .raw t
        kind := t.nodeKind
        named := t.named || t.error
        span := l.spanOf (t.extent.clampTo lo hi)
        children :=
          if t.children.isEmpty then [] else
            l.traceAll t.children (t.extent.clampTo lo hi).start
              (t.extent.clampTo lo hi).stop } := by
  obtain ⟨kind, named, error, missing, troubled, start, stop, children⟩ := t
  rw [trace]
  rfl

/-- Lowering trees as pieces is lowering them as children. -/
theorem tracePieces_trees (l : Lowering) (ts : List RawTree) (cursor stop : Nat) :
    l.tracePieces (ts.map .tree) cursor stop = l.traceAll ts cursor stop := by
  induction ts generalizing cursor with
  | nil => rw [List.map_nil, tracePieces, traceAll]
  | cons t ts ih =>
    rw [List.map_cons, tracePieces, traceAll, ih]
    rfl

theorem children_gapLeaf (l : Lowering) (e : Extent) : (l.gapLeaf e).children = [] := by
  rw [gapLeaf]
  split <;> rfl

theorem kind_gapLeaf (l : Lowering) (e : Extent) :
    (l.gapLeaf e).kind =
      if (l.source.slice e.start e.stop).all Byte.isSpace then .trivia else .error := by
  rw [gapLeaf]
  split <;> rfl

theorem span_ofLeaf_gapLeaf (l : Lowering) (e : Extent) :
    (Traced.ofLeaf .gap (l.gapLeaf e)).span = l.spanOf e :=
  l.gapLeaf_span e

variable {l : Lowering}

/-- What is inserted into a gap is one leaf over it, if there is anything to insert. -/
theorem exists_of_mem_traceGap {start stop : Nat} {x : Traced} (hx : x ∈ l.traceGap start stop) :
    start < stop ∧ x = .ofLeaf .gap (l.gapLeaf ⟨start, stop⟩) := by
  rw [traceGap, gapLeaves] at hx
  split at hx
  · next hlt => exact ⟨hlt, List.mem_singleton.mp hx⟩
  · exact absurd hx List.not_mem_nil

theorem walkAll_traceGap (l : Lowering) (start stop : Nat) :
    Traced.walkAll (l.traceGap start stop) = l.traceGap start stop := by
  rw [traceGap, gapLeaves]
  split <;> rfl

/-- The nodes of what is lowered next: the leaf in front of it, its own, and the rest. -/
theorem walkAll_step (l : Lowering) (start stop : Nat) (x : Traced) (xs : List Traced) :
    Traced.walkAll (l.traceGap start stop ++ x :: xs) =
      l.traceGap start stop ++ (x.walk ++ Traced.walkAll xs) := by
  rw [Traced.walkAll_append, walkAll_traceGap, Traced.walkAll]

/-! ## Forgetting the trace -/

theorem nodeAll_traceGap (l : Lowering) (start stop : Nat) :
    Traced.nodeAll (l.traceGap start stop) = l.gapLeaves start stop := by
  rw [traceGap, gapLeaves]
  split
  · rw [List.map_singleton, Traced.nodeAll, Traced.node_ofLeaf _ (l.children_gapLeaf _)]
    rfl
  · rfl

theorem nodeAll_step (l : Lowering) (start stop : Nat) (x : Traced) (xs : List Traced) :
    Traced.nodeAll (l.traceGap start stop ++ x :: xs) =
      l.gapLeaves start stop ++ x.node :: Traced.nodeAll xs := by
  rw [Traced.nodeAll_append, nodeAll_traceGap, Traced.nodeAll]

mutual

theorem node_trace : ∀ (t : RawTree) (lo hi : Nat), (l.trace t lo hi).node = l.cover t lo hi
  | ⟨kind, named, error, missing, troubled, start, stop, children⟩, lo, hi => by
    rw [trace, cover, Traced.node]
    rcases children with _ | ⟨c, cs⟩
    · rfl
    · exact congrArg (Node.mk _ _ _) (nodeAll_traceAll (c :: cs) _ _)

theorem nodeAll_traceAll : ∀ (ts : List RawTree) (cursor stop : Nat),
    Traced.nodeAll (l.traceAll ts cursor stop) = l.coverAll ts cursor stop
  | [], cursor, stop => by rw [traceAll, coverAll, nodeAll_traceGap]
  | t :: ts, cursor, stop => by
    rw [traceAll, coverAll, nodeAll_step, node_trace t cursor stop, nodeAll_traceAll ts]

end

theorem node_tracePiece (l : Lowering) (p : Piece) (lo hi : Nat) :
    (l.tracePiece p lo hi).node = l.coverPiece p lo hi := by
  cases p with
  | tree t => exact node_trace t lo hi
  | bare start stop => rfl

/-- **Forgetting what the nodes were made for** gives what is lowered without a trace. -/
theorem nodeAll_tracePieces (l : Lowering) (ps : List Piece) (cursor stop : Nat) :
    Traced.nodeAll (l.tracePieces ps cursor stop) = l.coverPieces ps cursor stop := by
  induction ps generalizing cursor with
  | nil => rw [tracePieces, coverPieces, nodeAll_traceGap]
  | cons p ps ih =>
    rw [tracePieces, coverPieces, nodeAll_step, node_tracePiece, ih]

/-! ## Deleting what was not made for raw nodes -/

theorem rawsAll_traceGap (l : Lowering) (start stop : Nat) :
    Traced.rawsAll (l.traceGap start stop) = [] := by
  rw [traceGap, gapLeaves]
  split <;> rfl

theorem rawsAll_step (l : Lowering) (start stop : Nat) (x : Traced) (xs : List Traced) :
    Traced.rawsAll (l.traceGap start stop ++ x :: xs) = x.raws ++ Traced.rawsAll xs := by
  rw [Traced.rawsAll_append, rawsAll_traceGap, Traced.rawsAll, List.nil_append]

mutual

/-- What remains of the trace of a raw tree is the raw tree. -/
theorem raws_trace : ∀ (t : RawTree) (lo hi : Nat), (l.trace t lo hi).raws = [t]
  | ⟨kind, named, error, missing, troubled, start, stop, children⟩, lo, hi => by
    rw [trace, Traced.raws]
    rcases children with _ | ⟨c, cs⟩
    · rfl
    · exact congrArg (fun below => [RawTree.mk _ _ _ _ _ _ _ below])
        (rawsAll_traceAll (c :: cs) _ _)

/-- What remains of the trace of raw trees are the raw trees. -/
theorem rawsAll_traceAll : ∀ (ts : List RawTree) (cursor stop : Nat),
    Traced.rawsAll (l.traceAll ts cursor stop) = ts
  | [], cursor, stop => by rw [traceAll, rawsAll_traceGap]
  | t :: ts, cursor, stop => by
    rw [traceAll, rawsAll_step, raws_trace t cursor stop, rawsAll_traceAll ts,
      List.singleton_append]

end

/-- **Deleting what was not made for a raw node** leaves the raw trees of the pieces. -/
theorem rawsAll_tracePieces (l : Lowering) (ps : List Piece) (cursor stop : Nat) :
    Traced.rawsAll (l.tracePieces ps cursor stop) = ps.flatMap Piece.raws := by
  induction ps generalizing cursor with
  | nil => rw [tracePieces, rawsAll_traceGap, List.flatMap_nil]
  | cons p ps ih =>
    rw [tracePieces, rawsAll_step, ih, List.flatMap_cons]
    cases p with
    | tree t => exact congrArg (· ++ _) (raws_trace t _ _)
    | bare start stop => rfl

/-! ## The nodes of a trace in order -/

theorem filterMap_raw?_traceGap (l : Lowering) (start stop : Nat) :
    (l.traceGap start stop).filterMap Traced.raw? = [] := by
  rw [traceGap, gapLeaves]
  split <;> rfl

theorem filterMap_walkAll_step (l : Lowering) (start stop : Nat) (x : Traced)
    (xs : List Traced) :
    (Traced.walkAll (l.traceGap start stop ++ x :: xs)).filterMap Traced.raw? =
      x.walk.filterMap Traced.raw? ++ (Traced.walkAll xs).filterMap Traced.raw? := by
  rw [walkAll_step, List.filterMap_append, List.filterMap_append, filterMap_raw?_traceGap,
    List.nil_append]

mutual

/-- A walk over the trace of a raw tree meets the raw nodes in order, each once. -/
theorem filterMap_walk_trace : ∀ (t : RawTree) (lo hi : Nat),
    (l.trace t lo hi).walk.filterMap Traced.raw? = t.nodes
  | ⟨kind, named, error, missing, troubled, start, stop, children⟩, lo, hi => by
    rw [trace, Traced.walk, RawTree.nodes]
    rcases children with _ | ⟨c, cs⟩
    · rfl
    · exact congrArg (List.cons _) (filterMap_walkAll_traceAll (c :: cs) _ _)

/-- A walk over the trace of raw trees meets the raw nodes in order, each once. -/
theorem filterMap_walkAll_traceAll : ∀ (ts : List RawTree) (cursor stop : Nat),
    (Traced.walkAll (l.traceAll ts cursor stop)).filterMap Traced.raw? = RawTree.nodesAll ts
  | [], cursor, stop => by
    rw [traceAll, walkAll_traceGap, filterMap_raw?_traceGap, RawTree.nodesAll]
  | t :: ts, cursor, stop => by
    rw [traceAll, filterMap_walkAll_step, filterMap_walk_trace t cursor stop,
      filterMap_walkAll_traceAll ts, RawTree.nodesAll]

end

/-- **A walk over a trace meets each raw node once**, in the order of the pieces. -/
theorem filterMap_walkAll_tracePieces (l : Lowering) (ps : List Piece) (cursor stop : Nat) :
    (Traced.walkAll (l.tracePieces ps cursor stop)).filterMap Traced.raw? =
      ps.flatMap Piece.nodes := by
  induction ps generalizing cursor with
  | nil => rw [tracePieces, walkAll_traceGap, filterMap_raw?_traceGap, List.flatMap_nil]
  | cons p ps ih =>
    rw [tracePieces, filterMap_walkAll_step, ih, List.flatMap_cons]
    cases p with
    | tree t => exact congrArg (· ++ _) (filterMap_walk_trace t _ _)
    | bare start stop => rfl

theorem filter_isPart_traceGap (l : Lowering) (start stop : Nat) :
    (l.traceGap start stop).filter Traced.isPart = [] := by
  rw [traceGap, gapLeaves]
  split <;> rfl

theorem filter_isPart_step (l : Lowering) (start stop : Nat) (x : Traced) (xs : List Traced) :
    (Traced.walkAll (l.traceGap start stop ++ x :: xs)).filter Traced.isPart =
      x.walk.filter Traced.isPart ++ (Traced.walkAll xs).filter Traced.isPart := by
  rw [walkAll_step, List.filter_append, List.filter_append, filter_isPart_traceGap,
    List.nil_append]

mutual

/-- No raw leaf is cut where raw trees are lowered whole. -/
theorem filter_isPart_trace : ∀ (t : RawTree) (lo hi : Nat),
    (l.trace t lo hi).walk.filter Traced.isPart = []
  | ⟨kind, named, error, missing, troubled, start, stop, children⟩, lo, hi => by
    rw [trace, Traced.walk]
    rcases children with _ | ⟨c, cs⟩
    · rfl
    · exact filter_isPart_traceAll (c :: cs) _ _

theorem filter_isPart_traceAll : ∀ (ts : List RawTree) (cursor stop : Nat),
    (Traced.walkAll (l.traceAll ts cursor stop)).filter Traced.isPart = []
  | [], cursor, stop => by rw [traceAll, walkAll_traceGap, filter_isPart_traceGap]
  | t :: ts, cursor, stop => by
    rw [traceAll, filter_isPart_step, filter_isPart_trace t cursor stop,
      filter_isPart_traceAll ts, List.append_nil]

end

/-! ## What the nodes are like -/

/-- A node of a trace in a range is as what it was made for demands. -/
structure Made (l : Lowering) (lo hi : Nat) (x : Traced) : Prop where
  /-- its positions were looked up -/
  span : ∃ e, x.span = l.spanOf e
  /-- a raw node gives the kind and the name flag -/
  raw : ∀ t, x.raw? = some t → x.kind = t.nodeKind ∧ x.named = (t.named || t.error)
  /-- a part of a raw leaf is an error leaf -/
  part : x.isPart = true → ∃ e, x = .ofLeaf .part (.leaf .error true (l.spanOf e))
  /-- bytes that no raw node covers are a leaf over some bytes of the range -/
  gap : x.isGap = true → ∃ e : Extent, lo ≤ e.start ∧ e.start < e.stop ∧ e.stop ≤ hi ∧
    x = .ofLeaf .gap (l.gapLeaf e)

theorem Made.mono {lo hi lo' hi' : Nat} {x : Traced} (h : l.Made lo hi x) (hlo : lo' ≤ lo)
    (hhi : hi ≤ hi') : l.Made lo' hi' x where
  span := h.span
  raw := h.raw
  part := h.part
  gap hgap := by
    obtain ⟨e, hstart, hlt, hstop, heq⟩ := h.gap hgap
    exact ⟨e, Nat.le_trans hlo hstart, hlt, Nat.le_trans hstop hhi, heq⟩

theorem made_traceGap {start stop lo hi : Nat} (hlo : lo ≤ start) (hhi : stop ≤ hi) :
    ∀ x ∈ l.traceGap start stop, l.Made lo hi x := by
  intro x hx
  obtain ⟨hlt, rfl⟩ := exists_of_mem_traceGap hx
  refine ⟨⟨_, l.gapLeaf_span _⟩, fun t ht => ?_, fun hpart => ?_, fun _ => ?_⟩
  · cases ht
  · cases hpart
  · exact ⟨⟨start, stop⟩, hlo, hlt, hhi, rfl⟩

mutual

theorem made_trace : ∀ (t : RawTree) {lo hi : Nat}, lo ≤ hi →
    ∀ x ∈ (l.trace t lo hi).walk, l.Made lo hi x
  | ⟨kind, named, error, missing, troubled, start, stop, children⟩, lo, hi, hle => by
    rw [trace, Traced.walk, List.forall_mem_cons]
    constructor
    · refine ⟨⟨_, rfl⟩, fun t ht => ?_, fun hpart => ?_, fun hgap => ?_⟩
      · cases ht
        exact ⟨rfl, rfl⟩
      · cases hpart
      · cases hgap
    · obtain ⟨hlo, hle, hhi⟩ := (Extent.mk start stop).clampTo_bounds hle
      rcases children with _ | ⟨c, cs⟩
      · simp [Traced.walkAll]
      · exact fun x hx => (made_traceAll (c :: cs) hle x hx).mono hlo hhi

theorem made_traceAll : ∀ (ts : List RawTree) {cursor stop : Nat}, cursor ≤ stop →
    ∀ x ∈ Traced.walkAll (l.traceAll ts cursor stop), l.Made cursor stop x
  | [], cursor, stop, _ => by
    rw [traceAll, walkAll_traceGap]
    exact made_traceGap (Nat.le_refl _) (Nat.le_refl _)
  | t :: ts, cursor, stop, hle => by
    obtain ⟨hlo, hmid, hhi⟩ := t.extent.clampTo_bounds hle
    rw [traceAll, walkAll_step, List.forall_mem_append, List.forall_mem_append]
    refine ⟨made_traceGap (Nat.le_refl _) (Nat.le_trans hmid hhi), made_trace t hle, ?_⟩
    exact fun x hx => (made_traceAll ts hhi x hx).mono (Nat.le_trans hlo hmid) (Nat.le_refl _)

end

/-- **Every node of a trace is as what it was made for demands**, whatever the offsets of
the raw trees are. -/
theorem made_tracePieces (ps : List Piece) {cursor stop : Nat} (hle : cursor ≤ stop) :
    ∀ x ∈ Traced.walkAll (l.tracePieces ps cursor stop), l.Made cursor stop x := by
  induction ps generalizing cursor with
  | nil =>
    rw [tracePieces, walkAll_traceGap]
    exact made_traceGap (Nat.le_refl _) (Nat.le_refl _)
  | cons p ps ih =>
    obtain ⟨hlo, hmid, hhi⟩ := p.extent.clampTo_bounds hle
    rw [tracePieces, walkAll_step, List.forall_mem_append, List.forall_mem_append]
    refine ⟨made_traceGap (Nat.le_refl _) (Nat.le_trans hmid hhi), ?_, ?_⟩
    · cases p with
      | tree t => exact made_trace t hle
      | bare start stop =>
        refine List.forall_mem_singleton.mpr ⟨⟨_, rfl⟩, fun t ht => ?_, fun _ => ⟨_, rfl⟩,
          fun hgap => ?_⟩
        · cases ht
        · cases hgap
    · exact fun x hx => (ih hhi x hx).mono (Nat.le_trans hlo hmid) (Nat.le_refl _)

end Lowering

end SpanTree

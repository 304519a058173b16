import SpanTree.Proofs.Exactness
import SpanTree.Proofs.Fragment

/-!
# What a fragment's tree keeps of the raw tree

A fragment is lifted out of a well-nested raw tree for the whole wrapped buffer. The raw
nodes that lie in the window are lifted, each once, and nested as before; the nodes above
them that do not lie in it drop out (`keepAll`). What comes out of the opening of nodes
across the edges of the window is summed up by `Lifts`, case by case: a node inside, a raw
leaf across an edge, which is cut, a node across an edge, which is opened, and a node
outside (`lifts_piecesInAll`). Lowering the pieces then keeps all of it, and the bytes that
no raw leaf covers get leaves of their own (`ofRaw_lifted`).
-/

namespace SpanTree

namespace RawTree

/-! ## Parts of a raw tree -/

mutual

/-- The tree without the nodes that do not meet a test. The children of such a node take
its place. -/
def keep (test : RawTree → Bool) : RawTree → List RawTree
  | ⟨kind, named, error, missing, troubled, start, stop, children⟩ =>
    if test ⟨kind, named, error, missing, troubled, start, stop, children⟩ then
      [⟨kind, named, error, missing, troubled, start, stop, keepAll test children⟩]
    else keepAll test children

/-- The trees without the nodes that do not meet a test. -/
def keepAll (test : RawTree → Bool) : List RawTree → List RawTree
  | [] => []
  | t :: ts => keep test t ++ keepAll test ts

end

theorem keep_eq (test : RawTree → Bool) (t : RawTree) :
    t.keep test =
      if test t then [{ t with children := keepAll test t.children }]
      else keepAll test t.children := by
  cases t
  rw [keep]

theorem keepAll_append (test : RawTree → Bool) (ts us : List RawTree) :
    keepAll test (ts ++ us) = keepAll test ts ++ keepAll test us := by
  induction ts with
  | nil => rfl
  | cons t ts ih => rw [List.cons_append, keepAll, ih, keepAll, List.append_assoc]

theorem keepAll_singleton (test : RawTree → Bool) (t : RawTree) :
    keepAll test [t] = t.keep test := by
  rw [keepAll, keepAll, List.append_nil]

mutual

/-- What is kept depends on the outcome of the test at the nodes alone. -/
theorem keep_congr {test test' : RawTree → Bool} : ∀ {t : RawTree},
    (∀ s ∈ t.nodes, test s = test' s) → t.keep test = t.keep test'
  | ⟨kind, named, error, missing, troubled, start, stop, children⟩, h => by
    rw [nodes, List.forall_mem_cons] at h
    rw [keep, keep, h.1, keepAll_congr h.2]

theorem keepAll_congr {test test' : RawTree → Bool} : ∀ {ts : List RawTree},
    (∀ s ∈ nodesAll ts, test s = test' s) → keepAll test ts = keepAll test' ts
  | [], _ => rfl
  | t :: ts, h => by
    rw [nodesAll, List.forall_mem_append] at h
    rw [keepAll, keepAll, keep_congr h.1, keepAll_congr h.2]

end

mutual

/-- Nothing is kept where no node meets the test. -/
theorem keep_eq_nil {test : RawTree → Bool} : ∀ {t : RawTree},
    (∀ s ∈ t.nodes, test s = false) → t.keep test = []
  | ⟨kind, named, error, missing, troubled, start, stop, children⟩, h => by
    rw [nodes, List.forall_mem_cons] at h
    rw [keep, h.1, keepAll_eq_nil h.2]
    rfl

theorem keepAll_eq_nil {test : RawTree → Bool} : ∀ {ts : List RawTree},
    (∀ s ∈ nodesAll ts, test s = false) → keepAll test ts = []
  | [], _ => rfl
  | t :: ts, h => by
    rw [nodesAll, List.forall_mem_append] at h
    rw [keepAll, keep_eq_nil h.1, keepAll_eq_nil h.2, List.append_nil]

end

/-! ## Raw nodes and the window -/

/-- Whether the node has any bytes. -/
def hasBytes (t : RawTree) : Bool := decide (t.start < t.stop)

/-- Whether the node has any bytes, all of them in the window. -/
def isInside (window : Extent) (t : RawTree) : Bool :=
  t.hasBytes && window.contains t.start t.stop

/-- Whether the node is a raw leaf across an edge of the window. -/
def isCut (window : Extent) (t : RawTree) : Bool :=
  t.isLeaf && window.overlaps t.start t.stop && !window.contains t.start t.stop

/-- The part of a node's range that lies in the window. -/
def overlap (window : Extent) (t : RawTree) : Extent :=
  ⟨max t.start window.start, min t.stop window.stop⟩

section Bounds

variable {window : Extent} {t s : RawTree}

/-- Below a node inside the window every node is inside. -/
theorem contains_of_mem (hordered : ∀ s ∈ t.nodes, s.Ordered)
    (hin : window.contains t.start t.stop = true) (hs : s ∈ t.nodes) :
    window.contains s.start s.stop = true := by
  have hbounds := bounds_of_ordered hordered s hs
  rw [Extent.contains_iff] at hin ⊢
  omega

/-- Below a node that does not reach into the window no node does. -/
theorem not_overlaps_of_mem (hordered : ∀ s ∈ t.nodes, s.Ordered)
    (hout : ¬window.overlaps t.start t.stop = true) (hs : s ∈ t.nodes) :
    ¬window.overlaps s.start s.stop = true := by
  have hbounds := bounds_of_ordered hordered s hs
  rw [Extent.overlaps_iff] at hout ⊢
  omega

/-- A node that has bytes in the window reaches into it. -/
theorem overlaps_of_isInside (h : s.isInside window = true) :
    window.overlaps s.start s.stop = true := by
  rw [isInside, hasBytes, Bool.and_eq_true, decide_eq_true_eq, Extent.contains_iff] at h
  rw [Extent.overlaps_iff]
  omega

end Bounds

end RawTree

/-! ## What the pieces hold -/

/-- What the pieces that are lifted out of raw trees hold of them. -/
structure RawTree.Lifts (window : Extent) (ts : List RawTree) (ps : List Piece) : Prop where
  /-- the nodes with bytes that are lifted are those inside the window -/
  nodes : (ps.flatMap Piece.nodes).filter hasBytes = (nodesAll ts).filter (isInside window)
  /-- they are nested as in the raw trees -/
  nested : keepAll hasBytes (ps.flatMap Piece.raws) = keepAll (isInside window) ts
  /-- the bytes without a raw tree are those of the raw leaves across an edge -/
  parts : ps.filterMap Piece.bareExtent? =
    ((nodesAll ts).filter (isCut window)).map (overlap window)
  /-- a byte that no raw leaf covers is covered by no piece -/
  clear : ∀ offset, Uncovered ts offset → ∀ p ∈ ps, p.Clear offset

namespace RawTree

variable {window : Extent} {t : RawTree} {ts us : List RawTree} {ps qs : List Piece}

theorem Lifts.nil : Lifts window [] [] where
  nodes := rfl
  nested := rfl
  parts := rfl
  clear := by simp

theorem nodesAll_append (ts us : List RawTree) :
    nodesAll (ts ++ us) = nodesAll ts ++ nodesAll us := by
  induction ts with
  | nil => rfl
  | cons t ts ih => rw [List.cons_append, nodesAll, ih, nodesAll, List.append_assoc]

theorem Lifts.append (hts : Lifts window ts ps) (hus : Lifts window us qs) :
    Lifts window (ts ++ us) (ps ++ qs) where
  nodes := by
    rw [List.flatMap_append, List.filter_append, hts.nodes, hus.nodes, nodesAll_append,
      List.filter_append]
  nested := by
    rw [List.flatMap_append, keepAll_append, hts.nested, hus.nested, keepAll_append]
  parts := by
    rw [List.filterMap_append, hts.parts, hus.parts, nodesAll_append, List.filter_append,
      List.map_append]
  clear offset h := by
    rw [Uncovered, nodesAll_append, List.forall_mem_append] at h
    exact List.forall_mem_append.mpr ⟨hts.clear offset h.1, hus.clear offset h.2⟩

/-- A tree inside the window is lifted whole. -/
theorem Lifts.inside (hordered : ∀ s ∈ t.nodes, s.Ordered)
    (hin : window.contains t.start t.stop = true) : Lifts window [t] [.tree t] where
  nodes := by
    rw [nodesAll_singleton]
    refine (congrArg _ (List.append_nil _)).trans (List.filter_congr fun s hs => ?_)
    rw [isInside, contains_of_mem hordered hin hs, Bool.and_true]
  nested := by
    refine (keepAll_congr fun s hs => ?_ : keepAll hasBytes [t] = keepAll (isInside window) [t])
    rw [nodesAll_singleton] at hs
    rw [isInside, contains_of_mem hordered hin hs, Bool.and_true]
  parts := by
    rw [nodesAll_singleton, List.filter_eq_nil_iff.mpr fun s hs => ?_]
    · rfl
    · rw [isCut, contains_of_mem hordered hin hs, Bool.not_true, Bool.and_false]
      exact Bool.false_ne_true
  clear _ h := List.forall_mem_singleton.mpr h

/-- Nothing is lifted out of a tree outside the window. -/
theorem Lifts.outside (hordered : ∀ s ∈ t.nodes, s.Ordered)
    (hout : ¬window.overlaps t.start t.stop = true) : Lifts window [t] [] where
  nodes := by
    rw [nodesAll_singleton, eq_comm]
    refine List.filter_eq_nil_iff.mpr fun s hs hin => ?_
    exact not_overlaps_of_mem hordered hout hs (overlaps_of_isInside hin)
  nested := by
    rw [keepAll_singleton, eq_comm]
    refine keep_eq_nil fun s hs => Bool.eq_false_iff.mpr fun hin => ?_
    exact not_overlaps_of_mem hordered hout hs (overlaps_of_isInside hin)
  parts := by
    rw [nodesAll_singleton, List.filter_eq_nil_iff.mpr fun s hs hcut => ?_]
    · rfl
    · rw [isCut, Bool.and_eq_true, Bool.and_eq_true] at hcut
      exact not_overlaps_of_mem hordered hout hs hcut.1.2
  clear := by simp

/-- Of a raw leaf across an edge the part in the window is lifted. -/
theorem Lifts.cut (hleaf : t.isLeaf = true) (hin : ¬window.contains t.start t.stop = true)
    (hover : window.overlaps t.start t.stop = true) :
    Lifts window [t] [.bare (max t.start window.start) (min t.stop window.stop)] := by
  have hnone : t.children = [] := List.isEmpty_iff.mp hleaf
  have hinside : t.isInside window = false := by
    rw [isInside, Bool.eq_false_iff.mpr hin, Bool.and_false]
  have hcut : t.isCut window = true := by
    rw [isCut, hleaf, hover, Bool.eq_false_iff.mpr hin]
    rfl
  have hnodes : nodesAll [t] = [t] := by
    rw [nodesAll_singleton, nodes_eq, hnone, nodesAll]
  refine ⟨?_, ?_, ?_, fun offset h => List.forall_mem_singleton.mpr ?_⟩
  · rw [hnodes, List.filter_cons_of_neg (Bool.eq_false_iff.mp hinside)]
    rfl
  · rw [keepAll_singleton, keep_eq, if_neg (Bool.eq_false_iff.mp hinside), hnone]
    rfl
  · rw [hnodes, List.filter_cons_of_pos hcut]
    rfl
  · have hcovers := h t (by rw [hnodes]; exact List.mem_cons_self) hleaf
    rw [Extent.covers_eq_false_iff, extent] at hcovers
    rw [Piece.Clear, Extent.covers_eq_false_iff]
    dsimp only at hcovers ⊢
    omega

/-- A node across an edge that has children is opened. -/
theorem Lifts.opened (h : Lifts window t.children ps) (hleaf : t.isLeaf = false)
    (hin : ¬window.contains t.start t.stop = true) : Lifts window [t] ps := by
  have hinside : t.isInside window = false := by
    rw [isInside, Bool.eq_false_iff.mpr hin, Bool.and_false]
  have hcut : t.isCut window = false := by
    rw [isCut, hleaf, Bool.false_and, Bool.false_and]
  have hnodes : nodesAll [t] = t :: nodesAll t.children := by
    rw [nodesAll_singleton, nodes_eq]
  refine ⟨?_, ?_, ?_, fun offset huncovered => h.clear offset ?_⟩
  · rw [h.nodes, hnodes, List.filter_cons_of_neg (Bool.eq_false_iff.mp hinside)]
  · rw [h.nested, keepAll_singleton, keep_eq, if_neg (Bool.eq_false_iff.mp hinside)]
  · rw [h.parts, hnodes, List.filter_cons_of_neg (Bool.eq_false_iff.mp hcut)]
  · exact (uncovered_singleton hleaf).mp huncovered

mutual

/-- What is lifted out of a well-nested raw tree holds what the window has of it. -/
theorem lifts_piecesIn (window : Extent) : ∀ {t : RawTree}, (∀ s ∈ t.nodes, s.Ordered) →
    Lifts window [t] (t.piecesIn window)
  | ⟨kind, named, error, missing, troubled, start, stop, children⟩, hordered => by
    have hchildren := hordered
    rw [nodes, List.forall_mem_cons] at hchildren
    rw [piecesIn]
    by_cases hin : window.contains start stop = true
    · rw [if_pos hin]
      exact .inside hordered hin
    by_cases hover : window.overlaps start stop = true
    · rw [if_neg hin, if_pos hover]
      rcases children with _ | ⟨c, cs⟩
      · exact .cut rfl hin hover
      · exact .opened (lifts_piecesInAll window hchildren.2) rfl hin
    · rw [if_neg hin, if_neg hover]
      exact .outside hordered hover

/-- What is lifted out of well-nested raw trees holds what the window has of them. -/
theorem lifts_piecesInAll (window : Extent) : ∀ {ts : List RawTree},
    (∀ s ∈ nodesAll ts, s.Ordered) → Lifts window ts (piecesInAll window ts)
  | [], _ => .nil
  | t :: ts, hordered => by
    rw [nodesAll, List.forall_mem_append] at hordered
    rw [piecesInAll]
    exact (lifts_piecesIn window hordered.1).append (lifts_piecesInAll window hordered.2)

end

/-! ## The pieces in order -/

mutual

/-- What is lifted out of a well-nested raw tree is in order in what the window has of its
range. -/
theorem inOrder_piecesIn {window : Extent} (hle : window.start ≤ window.stop) :
    ∀ {t : RawTree}, (∀ s ∈ t.nodes, s.Ordered) →
      Piece.InOrder (max t.start window.start) (min t.stop window.stop) (t.piecesIn window)
  | ⟨kind, named, error, missing, troubled, start, stop, children⟩, hordered => by
    have hself := (hordered _ (self_mem_nodes _)).le
    have hchildren := Piece.inOrder_children hordered
    dsimp only at hself hchildren ⊢
    rw [piecesIn]
    by_cases hin : window.contains start stop = true
    · rw [if_pos hin]
      rw [Extent.contains_iff] at hin
      refine Piece.inOrder_cons.mpr ⟨⟨?_, hself, ?_, hordered⟩, .nil _ _⟩
      · exact Nat.max_le.mpr ⟨Nat.le_refl _, hin.1⟩
      · exact Nat.le_min.mpr ⟨Nat.le_refl _, hin.2⟩
    by_cases hover : window.overlaps start stop = true
    · rw [if_neg hin, if_pos hover]
      rw [Extent.overlaps_iff] at hover
      rcases children with _ | ⟨c, cs⟩
      · refine Piece.inOrder_cons.mpr ⟨⟨Nat.le_refl _, ?_, Nat.le_refl _, ?_⟩, .nil _ _⟩
        · dsimp only [Piece.extent]
          omega
        · simp [Piece.nodes]
      · exact inOrder_piecesInAll hle hchildren
    · rw [if_neg hin, if_neg hover]
      exact .nil _ _

/-- What is lifted out of raw trees in order is in order in what the window has of their
range. -/
theorem inOrder_piecesInAll {window : Extent} (hle : window.start ≤ window.stop) :
    ∀ {ts : List RawTree} {lo hi : Nat}, Piece.InOrder lo hi (ts.map .tree) →
      Piece.InOrder (max lo window.start) (min hi window.stop) (piecesInAll window ts)
  | [], _, _, _ => .nil _ _
  | t :: ts, lo, hi, h => by
    obtain ⟨⟨hlo, hself, hhi, hordered⟩, hts⟩ := Piece.inOrder_cons.mp h
    dsimp only [Piece.extent, extent] at hlo hself hhi hts
    have hfirst : Piece.InOrder (max lo window.start) (min t.stop window.stop)
        (t.piecesIn window) := (inOrder_piecesIn hle hordered).mono (by omega) (Nat.le_refl _)
    have hrest := inOrder_piecesInAll hle hts
    rw [piecesInAll]
    -- what is lifted out of the first tree ends where that of the others may start
    apply hfirst.append hrest
    · omega
    · omega
    · omega

end

/-! ## The pieces of a fragment -/

theorem fragmentPieces_eq (t : RawTree) (window : Extent) :
    t.fragmentPieces window = piecesInAll window t.belowRoot := by
  rw [fragmentPieces, belowRoot]
  split
  · rw [piecesInAll, piecesInAll, List.append_nil]
  · rfl

/-- The trace of what is below the root of a fragment's tree. -/
def fragmentTrace (t : RawTree) (rule : PatternRule) (fragment : Bytes) : List Traced :=
  let window := rule.window fragment
  (Lowering.wrapped rule fragment).tracePieces (t.fragmentPieces window) window.start window.stop

/-- Forgetting the trace gives the children of the root. -/
theorem nodeAll_fragmentTrace (t : RawTree) (rule : PatternRule) (fragment : Bytes) :
    Traced.nodeAll (t.fragmentTrace rule fragment) =
      (FragmentParse.ofTree rule fragment t).root.children :=
  Lowering.nodeAll_tracePieces _ _ _ _

variable {rule : PatternRule} {fragment : Bytes}

/-- Every node of the trace is as what it was made for demands. -/
theorem made_fragmentTrace :
    ∀ x ∈ Traced.walkAll (t.fragmentTrace rule fragment),
      (Lowering.wrapped rule fragment).Made (rule.window fragment).start
        (rule.window fragment).stop x :=
  Lowering.made_tracePieces _ (Lowering.admits_wrapped rule fragment).le

/-- The pieces of a fragment are in order in the window. -/
theorem inOrder_fragmentPieces (h : t.WellNested (rule.wrap fragment).length) :
    Piece.InOrder (rule.window fragment).start (rule.window fragment).stop
      (t.fragmentPieces (rule.window fragment)) := by
  have hle := (Lowering.admits_wrapped rule fragment).le
  have horder := inOrder_piecesInAll hle (Piece.inOrder_belowRoot h)
  rw [fragmentPieces_eq]
  exact horder.mono (Nat.le_max_right _ _) (Nat.min_le_right _ _)

/-- The pieces of a fragment hold what the window has of the raw tree. -/
theorem lifts_fragmentPieces (h : t.WellNested (rule.wrap fragment).length) :
    Lifts (rule.window fragment) t.belowRoot (t.fragmentPieces (rule.window fragment)) := by
  rw [fragmentPieces_eq]
  exact lifts_piecesInAll _ (ordered_belowRoot h.ordered)

end RawTree

/-- Between the texts of a wrapper stands the fragment. -/
theorem PatternRule.slice_wrap (rule : PatternRule) (fragment : Bytes) {start stop : Nat}
    (hstart : rule.shift ≤ start) (hle : start ≤ stop)
    (hstop : stop ≤ (rule.window fragment).stop) :
    (rule.wrap fragment).slice start stop =
      fragment.slice (start - rule.shift) (stop - rule.shift) := by
  have hbefore : (Utf8.encode rule.before).length = rule.shift := rfl
  have hstop : stop ≤ rule.shift + fragment.length := hstop
  have hlength : stop - start = stop - rule.shift - (start - rule.shift) := by omega
  rw [Bytes.slice, Bytes.slice, wrap, List.append_assoc, List.drop_append, hbefore,
    List.drop_eq_nil_of_le (hbefore ▸ hstart), List.nil_append,
    List.drop_append_of_le_length (by omega), hlength, List.take_append_of_le_length]
  rw [List.length_drop]
  omega

/-- What is inserted into a fragment's tree is a leaf over some bytes of the fragment, white
space if they are blank, and else an error. -/
theorem RawTree.inserted_fragmentTrace {t : RawTree} {rule : PatternRule} {fragment : Bytes}
    {x : Traced} (hx : x ∈ Traced.walkAll (t.fragmentTrace rule fragment))
    (hgap : x.isGap = true) :
    x.children = [] ∧ x.span.start < x.span.stop ∧
      x.kind =
        if (fragment.slice x.span.start x.span.stop).all Byte.isSpace then .trivia else .error := by
  obtain ⟨e, hstart, hlt, hstop, rfl⟩ := (made_fragmentTrace x hx).gap hgap
  have hslice := rule.slice_wrap fragment hstart (Nat.le_of_lt hlt) hstop
  rw [Lowering.span_ofLeaf_gapLeaf]
  refine ⟨rfl, Nat.sub_lt_sub_right hstart hlt, ?_⟩
  exact (Lowering.kind_gapLeaf _ e).trans (congrArg (fun bytes : Bytes =>
    if bytes.all Byte.isSpace then NodeKind.trivia else .error) hslice)

namespace Traced

/-- A trace below the root of a fragment's tree has what the window has of the raw tree
that the fragment was lifted out of. -/
structure Lifted (below : List Traced) (rule : PatternRule) (fragment : Bytes) (t : RawTree) :
    Prop where
  /-- of the raw nodes with bytes a walk meets those inside the window, each once, in order -/
  nodes : ((walkAll below).filterMap raw?).filter RawTree.hasBytes =
    (RawTree.nodesAll t.belowRoot).filter (RawTree.isInside (rule.window fragment))
  /-- they are nested as in the raw tree -/
  nested : RawTree.keepAll RawTree.hasBytes (rawsAll below) =
    RawTree.keepAll (RawTree.isInside (rule.window fragment)) t.belowRoot
  /-- each raw node is shown as what it is -/
  flags : FlagsKept below
  /-- a raw node has its own range, counted from the start of the fragment -/
  ranges : ∀ x ∈ walkAll below, ∀ s, x.raw? = some s →
    x.span = .ofRange (.ofBytes fragment) (s.start - rule.shift) (s.stop - rule.shift)
  /-- each raw leaf across an edge of the window gives an error leaf over its part in it -/
  parts : nodeAll ((walkAll below).filter isPart) =
    ((RawTree.nodesAll t.belowRoot).filter (RawTree.isCut (rule.window fragment))).map fun s =>
      .leaf .error true (.ofRange (.ofBytes fragment)
        (max s.start (rule.window fragment).start - rule.shift)
        (min s.stop (rule.window fragment).stop - rule.shift))
  /-- a byte of the window that no raw leaf covers lies in an inserted leaf -/
  uncovered : ∀ offset, (rule.window fragment).covers offset = true →
    RawTree.Uncovered t.belowRoot offset → GapAt below (offset - rule.shift)
  /-- an inserted leaf is white space if its bytes are blank, and else an error -/
  inserted : ∀ x ∈ walkAll below, x.isGap = true → x.children = [] ∧
    x.kind = if (fragment.slice x.span.start x.span.stop).all Byte.isSpace then .trivia else .error

end Traced

theorem RawTree.lifted_fragmentTrace {t : RawTree} {rule : PatternRule} {fragment : Bytes}
    (h : t.WellNested (rule.wrap fragment).length) :
    Traced.Lifted (t.fragmentTrace rule fragment) rule fragment t where
  nodes := by
    rw [fragmentTrace, Lowering.filterMap_walkAll_tracePieces]
    exact (lifts_fragmentPieces h).nodes
  nested := by
    rw [fragmentTrace, Lowering.rawsAll_tracePieces]
    exact (lifts_fragmentPieces h).nested
  flags x hx s hs := (made_fragmentTrace x hx).raw s hs
  ranges x hx s hs := (Lowering.exact_tracePieces (inOrder_fragmentPieces h) x hx).span s hs
  parts := by
    rw [fragmentTrace, Lowering.filter_isPart_tracePieces (inOrder_fragmentPieces h),
      (lifts_fragmentPieces h).parts, List.map_map]
    rfl
  uncovered offset hcovers huncovered := by
    have hcovers := Extent.covers_iff.mp hcovers
    have hshift : offset - rule.shift + (Lowering.wrapped rule fragment).shift = offset :=
      Nat.sub_add_cancel hcovers.1
    apply (Lowering.gapAt_tracePieces (inOrder_fragmentPieces h)).mpr
    rw [hshift]
    exact ⟨hcovers, (lifts_fragmentPieces h).clear offset huncovered⟩
  inserted x hx hgap := by
    obtain ⟨hleaf, -, hkind⟩ := inserted_fragmentTrace hx hgap
    exact ⟨hleaf, hkind⟩

/-- The raw tree for `('a)`, a string that is not closed, so that the bracket behind it
belongs to its contents. -/
def openString : RawTree :=
  ⟨"module", true, false, false, true, 0, 4,
    [⟨"ERROR", true, true, false, true, 0, 4,
      [⟨"(", false, false, false, false, 0, 1, []⟩,
        ⟨"string_start", false, false, false, false, 1, 2, []⟩,
        ⟨"string_content", true, false, false, false, 2, 4, []⟩]⟩]⟩

namespace FragmentParse

/-- **Lifting a fragment out of its wrapper loses and repeats nothing.** A well-nested raw
tree for the wrapped buffer gives a tree whose nodes below the root are the raw nodes that
lie in the window, with error leaves for the parts of raw leaves across its edges, and
inserted leaves over what no raw leaf covers. -/
theorem ofRaw_lifted (rule : PatternRule) (fragment : Bytes) {t : RawTree}
    (h : t.WellNested (rule.wrap fragment).length) :
    ∃ parse, ofRaw rule fragment t = .ok parse ∧
      parse.root.children = Traced.nodeAll (t.fragmentTrace rule fragment) ∧
      Traced.Lifted (t.fragmentTrace rule fragment) rule fragment t :=
  ⟨ofTree rule fragment t, ofRaw_eq rule fragment t, (t.nodeAll_fragmentTrace rule fragment).symm,
    RawTree.lifted_fragmentTrace h⟩

/-- Of the string that is not closed its start is lifted, and its contents are cut. -/
theorem ofRaw_lifted_openString :
    ∃ rule fragment parse, openString.WellNested (PatternRule.wrap rule fragment).length ∧
      ofRaw rule fragment openString = .ok parse ∧
      Traced.Lifted (openString.fragmentTrace rule fragment) rule fragment openString ∧
      (Traced.walkAll (openString.fragmentTrace rule fragment)).map
        (fun x => (x.kind, x.span.start, x.span.stop)) =
          [(.symbol "string_start", 0, 1), (.error, 1, 2)] := by
  let rule : PatternRule := ⟨"expression", .expression, "(", ")"⟩
  have hnested : openString.WellNested (rule.wrap (Utf8.encode "'a")).length := by decide
  obtain ⟨parse, hparse, -, hlifted⟩ := ofRaw_lifted rule (Utf8.encode "'a") hnested
  exact ⟨rule, Utf8.encode "'a", parse, hnested, hparse, hlifted, by decide⟩

end FragmentParse

end SpanTree

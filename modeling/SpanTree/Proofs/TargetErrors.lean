import SpanTree.Proofs.TargetTrace

/-!
# The errors that a target tree reports

A well-nested raw tree has errors of two kinds. Some of its nodes are errors or missing
tokens, and these stay what they are in the tree. And there may be bytes that are not
white space and that no raw leaf covers: these are the bytes of inserted leaves
(`gapAt_tracePieces`), and an inserted leaf is an error exactly if there is such a byte in
it (`isErrorRecovery_gapLeaf`). So the tree reports an error exactly if there is one
(`ofTarget_hasErrors_iff`). The flags by which the parser announces errors are not looked
at (`ofTarget_untroubled`).
-/

namespace SpanTree

namespace Lowering

variable {l : Lowering}

/-- An inserted leaf that stands for an error is of that kind. -/
theorem isErrorRecovery_gapLeaf {e : Extent} :
    (l.gapLeaf e).isErrorRecovery = true ↔ (l.gapLeaf e).kind = .error := by
  rw [gapLeaf]
  split
  · exact iff_of_false Bool.false_ne_true NodeKind.noConfusion
  · exact iff_of_true rfl rfl

/-- An inserted leaf is an error exactly if there is a byte in it that is no white space. -/
theorem kind_gapLeaf_eq_error_iff {e : Extent} :
    (l.gapLeaf e).kind = .error ↔
      ∃ i b, e.covers i = true ∧ l.source[i]? = some b ∧ Byte.isSpace b = false := by
  have hkind : (l.gapLeaf e).kind = .error ↔
      (l.source.slice e.start e.stop).all Byte.isSpace = false := by
    rw [kind_gapLeaf]
    cases (l.source.slice e.start e.stop).all Byte.isSpace with
    | true => exact iff_of_false NodeKind.noConfusion Bool.noConfusion
    | false => exact iff_of_true rfl rfl
  rw [hkind, List.all_eq_false]
  constructor
  · rintro ⟨b, hb, hspace⟩
    obtain ⟨i, hstart, hstop, hi⟩ := Bytes.mem_slice.mp hb
    exact ⟨i, b, Extent.covers_iff.mpr ⟨hstart, hstop⟩, hi, Bool.eq_false_iff.mpr hspace⟩
  · rintro ⟨i, b, hcovers, hi, hspace⟩
    obtain ⟨hstart, hstop⟩ := Extent.covers_iff.mp hcovers
    exact ⟨b, Bytes.mem_slice.mpr ⟨i, hstart, hstop, hi⟩, Bool.eq_false_iff.mp hspace⟩

end Lowering

namespace RawTree

/-- A byte of the source that is no white space and that no raw leaf covers. The root is
not counted as a leaf, unless it is an error. -/
def Stray (t : RawTree) (source : Bytes) (offset : Nat) : Prop :=
  (∃ b, source[offset]? = some b ∧ Byte.isSpace b = false) ∧ Uncovered t.belowRoot offset

/-- There is an error or a missing token below the root of a target tree exactly if the
raw tree has an error, or a missing token that is not its root. -/
theorem exists_belowRoot_iff {t : RawTree} :
    (∃ s ∈ nodesAll t.belowRoot, s.isErrorRecovery = true) ↔
      (∃ s ∈ t.nodes, s.error = true) ∨ ∃ s ∈ nodesAll t.children, s.missing = true := by
  simp only [isErrorRecovery, Bool.or_eq_true]
  by_cases herror : t.error = true
  · refine iff_of_true ⟨t, ?_, .inl herror⟩ (.inl ⟨t, t.self_mem_nodes, herror⟩)
    rw [belowRoot, if_pos herror, nodesAll_singleton]
    exact t.self_mem_nodes
  · rw [belowRoot, if_neg herror, nodes_eq]
    simp only [List.mem_cons, exists_eq_or_imp, herror, Bool.false_eq_true, false_or, and_or_left,
      exists_or]

mutual

/-- The tree without what the parser announced of errors at or below its nodes. -/
def untroubled : RawTree → RawTree
  | ⟨kind, named, error, missing, _, start, stop, children⟩ =>
    ⟨kind, named, error, missing, false, start, stop, untroubledAll children⟩

/-- The trees without these flags. -/
def untroubledAll : List RawTree → List RawTree
  | [] => []
  | t :: ts => untroubled t :: untroubledAll ts

end

end RawTree

namespace Lowering

mutual

/-- Lowering a raw tree does not look at what the parser announced. -/
theorem cover_untroubled (l : Lowering) : ∀ (t : RawTree) (lo hi : Nat),
    l.cover t.untroubled lo hi = l.cover t lo hi
  | ⟨kind, named, error, missing, troubled, start, stop, children⟩, lo, hi => by
    rw [RawTree.untroubled, cover, cover]
    rcases children with _ | ⟨c, cs⟩
    · rfl
    · exact congrArg (Node.mk _ _ _) (l.coverAll_untroubled (c :: cs) _ _)

theorem coverAll_untroubled (l : Lowering) : ∀ (ts : List RawTree) (cursor stop : Nat),
    l.coverAll (RawTree.untroubledAll ts) cursor stop = l.coverAll ts cursor stop
  | [], _, _ => rfl
  | t :: ts, cursor, stop => by
    have hextent : t.untroubled.extent = t.extent := by
      cases t
      rfl
    rw [RawTree.untroubledAll, coverAll, coverAll, l.cover_untroubled t, hextent,
      l.coverAll_untroubled ts]

end

end Lowering

/-- The root of a target tree does not depend on what the parser announced. -/
theorem RawTree.targetRoot_untroubled (t : RawTree) (g : Grammar) (source : Bytes) :
    t.untroubled.targetRoot g source = t.targetRoot g source := by
  have hkind : t.untroubled.rootKind g = t.rootKind g := by
    cases t
    rfl
  have hbelow : t.untroubled.belowRoot = untroubledAll t.belowRoot := by
    obtain ⟨kind, named, _ | _, missing, troubled, start, stop, children⟩ := t <;> rfl
  rw [targetRoot, targetRoot, hkind, hbelow, Lowering.coverAll_untroubled]

namespace SyntaxTree

/-- Raw trees that agree but for what the parser announced give the same target tree. -/
theorem ofTarget_untroubled {g : Grammar} {language : LanguageId} {source : Bytes}
    {t t' : RawTree} (h : t'.untroubled = t.untroubled) :
    ofTarget g language source t' = ofTarget g language source t := by
  rw [ofTarget_eq, ofTarget_eq, ← t'.targetRoot_untroubled, h, t.targetRoot_untroubled]

/-- A target tree reports an error exactly if its trace has an error node. -/
theorem hasErrors_targetRoot {t : RawTree} {g : Grammar} {language : LanguageId}
    {source : Bytes} :
    (SyntaxTree.mk language (t.targetRoot g source) source).hasErrors = true ↔
      ∃ x ∈ Traced.walkAll (t.targetTrace source), x.node.isErrorRecovery = true := by
  have hroot : (t.targetRoot g source).isErrorRecovery = false := rfl
  rw [hasErrors, Node.walk_eq, ← t.nodeAll_targetTrace g source, Traced.walk_nodeAll,
    List.any_cons, hroot, Bool.false_or, List.any_map, List.any_eq_true]
  rfl

end SyntaxTree

namespace RawTree

variable {t : RawTree} {source : Bytes}

/-- A node that was made for a raw node stands for an error exactly if the raw node does. -/
theorem isErrorRecovery_of_raw? {x : Traced} (hx : x ∈ Traced.walkAll (t.targetTrace source))
    {s : RawTree} (h : x.raw? = some s) : x.node.isErrorRecovery = s.isErrorRecovery := by
  refine Lowering.isErrorRecovery_of_kind ?_
  rw [Traced.node_eq]
  exact ((made_targetTrace x hx).raw s h).1

/-- A byte of the source is in an inserted leaf exactly if no raw leaf covers it. -/
theorem gapAt_targetTrace (h : t.WellNested source.length) {offset : Nat} :
    Traced.GapAt (t.targetTrace source) offset ↔
      offset < source.length ∧ Uncovered t.belowRoot offset := by
  have hgap : Traced.GapAt (t.targetTrace source) offset ↔ _ :=
    Lowering.gapAt_tracePieces (Piece.inOrder_belowRoot h)
  rw [Piece.clear_trees] at hgap
  exact hgap.trans (and_congr_left' (and_iff_right (Nat.zero_le _)))

/-- An inserted leaf that is an error has a stray byte in it. -/
theorem exists_stray_of_gap (h : t.WellNested source.length) {x : Traced}
    (hx : x ∈ Traced.walkAll (t.targetTrace source)) (hgap : x.isGap = true)
    (herror : x.node.isErrorRecovery = true) : ∃ offset, t.Stray source offset := by
  obtain ⟨e, -, -, -, rfl⟩ := (made_targetTrace x hx).gap hgap
  rw [Traced.node_ofLeaf _ (Lowering.children_gapLeaf _ e), Lowering.isErrorRecovery_gapLeaf,
    Lowering.kind_gapLeaf_eq_error_iff] at herror
  obtain ⟨i, b, hcovers, hi, hspace⟩ := herror
  have hat : Traced.GapAt (t.targetTrace source) i := by
    refine ⟨_, hx, hgap, ?_⟩
    rw [Lowering.span_ofLeaf_gapLeaf, Lowering.containsOffset_spanOf]
    exact hcovers
  exact ⟨i, ⟨b, hi, hspace⟩, ((gapAt_targetTrace h).mp hat).2⟩

/-- A stray byte lies in an inserted leaf, which is an error. -/
theorem exists_gap_of_stray (h : t.WellNested source.length) {offset : Nat}
    (hstray : t.Stray source offset) :
    ∃ x ∈ Traced.walkAll (t.targetTrace source), x.node.isLeaf = true ∧ x.node.kind = .error ∧
      x.node.span.containsOffset offset = true := by
  obtain ⟨⟨b, hb, hspace⟩, huncovered⟩ := hstray
  have hlt : offset < source.length := (List.getElem?_eq_some_iff.mp hb).1
  obtain ⟨x, hx, hgap, hcontains⟩ := (gapAt_targetTrace h).mpr ⟨hlt, huncovered⟩
  obtain ⟨e, -, -, -, rfl⟩ := (made_targetTrace x hx).gap hgap
  refine ⟨_, hx, rfl, ?_, hcontains⟩
  rw [Lowering.span_ofLeaf_gapLeaf, Lowering.containsOffset_spanOf] at hcontains
  exact Lowering.kind_gapLeaf_eq_error_iff.mpr ⟨offset, b, hcontains, hb, hspace⟩

end RawTree

namespace SyntaxTree

/-- **A target tree reports an error exactly when there is one**: an error or a missing
token in a well-nested raw tree, or a byte that is no white space and that no raw leaf
covers. Each such byte lies in a leaf that is an error. What the parser announced of
errors has no influence. -/
theorem ofTarget_hasErrors_iff (g : Grammar) (language : LanguageId) {source : Bytes}
    {t : RawTree} (h : t.WellNested source.length) :
    ∃ tree, ofTarget g language source t = .ok tree ∧
      (tree.hasErrors = true ↔
        ((∃ s ∈ t.nodes, s.error = true) ∨ ∃ s ∈ RawTree.nodesAll t.children, s.missing = true) ∨
          ∃ offset, t.Stray source offset) ∧
      (∀ offset, t.Stray source offset →
        ∃ n ∈ tree.leaves, n.kind = .error ∧ n.span.containsOffset offset = true) ∧
      ∀ t' : RawTree, t'.untroubled = t.untroubled → ofTarget g language source t' = .ok tree := by
  have heq := ofTarget_eq g language source t
  have hraws : (Traced.walkAll (t.targetTrace source)).filterMap Traced.raw? =
      RawTree.nodesAll t.belowRoot := by
    rw [RawTree.targetTrace, Lowering.tracePieces_trees, Lowering.filterMap_walkAll_traceAll]
  refine ⟨_, heq, ?_, fun offset hstray => ?_, fun t' ht' => (ofTarget_untroubled ht').trans heq⟩
  · rw [hasErrors_targetRoot, ← RawTree.exists_belowRoot_iff, ← hraws]
    constructor
    · rintro ⟨x, hx, herror⟩
      rcases hraw : x.raw? with _ | s
      · have hgap := RawTree.isGap_of_raw?_eq_none hx hraw
        exact .inr (RawTree.exists_stray_of_gap h hx hgap herror)
      · rw [RawTree.isErrorRecovery_of_raw? hx hraw] at herror
        exact .inl ⟨s, List.mem_filterMap.mpr ⟨x, hx, hraw⟩, herror⟩
    · rintro (⟨s, hs, herror⟩ | ⟨offset, hstray⟩)
      · obtain ⟨x, hx, hraw⟩ := List.mem_filterMap.mp hs
        rw [← RawTree.isErrorRecovery_of_raw? hx hraw] at herror
        exact ⟨x, hx, herror⟩
      · obtain ⟨x, hx, -, hkind, -⟩ := RawTree.exists_gap_of_stray h hstray
        refine ⟨x, hx, ?_⟩
        rw [Node.isErrorRecovery, hkind]
  · obtain ⟨x, hx, hleaf, hkind, hcontains⟩ := RawTree.exists_gap_of_stray h hstray
    refine ⟨x.node, List.mem_filter.mpr ⟨?_, hleaf⟩, hkind, hcontains⟩
    rw [Node.walk_eq, ← t.nodeAll_targetTrace g source, Traced.walk_nodeAll]
    exact List.mem_cons_of_mem _ (List.mem_map_of_mem hx)

/-- The broken assignment reports errors, for it has a missing token and a stray byte. -/
theorem ofTarget_hasErrors_iff_brokenAssignment :
    ∃ g tree, Grammar.javascript = .ok g ∧
      brokenAssignment.WellNested (Utf8.encode "x = ;@").length ∧
      ofTarget g ⟨"javascript"⟩ (Utf8.encode "x = ;@") brokenAssignment = .ok tree ∧
      tree.hasErrors = true ∧ brokenAssignment.Stray (Utf8.encode "x = ;@") 5 ∧
      ∃ n ∈ tree.leaves, n.kind = .error ∧ n.span.containsOffset 5 = true := by
  have hnested : brokenAssignment.WellNested (Utf8.encode "x = ;@").length := by decide
  have hstray : brokenAssignment.Stray (Utf8.encode "x = ;@") 5 := by
    refine ⟨⟨64, by decide, by decide⟩, ?_⟩
    unfold RawTree.Uncovered
    decide
  obtain ⟨g, hg⟩ : ∃ g, Grammar.javascript = .ok g := ⟨_, rfl⟩
  obtain ⟨tree, htree, hiff, hleaf, -⟩ := ofTarget_hasErrors_iff g ⟨"javascript"⟩ hnested
  exact ⟨g, tree, hg, hnested, htree, hiff.mpr (.inr ⟨5, hstray⟩), hstray, hleaf 5 hstray⟩

end SyntaxTree

end SpanTree

import SpanTree.Grammar.Builtin
import SpanTree.Proofs.Exactness
import SpanTree.Proofs.Target

/-!
# Target trees keep their raw trees

The tree of a target loses nothing of the raw tree it was lowered from, and moves and
invents nothing in it. If the leaves that were inserted for uncovered bytes are deleted,
what remains below the root is the raw tree, node by node, with the kinds and the name
flags that its own flags ask for. If the raw tree is well-nested the ranges are those of
the raw tree too, and the inserted leaves are known: one for each stretch that the
children of a node, or of the root, leave over (`ofTarget_faithful`).
-/

namespace SpanTree

/-- The trace of what is below the root of a target tree. -/
def RawTree.targetTrace (t : RawTree) (source : Bytes) : List Traced :=
  (Lowering.whole source).tracePieces (t.belowRoot.map .tree) 0 source.length

/-- Forgetting the trace gives the children of the root. -/
theorem RawTree.nodeAll_targetTrace (t : RawTree) (g : Grammar) (source : Bytes) :
    Traced.nodeAll (t.targetTrace source) = (t.targetRoot g source).children := by
  rw [targetTrace, Lowering.tracePieces_trees, Lowering.nodeAll_traceAll, targetRoot]

/-- Every node of the trace is as what it was made for demands. -/
theorem RawTree.made_targetTrace {t : RawTree} {source : Bytes} :
    ∀ x ∈ Traced.walkAll (t.targetTrace source), (Lowering.whole source).Made 0 source.length x :=
  Lowering.made_tracePieces _ (Nat.zero_le _)

/-- Where raw trees are lowered whole, a node that was not made for a raw node was made
for bytes that none covers. -/
theorem RawTree.isGap_of_raw?_eq_none {t : RawTree} {source : Bytes} {x : Traced}
    (hx : x ∈ Traced.walkAll (t.targetTrace source)) (h : x.raw? = none) : x.isGap = true := by
  have hpart : x.isPart = false := by
    rw [targetTrace, Lowering.tracePieces_trees] at hx
    have hnone := (Lowering.whole source).filter_isPart_traceAll t.belowRoot 0 source.length
    exact Bool.eq_false_iff.mpr (List.filter_eq_nil_iff.mp hnone x hx)
  obtain ⟨_ | _ | _, kind, named, span, children⟩ := x
  · cases h
  · cases hpart
  · rfl

namespace Traced

/-- A trace holds raw trees and, besides them, inserted leaves alone. -/
structure Faithful (below : List Traced) (ts : List RawTree) : Prop where
  /-- without the inserted leaves the raw trees remain -/
  raws : rawsAll below = ts
  /-- each raw node is shown as what it is -/
  flags : FlagsKept below
  /-- what was not made for a raw node is a leaf, and was made for bytes none covers -/
  inserted : ∀ x ∈ walkAll below, x.raw? = none → x.isGap = true ∧ x.children = []

/-- A trace has the ranges of raw trees in a source, and the inserted leaves are those for
the stretches that they leave over. -/
structure FaithfulRanges (below : List Traced) (ts : List RawTree) (source : Bytes) : Prop where
  /-- a raw node keeps its range -/
  ranges : ∀ x ∈ walkAll below, ∀ s, x.raw? = some s →
    x.span = .ofRange (.ofBytes source) s.start s.stop
  /-- the leaves that are inserted around the raw trees -/
  around : insertions below =
    (RawTree.stretches 0 source.length ts).map (Lowering.whole source).gapLeaf
  /-- the leaves that are inserted below a raw node -/
  between : ∀ x ∈ walkAll below, ∀ s, x.raw? = some s →
    insertions x.children = s.ownStretches.map (Lowering.whole source).gapLeaf

end Traced

theorem RawTree.faithful_targetTrace (t : RawTree) (source : Bytes) :
    Traced.Faithful (t.targetTrace source) t.belowRoot where
  raws := by
    rw [targetTrace, Lowering.tracePieces_trees, Lowering.rawsAll_traceAll]
  flags x hx s hs := (made_targetTrace x hx).raw s hs
  inserted x hx hnone := by
    have hgap := isGap_of_raw?_eq_none hx hnone
    obtain ⟨e, -, -, -, rfl⟩ := (made_targetTrace x hx).gap hgap
    exact ⟨rfl, rfl⟩

theorem RawTree.faithfulRanges_targetTrace {t : RawTree} {source : Bytes}
    (h : t.WellNested source.length) :
    Traced.FaithfulRanges (t.targetTrace source) t.belowRoot source where
  ranges x hx s hs :=
    (Lowering.exact_tracePieces (Piece.inOrder_belowRoot h) x hx).span s hs
  around := by
    rw [targetTrace, Lowering.tracePieces_trees]
    exact Lowering.insertions_traceAll (Piece.inOrder_belowRoot h)
  between x hx s hs :=
    (Lowering.exact_tracePieces (Piece.inOrder_belowRoot h) x hx).insertions s hs

/-- A target tree has no placeholders and no root of a pattern. -/
theorem RawTree.isPlain_targetRoot (t : RawTree) (g : Grammar) (source : Bytes) :
    ∀ n ∈ (t.targetRoot g source).walk, n.kind.isPlain = true :=
  Node.forall_mem_walk.mpr ⟨rfl, Lowering.isPlain_coverAll _ _ _⟩

/-- The raw tree for `x = ;@`, an assignment whose right side the parser had to assume. The
last byte fits nowhere, and the root does not reach it. -/
def brokenAssignment : RawTree :=
  ⟨"program", true, false, false, true, 0, 5,
    [⟨"assignment", true, false, false, true, 0, 4,
        [⟨"identifier", true, false, false, false, 0, 1, []⟩,
          ⟨"=", false, false, false, false, 2, 3, []⟩,
          ⟨"identifier", true, false, true, false, 4, 4, []⟩]⟩,
      ⟨";", false, false, false, false, 4, 5, []⟩]⟩

namespace SyntaxTree

/-- **Lowering a target loses, invents and moves nothing.** Every source and every raw
tree give a tree whose nodes below the root are the raw nodes, with inserted leaves
between them; in a well-nested raw tree they have their own ranges, and the leaves are
those for the bytes that the children of a node or of the root leave over. -/
theorem ofTarget_faithful (g : Grammar) (language : LanguageId) (source : Bytes) (t : RawTree) :
    ∃ tree, ofTarget g language source t = .ok tree ∧
      tree.root.children = Traced.nodeAll (t.targetTrace source) ∧
      Traced.Faithful (t.targetTrace source) t.belowRoot ∧
      (∀ n ∈ tree.root.walk, n.kind.isPlain = true) ∧
      (t.WellNested source.length →
        Traced.FaithfulRanges (t.targetTrace source) t.belowRoot source) :=
  ⟨_, ofTarget_eq g language source t, (t.nodeAll_targetTrace g source).symm,
    t.faithful_targetTrace source, t.isPlain_targetRoot g source,
    RawTree.faithfulRanges_targetTrace⟩

/-- The broken assignment keeps its ranges. -/
theorem ofTarget_faithful_brokenAssignment :
    ∃ g tree, Grammar.javascript = .ok g ∧
      brokenAssignment.WellNested (Utf8.encode "x = ;@").length ∧
      ofTarget g ⟨"javascript"⟩ (Utf8.encode "x = ;@") brokenAssignment = .ok tree ∧
      tree.root.children = Traced.nodeAll (brokenAssignment.targetTrace (Utf8.encode "x = ;@")) ∧
      Traced.Faithful (brokenAssignment.targetTrace (Utf8.encode "x = ;@"))
        brokenAssignment.children ∧
      Traced.FaithfulRanges (brokenAssignment.targetTrace (Utf8.encode "x = ;@"))
        brokenAssignment.children (Utf8.encode "x = ;@") := by
  have hnested : brokenAssignment.WellNested (Utf8.encode "x = ;@").length := by decide
  obtain ⟨g, hg⟩ : ∃ g, Grammar.javascript = .ok g := ⟨_, rfl⟩
  obtain ⟨tree, htree, hchildren, hfaithful, -, hranges⟩ :=
    ofTarget_faithful g ⟨"javascript"⟩ (Utf8.encode "x = ;@") brokenAssignment
  exact ⟨g, tree, hg, hnested, htree, hchildren, hfaithful, hranges hnested⟩

end SyntaxTree

end SpanTree

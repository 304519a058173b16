import SpanTree.Proofs.Covering
import SpanTree.Target

/-!
# Target trees account for their source

Whatever the parser returned for a source, a tree is made of it: the arithmetic on the
way meets no fault (`ofTarget_eq`), and the tree is span-complete
(`ofTarget_spanComplete`).
-/

namespace SpanTree

/-- The lowering of a whole source, which is its own output buffer. -/
def Lowering.whole (source : Bytes) : Lowering :=
  { source, index := LineIndex.ofBytes source, shift := 0 }

theorem Lowering.admits_whole (source : Bytes) : (whole source).Admits 0 source.length where
  shift_le := Nat.le_refl _
  le := Nat.zero_le _
  stop_le := Nat.le_refl _

/-- The root of the target tree that a raw tree is lowered to. -/
def RawTree.targetRoot (t : RawTree) (g : Grammar) (source : Bytes) : Node :=
  { kind := t.rootKind g
    named := true
    span := (Lowering.whole source).spanOf ⟨0, source.length⟩
    children := (Lowering.whole source).coverAll t.belowRoot 0 source.length }

/-- The children of the root tile the source. -/
theorem RawTree.tiled_targetRoot (t : RawTree) (g : Grammar) (source : Bytes) :
    (t.targetRoot g source).Tiled :=
  (Lowering.tiles_coverAll t.belowRoot 0 source.length (Nat.zero_le _)).tiled_node

namespace SyntaxTree

/-- Making a target tree meets no fault. -/
theorem ofTarget_eq (g : Grammar) (language : LanguageId) (source : Bytes) (t : RawTree) :
    ofTarget g language source t = .ok ⟨language, t.targetRoot g source, source⟩ := by
  have hadmits := Lowering.admits_whole source
  have hspan := hadmits.span_eq
  have hchildren := Lowering.nodes_eq_coverAll t.belowRoot 0 source.length hadmits
  rw [← Lowering.assemble_trees] at hchildren
  rw [Lowering.whole] at hspan hchildren
  simp only [ofTarget, hspan, hchildren, ok_bind]
  rfl

/-- **Target trees are span-complete.** Every source and every raw tree, whatever its
offsets are, give a tree; its root covers the source, its nodes lie in their parents
and follow one another, and its leaves spell the source. -/
theorem ofTarget_spanComplete (g : Grammar) (language : LanguageId) (source : Bytes)
    (t : RawTree) :
    ∃ tree, ofTarget g language source t = .ok tree ∧ tree.source = source ∧
      tree.SpanComplete := by
  refine ⟨_, ofTarget_eq g language source t, rfl, spanComplete_of_tiled ?_ rfl rfl⟩
  exact t.tiled_targetRoot g source

end SyntaxTree

end SpanTree

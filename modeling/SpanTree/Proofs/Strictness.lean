import SpanTree.Grammar.Builtin
import SpanTree.Proofs.Pattern

/-!
# What a strict parse overlooks

A strict parse refuses a fragment if a node of its tree stands for an error. The error
count of a candidate is taken on the raw tree of the whole wrapped buffer. Nodes that lie
in the window are lifted as a whole, and their errors are seen by both. A node across an
edge of the window is opened and a node outside is dropped; if it is an error, or has one
below it, the error is counted but does not show in the tree (`errorsLeftOut`). So what a
strict parse accepts has no error counted exactly if none was left out
(`strict_errorCount_eq_zero_iff`), and it accepts fragments that have such errors
(`strict_accepts_looseBrackets`).
-/

namespace SpanTree

namespace RawTree

mutual

/-- The number of errors that are counted at or below a node, but not in what is lifted
out of it into the window. -/
def errorsOutside (window : Extent) : RawTree → Nat
  | ⟨kind, named, error, missing, troubled, start, stop, children⟩ =>
    if window.contains start stop then 0
    else if window.overlaps start stop then
      (if error || missing then 1 else 0) +
        (if troubled then errorsOutsideAll window children else 0)
    else errorCount ⟨kind, named, error, missing, troubled, start, stop, children⟩

/-- The same number for nodes taken together. -/
def errorsOutsideAll (window : Extent) : List RawTree → Nat
  | [] => 0
  | t :: ts => errorsOutside window t + errorsOutsideAll window ts

end

/-- The number of errors that are counted in a raw tree, but not in what is lifted out of
it as a fragment. The root itself is lifted only if it is an error. -/
def errorsLeftOut (t : RawTree) (window : Extent) : Nat :=
  if t.error then t.errorsOutside window
  else (if t.missing then 1 else 0) +
    (if t.troubled then errorsOutsideAll window t.children else 0)

/-! ## Errors counted and errors lifted -/

mutual

/-- If what is lifted out of a node has no errors, all of its errors are outside. -/
theorem errorCount_eq_errorsOutside (window : Extent) : ∀ t : RawTree,
    (∀ s, Piece.tree s ∈ t.piecesIn window → s.errorCount = 0) →
      t.errorCount = t.errorsOutside window
  | ⟨kind, named, error, missing, troubled, start, stop, children⟩, h => by
    rw [piecesIn] at h
    rw [errorsOutside]
    by_cases hin : window.contains start stop = true
    · rw [if_pos hin] at h ⊢
      exact h _ (List.mem_singleton_self _)
    by_cases hover : window.overlaps start stop = true
    · rw [if_neg hin, if_pos hover] at h ⊢
      -- a node without children is cut to the window, others are opened
      rcases children with _ | ⟨c, cs⟩
      · rw [errorCount, errorCountAll, errorsOutsideAll]
      · rw [errorCount, errorCountAll_eq_errorsOutsideAll window (c :: cs) h]
    · rw [if_neg hin, if_neg hover]

/-- If what is lifted out of nodes has no errors, all of their errors are outside. -/
theorem errorCountAll_eq_errorsOutsideAll (window : Extent) : ∀ ts : List RawTree,
    (∀ s, Piece.tree s ∈ piecesInAll window ts → s.errorCount = 0) →
      errorCountAll ts = errorsOutsideAll window ts
  | [], _ => by rw [errorCountAll, errorsOutsideAll]
  | t :: ts, h => by
    rw [piecesInAll] at h
    rw [errorCountAll, errorsOutsideAll,
      errorCount_eq_errorsOutside window t fun s hs => h s (List.mem_append_left _ hs),
      errorCountAll_eq_errorsOutsideAll window ts fun s hs => h s (List.mem_append_right _ hs)]

end

/-- If what is lifted as a fragment has no errors, all errors counted are left out. -/
theorem errorCount_eq_errorsLeftOut {t : RawTree} {window : Extent}
    (h : ∀ s, Piece.tree s ∈ t.fragmentPieces window → s.errorCount = 0) :
    t.errorCount = t.errorsLeftOut window := by
  rw [fragmentPieces] at h
  rw [errorsLeftOut]
  by_cases herror : t.error = true
  · rw [if_pos herror] at h ⊢
    exact errorCount_eq_errorsOutside window t h
  · rw [if_neg herror] at h ⊢
    obtain ⟨kind, named, error, missing, troubled, start, stop, children⟩ := t
    simp only [Bool.not_eq_true] at herror h
    subst herror
    rw [errorCount, errorCountAll_eq_errorsOutsideAll window children h]
    rfl

end RawTree

namespace Lowering

variable {l : Lowering}

mutual

/-- A raw tree that shows no error in what it is lowered to has none. -/
theorem errorCount_eq_zero_of_cover : ∀ (t : RawTree) (lo hi : Nat),
    (∀ n ∈ (l.cover t lo hi).walk, n.isErrorRecovery = false) → t.errorCount = 0
  | ⟨kind, named, error, missing, troubled, start, stop, children⟩, lo, hi, h => by
    rw [cover, Node.forall_mem_walk] at h
    obtain ⟨hself, hchildren⟩ := h
    rw [isErrorRecovery_of_kind rfl] at hself
    -- below the node nothing shows, so it does not matter whether the node is troubled
    have hbelow : RawTree.errorCountAll children = 0 := by
      rcases children with _ | ⟨c, cs⟩
      · rw [RawTree.errorCountAll]
      · exact errorCountAll_eq_zero_of_coverAll (c :: cs) _ _ hchildren
    rw [RawTree.errorCount, hbelow, if_neg (Bool.eq_false_iff.mp hself), ite_self]

/-- Raw trees that show no error in what they are lowered to have none. -/
theorem errorCountAll_eq_zero_of_coverAll : ∀ (ts : List RawTree) (cursor stop : Nat),
    (∀ n ∈ l.coverAll ts cursor stop, ∀ m ∈ n.walk, m.isErrorRecovery = false) →
      RawTree.errorCountAll ts = 0
  | [], _, _, _ => by rw [RawTree.errorCountAll]
  | t :: ts, cursor, stop, h => by
    rw [coverAll, List.forall_mem_append, List.forall_mem_cons] at h
    obtain ⟨-, ht, hts⟩ := h
    rw [RawTree.errorCountAll, errorCount_eq_zero_of_cover t cursor stop ht,
      errorCountAll_eq_zero_of_coverAll ts _ stop hts]

end

/-- Pieces that show no error in what they are lowered to have none. -/
theorem errorCount_eq_zero_of_coverPieces {ps : List Piece} {cursor stop : Nat}
    (h : ∀ n ∈ l.coverPieces ps cursor stop, ∀ m ∈ n.walk, m.isErrorRecovery = false) :
    ∀ s, Piece.tree s ∈ ps → s.errorCount = 0 := by
  induction ps generalizing cursor with
  | nil => exact fun _ hs => absurd hs List.not_mem_nil
  | cons p ps ih =>
    rw [coverPieces, List.forall_mem_append, List.forall_mem_cons] at h
    obtain ⟨-, hp, hps⟩ := h
    intro s hs
    rcases List.mem_cons.mp hs with rfl | hs
    · exact errorCount_eq_zero_of_cover s cursor stop hp
    · exact ih hps s hs

end Lowering

/-- In what a strict check lets pass, no node stands for an error. -/
theorem Pattern.isErrorRecovery_of_check {g : Grammar} {root : Node} {source : Bytes}
    (h : check g true root source = .ok ()) : ∀ n ∈ root.walk, n.isErrorRecovery = false := by
  rw [check] at h
  split at h
  · cases h
  · split at h
    · cases h
    · rw [if_pos rfl] at h
      rcases hfind : root.walk.find? Node.isErrorRecovery with _ | n
      · intro n hn
        exact Bool.eq_false_iff.mpr (List.find?_eq_none.mp hfind n hn)
      · rw [hfind] at h
        cases h

namespace PatternTree

/-- **What a strict parse accepts is free of errors exactly if none was left out.** The
errors counted in the parse that was chosen are those that its window left out, so there
are none at all if and only if there are none of these. -/
theorem strict_errorCount_eq_zero_iff {g : Grammar} {language : LanguageId}
    {expressionOnly : Bool} {text : String} {trees : Choice.RuleTrees} {p : PatternTree}
    (h : ofText g true language expressionOnly text trees = .ok p) :
    ∃ c ∈ g.candidates expressionOnly, ∃ best,
      FragmentParse.best g expressionOnly (Pattern.placeholders g text).masked trees =
        .ok best ∧
      FragmentParse.ofRaw c.rule (Pattern.placeholders g text).masked (trees c.place) =
        .ok best ∧
      (best.errorCount = 0 ↔
        (trees c.place).errorsLeftOut (c.rule.window (Pattern.placeholders g text).masked) = 0) := by
  obtain ⟨c, hc, hbest, hcheck, -⟩ := exists_of_ofText_eq_ok h
  have hclean := Pattern.isErrorRecovery_of_check hcheck
  have hlifted := Lowering.errorCount_eq_zero_of_coverPieces (Node.forall_mem_walk.mp hclean).2
  have hcount := RawTree.errorCount_eq_errorsLeftOut hlifted
  refine ⟨c, hc, _, hbest, FragmentParse.ofRaw_eq _ _ _, ?_⟩
  rw [← hcount]
  rfl

/-- The call that is cut off passes a strict parse; the error it was parsed with was left out. -/
theorem strict_errorCount_cutOffCall :
    ∃ p, ofText bracketGrammar true ⟨"python"⟩ true "f(..., $X" (fun _ => cutOffCall) = .ok p ∧
      ∃ c ∈ bracketGrammar.candidates true, ∃ best,
        FragmentParse.best bracketGrammar true
          (Pattern.placeholders bracketGrammar "f(..., $X").masked (fun _ => cutOffCall) =
          .ok best ∧
        FragmentParse.ofRaw c.rule (Pattern.placeholders bracketGrammar "f(..., $X").masked
          cutOffCall = .ok best ∧
        (best.errorCount = 0 ↔
          cutOffCall.errorsLeftOut
            (c.rule.window (Pattern.placeholders bracketGrammar "f(..., $X").masked) = 0) := by
  obtain ⟨p, hp⟩ : ∃ p, ofText bracketGrammar true ⟨"python"⟩ true "f(..., $X"
    (fun _ => cutOffCall) = .ok p := ⟨_, rfl⟩
  exact ⟨p, hp, strict_errorCount_eq_zero_iff hp⟩

/-- The raw tree for `);(` between brackets: two pairs of brackets, each an error across
an edge of the fragment, with an empty statement between them. -/
def looseBrackets : RawTree :=
  ⟨"program", true, false, false, true, 0, 7,
    [⟨"ERROR", true, true, false, true, 0, 3,
        [⟨"formal_parameters", true, false, false, false, 0, 3,
          [⟨"(", false, false, false, false, 0, 1, []⟩,
            ⟨")", false, false, false, false, 2, 3, []⟩]⟩]⟩,
      ⟨"empty_statement", true, false, false, false, 3, 4,
        [⟨";", false, false, false, false, 3, 4, []⟩]⟩,
      ⟨"ERROR", true, true, false, true, 4, 7,
        [⟨"formal_parameters", true, false, false, false, 4, 7,
          [⟨"(", false, false, false, false, 4, 5, []⟩,
            ⟨")", false, false, false, false, 6, 7, []⟩]⟩]⟩]⟩

/-- A strict parse accepts `);(` as an expression, although two errors were counted. -/
theorem strict_accepts_looseBrackets :
    ∃ g p best, Grammar.javascript = .ok g ∧
      ofText g true ⟨"javascript"⟩ true ");(" (fun _ => looseBrackets) = .ok p ∧
      FragmentParse.best g true (Pattern.placeholders g ");(").masked
        (fun _ => looseBrackets) = .ok best ∧
      best.errorCount = 2 :=
  ⟨_, _, _, rfl, rfl, rfl, rfl⟩

end PatternTree

end SpanTree

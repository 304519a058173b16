import SpanTree.Pattern.Choice
import SpanTree.Proofs.Covering

/-!
# Fragments and the choice among their parses

A fragment that was parsed in the wrapper of a start rule is lifted out of it without
meeting a fault, whatever the raw tree is (`ofRaw_eq`): no offset is moved below the
start of the window, since the pieces are clamped to the window before they are moved.
The tree lies over the fragment and is tiled (`tiled_ofTree`). So every candidate has a
parse, and the choice that stops at the first parse without errors is the choice of the
least number of errors among all of them (`keep_none_eq`).
-/

namespace SpanTree

/-! ## Lifting a fragment out of its wrapper -/

/-- The lowering of what lies in the window of a wrapped fragment. -/
def Lowering.wrapped (rule : PatternRule) (fragment : Bytes) : Lowering :=
  { source := rule.wrap fragment
    index := LineIndex.ofBytes fragment
    shift := (rule.window fragment).start }

/-- The window is a range of the wrapped buffer. -/
theorem Lowering.admits_wrapped (rule : PatternRule) (fragment : Bytes) :
    (wrapped rule fragment).Admits (rule.window fragment).start (rule.window fragment).stop where
  shift_le := Nat.le_refl _
  le := Nat.le_add_right _ _
  stop_le := by
    have := rule.length_wrap fragment
    simp only [wrapped]
    omega

namespace FragmentParse

/-- The parse of a fragment that a raw tree is lowered to. -/
def ofTree (rule : PatternRule) (fragment : Bytes) (t : RawTree) : FragmentParse :=
  let window := rule.window fragment
  let l := Lowering.wrapped rule fragment
  { rule
    root :=
      { kind := .fragment
        named := true
        span := l.spanOf window
        children := l.coverPieces (t.fragmentPieces window) window.start window.stop }
    errorCount := t.errorCount }

/-- Lifting a fragment out of its wrapper meets no fault. -/
theorem ofRaw_eq (rule : PatternRule) (fragment : Bytes) (t : RawTree) :
    ofRaw rule fragment t = .ok (ofTree rule fragment t) := by
  have hadmits := Lowering.admits_wrapped rule fragment
  have hchildren :=
    Lowering.assemble_eq_coverPieces (t.fragmentPieces (rule.window fragment)) hadmits
  have hspan := hadmits.span_eq
  rw [Lowering.wrapped] at hchildren hspan
  simp only [ofRaw, hchildren, hspan, ok_bind, t.countErrors_eq_errorCount]
  rfl

theorem start_ofTree (rule : PatternRule) (fragment : Bytes) (t : RawTree) :
    (ofTree rule fragment t).root.span.start = 0 :=
  Nat.sub_self _

theorem stop_ofTree (rule : PatternRule) (fragment : Bytes) (t : RawTree) :
    (ofTree rule fragment t).root.span.stop = fragment.length :=
  Nat.add_sub_cancel_left _ _

/-- The tree of a fragment is tiled. -/
theorem tiled_ofTree (rule : PatternRule) (fragment : Bytes) (t : RawTree) :
    (ofTree rule fragment t).root.Tiled :=
  (Lowering.tiles_coverPieces _ (Lowering.admits_wrapped rule fragment).le).tiled_node

/-- Below the root of a fragment there are only nodes of plain kinds. -/
theorem isPlain_ofTree (rule : PatternRule) (fragment : Bytes) (t : RawTree) :
    ∀ n ∈ (ofTree rule fragment t).root.children, ∀ m ∈ n.walk, m.kind.isPlain = true :=
  Lowering.isPlain_coverPieces _ _ _

end FragmentParse

/-! ## The choice of a parse -/

namespace Choice

/-- The parse of a fragment under one candidate, from the raw tree at its place. -/
def parseOf (trees : RuleTrees) (fragment : Bytes) (c : Grammar.Candidate) : FragmentParse :=
  FragmentParse.ofTree c.rule fragment (trees c.place)

theorem parse_eq (trees : RuleTrees) (fragment : Bytes) (c : Grammar.Candidate) :
    parse trees fragment c = .ok (parseOf trees fragment c) :=
  FragmentParse.ofRaw_eq c.rule fragment (trees c.place)

/-- Nothing is better than a parse without errors. -/
theorem foldl_better_of_clean {best : FragmentParse} (h : best.errorCount = 0)
    (ps : List FragmentParse) :
    ps.foldl (fun best next => better (some best) next) best = best := by
  induction ps with
  | nil => rfl
  | cons p ps ih =>
    have hbetter : better (some best) p = best := if_neg (by omega)
    rw [List.foldl_cons, hbetter, ih]

/-- Going on from a parse with errors, what is kept is the best of it and all that follow. -/
theorem keep_some_eq (trees : RuleTrees) (fragment : Bytes) {best : FragmentParse}
    (h : best.errorCount ≠ 0) (cs : List Grammar.Candidate) :
    keep trees fragment (some best) cs =
      .ok (some ((cs.map (parseOf trees fragment)).foldl
        (fun best next => better (some best) next) best)) := by
  induction cs generalizing best with
  | nil => rfl
  | cons c cs ih =>
    rw [keep, parse_eq, ok_bind, List.map_cons, List.foldl_cons]
    by_cases hclean : (parseOf trees fragment c).errorCount = 0
    · -- a clean parse beats the best so far and is beaten by none that follows
      have hbetter : better (some best) (parseOf trees fragment c) = parseOf trees fragment c :=
        if_pos (by omega)
      rw [if_pos hclean, hbetter, foldl_better_of_clean hclean]
      rfl
    · rw [if_neg hclean]
      refine ih ?_
      unfold better
      dsimp only
      split <;> assumption

/-- **Stopping early changes nothing**: the parse kept is the earliest with the fewest errors. -/
theorem keep_none_eq (trees : RuleTrees) (fragment : Bytes) (cs : List Grammar.Candidate) :
    keep trees fragment none cs = .ok (leastErrors (cs.map (parseOf trees fragment))) := by
  rcases cs with _ | ⟨c, cs⟩
  · rfl
  · rw [keep, parse_eq, ok_bind, List.map_cons, leastErrors]
    by_cases hclean : (parseOf trees fragment c).errorCount = 0
    · rw [if_pos hclean, foldl_better_of_clean hclean]
      rfl
    · rw [if_neg hclean]
      exact keep_some_eq trees fragment hclean cs

theorem foldl_better_mem (best : FragmentParse) (ps : List FragmentParse) :
    ps.foldl (fun best next => better (some best) next) best ∈ best :: ps := by
  induction ps generalizing best with
  | nil => exact List.mem_singleton_self best
  | cons p ps ih =>
    have hbetter : better (some best) p = best ∨ better (some best) p = p := by
      unfold better
      dsimp only
      split
      · exact .inr rfl
      · exact .inl rfl
    have hmem := ih (better (some best) p)
    rw [List.foldl_cons, List.mem_cons, List.mem_cons]
    rcases List.mem_cons.mp hmem with heq | hmem
    · rcases hbetter with hbetter | hbetter
      · exact .inl (heq.trans hbetter)
      · exact .inr (.inl (heq.trans hbetter))
    · exact .inr (.inr hmem)

/-- Of a list that is not empty one parse is chosen. -/
theorem exists_leastErrors {ps : List FragmentParse} (h : ps ≠ []) :
    ∃ p ∈ ps, leastErrors ps = some p := by
  rcases ps with _ | ⟨p, ps⟩
  · exact absurd rfl h
  · exact ⟨_, foldl_better_mem p ps, rfl⟩

end Choice

/-- A pattern always has a start rule to be parsed under. -/
theorem Grammar.candidates_ne_nil (g : Grammar) (expressionOnly : Bool) :
    g.candidates expressionOnly ≠ [] := by
  have hdeclared : g.patternRules.isEmpty = false → g.declared ≠ [] := by
    rintro hrules hnil
    rw [declared, List.map_eq_nil_iff, List.zipIdx_eq_nil_iff] at hnil
    rw [hnil] at hrules
    cases hrules
  rw [candidates]
  split
  · exact List.cons_ne_nil _ _
  · next hrules =>
    have hrules := hdeclared (Bool.eq_false_iff.mpr hrules)
    split
    · dsimp only
      split
      · exact hrules
      · next hexpr =>
        rw [List.isEmpty_iff] at hexpr
        exact hexpr
    · exact hrules

/-- The parse that a pattern is made from is that of one of the candidates. -/
theorem FragmentParse.exists_best (g : Grammar) (expressionOnly : Bool) (fragment : Bytes)
    (trees : Choice.RuleTrees) :
    ∃ c ∈ g.candidates expressionOnly,
      best g expressionOnly fragment trees = .ok (Choice.parseOf trees fragment c) := by
  have hne : (g.candidates expressionOnly).map (Choice.parseOf trees fragment) ≠ [] := by
    rw [Ne, List.map_eq_nil_iff]
    exact g.candidates_ne_nil expressionOnly
  obtain ⟨p, hp, hleast⟩ := Choice.exists_leastErrors hne
  obtain ⟨c, hc, rfl⟩ := List.mem_map.mp hp
  refine ⟨c, hc, ?_⟩
  rw [best, Choice.keep_none_eq, ok_bind, hleast]
  rfl

end SpanTree

import Mathlib.Data.List.Induction
import SpanTree.Proofs.Pattern

/-!
# The start rule that is chosen

The program looks at the candidates in one pass: it keeps the best parse so far, takes the next
one in its place only if that has fewer errors, and stops at the first without any. A parse
that was kept is the first with the fewest errors among those seen, one more parse keeps this
so (`IsFirstLeast.better`), and where the pass stops nothing that follows could have been
taken. So the parse chosen is the first with the fewest errors of all that the candidates have
(`best_isChoice`), and there always is one, because a grammar without declared rules has its
fallback rule for a candidate. For an expression the candidates are rules for expressions as
far as any is declared.
-/

namespace SpanTree

/-! ## Candidates -/

namespace Grammar

variable {g : Grammar} {expressionOnly : Bool} {c : Candidate}

theorem mem_declared_iff : c ∈ g.declared ↔ g.patternRules[c.place]? = some c.rule := by
  obtain ⟨place, rule⟩ := c
  simp only [declared, List.mem_map, Prod.exists, Candidate.mk.injEq, List.mem_zipIdx_iff_getElem?]
  grind

/-- A candidate is a declared rule at its place, or the fallback rule if none is declared. -/
theorem of_mem_candidates (h : c ∈ g.candidates expressionOnly) :
    g.patternRules[c.place]? = some c.rule ∨ g.patternRules = [] ∧ c = ⟨0, g.fallbackRule⟩ := by
  rw [candidates] at h
  split at h
  · next hrules => exact .inr ⟨List.isEmpty_iff.mp hrules, List.mem_singleton.mp h⟩
  · refine .inl (mem_declared_iff.mp ?_)
    split at h
    · dsimp only at h
      split at h
      · exact h
      · exact (List.mem_filter.mp h).1
    · exact h

/-- If a rule for expressions is declared, an expression is parsed under such rules alone. -/
theorem shape_of_mem_candidates (hdeclared : ∃ rule ∈ g.patternRules, rule.shape = .expression)
    (h : c ∈ g.candidates true) : c.rule.shape = .expression := by
  obtain ⟨rule, hrule, hshape⟩ := hdeclared
  obtain ⟨place, hplace⟩ := List.mem_iff_getElem?.mp hrule
  have hmem : ⟨place, rule⟩ ∈ g.declared.filter (·.rule.shape == .expression) :=
    List.mem_filter.mpr ⟨mem_declared_iff.mpr hplace, beq_iff_eq.mpr hshape⟩
  have hrules : g.patternRules.isEmpty = false :=
    List.isEmpty_eq_false_iff.mpr (List.ne_nil_of_mem hrule)
  have hexpressions := List.isEmpty_eq_false_iff.mpr (List.ne_nil_of_mem hmem)
  simp only [candidates, hrules, hexpressions, if_true, Bool.false_eq_true, if_false] at h
  exact beq_iff_eq.mp (List.mem_filter.mp h).2

end Grammar

/-! ## The least of several parses -/

namespace Choice

/-- At place `i` of the list stands the parse with the fewest errors, the first of several. -/
structure IsFirstLeast (ps : List FragmentParse) (i : Nat) (best : FragmentParse) : Prop where
  getElem?_eq : ps[i]? = some best
  least : ∀ p ∈ ps, best.errorCount ≤ p.errorCount
  first : ∀ j < i, ∀ p, ps[j]? = some p → best.errorCount < p.errorCount

/-- One more parse: the better of the two is the first least of one more. -/
theorem IsFirstLeast.better {ps : List FragmentParse} {i : Nat} {best : FragmentParse}
    (h : IsFirstLeast ps i best) (next : FragmentParse) :
    ∃ i', IsFirstLeast (ps ++ [next]) i' (Choice.better (some best) next) := by
  have hlt : i < ps.length := (List.getElem?_eq_some_iff.mp h.getElem?_eq).1
  by_cases hnext : next.errorCount < best.errorCount
  · have hbetter : Choice.better (some best) next = next := if_pos hnext
    rw [hbetter]
    refine ⟨ps.length, List.getElem?_concat_length, ?_, ?_⟩
    · intro p hp
      rcases List.mem_append.mp hp with hp | hp
      · exact Nat.le_of_lt (Nat.lt_of_lt_of_le hnext (h.least p hp))
      · exact Nat.le_of_eq (congrArg _ (List.mem_singleton.mp hp).symm)
    · intro j hj p hp
      rw [List.getElem?_append_left hj] at hp
      exact Nat.lt_of_lt_of_le hnext (h.least p (List.mem_of_getElem? hp))
  · have hbetter : Choice.better (some best) next = best := if_neg hnext
    rw [hbetter]
    refine ⟨i, ?_, ?_, ?_⟩
    · rw [List.getElem?_append_left hlt]
      exact h.getElem?_eq
    · intro p hp
      rcases List.mem_append.mp hp with hp | hp
      · exact h.least p hp
      · obtain rfl := List.mem_singleton.mp hp
        exact Nat.le_of_not_lt hnext
    · intro j hj p hp
      rw [List.getElem?_append_left (Nat.lt_trans hj hlt)] at hp
      exact h.first j hj p hp

/-- Of parses one after another the first least is kept. -/
theorem exists_isFirstLeast (p : FragmentParse) (ps : List FragmentParse) :
    ∃ i, IsFirstLeast (p :: ps) i
      (ps.foldl (fun best next => Choice.better (some best) next) p) := by
  induction ps using List.reverseRecOn with
  | nil =>
    refine ⟨0, rfl, ?_, fun j hj => absurd hj (Nat.not_lt_zero j)⟩
    exact List.forall_mem_singleton.mpr (Nat.le_refl _)
  | append_singleton ps next ih =>
    obtain ⟨i, hleast⟩ := ih
    rw [List.foldl_append]
    exact hleast.better next

theorem exists_isFirstLeast_of_leastErrors {ps : List FragmentParse} {best : FragmentParse}
    (h : leastErrors ps = some best) : ∃ i, IsFirstLeast ps i best := by
  rcases ps with _ | ⟨p, ps⟩
  · cases h
  · cases h
    exact exists_isFirstLeast p ps

/-- There is one first least parse at most, and it stands at one place. -/
theorem IsFirstLeast.unique {ps : List FragmentParse} {i j : Nat} {best other : FragmentParse}
    (h : IsFirstLeast ps i best) (h' : IsFirstLeast ps j other) : i = j ∧ best = other := by
  have hle := h.least other (List.mem_of_getElem? h'.getElem?_eq)
  have hge := h'.least best (List.mem_of_getElem? h.getElem?_eq)
  rcases Nat.lt_trichotomy i j with hlt | rfl | hgt
  · have := h'.first i hlt best h.getElem?_eq
    omega
  · exact ⟨rfl, Option.some.inj (h.getElem?_eq.symm.trans h'.getElem?_eq)⟩
  · have := h.first j hgt other h'.getElem?_eq
    omega

/-! ## The choice -/

/-- What a fragment is parsed under, and how: a candidate, and the parse under it. -/
structure IsChoice (g : Grammar) (expressionOnly : Bool) (fragment : Bytes) (trees : RuleTrees)
    (c : Grammar.Candidate) (best : FragmentParse) : Prop where
  best_eq : FragmentParse.best g expressionOnly fragment trees = .ok best
  /-- of the parses that all the candidates have, it alone is the first with the fewest errors -/
  least : ∃ parses i, (g.candidates expressionOnly).mapM (parse trees fragment) = .ok parses ∧
    (g.candidates expressionOnly)[i]? = some c ∧
    ∀ j p, IsFirstLeast parses j p ↔ j = i ∧ p = best
  /-- the pass over the candidates finds it, so that no other rule is needed -/
  keep_eq : keep trees fragment none (g.candidates expressionOnly) = .ok (some best)
  declared : g.patternRules[c.place]? = some c.rule ∨
    g.patternRules = [] ∧ c = ⟨0, g.fallbackRule⟩
  parse_eq : parse trees fragment c = .ok best
  rule_eq : best.rule = c.rule
  /-- for an expression, a rule for expressions if any is declared -/
  expression : expressionOnly = true → (∃ rule ∈ g.patternRules, rule.shape = .expression) →
    best.rule.shape = .expression
  /-- a pattern from a text that is masked as the fragment has the rule on it -/
  recorded : ∀ strict language text p, (Pattern.placeholders g text).masked = fragment →
    PatternTree.ofText g strict language expressionOnly text trees = .ok p →
      p.rule = best.rule.name ∧ p.shape = best.rule.shape

/-- **The parse chosen is the first with the fewest errors** of all that the candidates have,
although the candidates behind one without errors are never parsed. -/
theorem best_isChoice (g : Grammar) (expressionOnly : Bool) (fragment : Bytes)
    (trees : RuleTrees) : ∃ c best, IsChoice g expressionOnly fragment trees c best := by
  have hne : (g.candidates expressionOnly).map (parseOf trees fragment) ≠ [] := by
    rw [Ne, List.map_eq_nil_iff]
    exact g.candidates_ne_nil expressionOnly
  obtain ⟨best, -, hleast⟩ := exists_leastErrors hne
  have hkeep : keep trees fragment none (g.candidates expressionOnly) = .ok (some best) := by
    rw [keep_none_eq, hleast]
  have hbest : FragmentParse.best g expressionOnly fragment trees = .ok best := by
    rw [FragmentParse.best, hkeep]
    rfl
  obtain ⟨i, hfirst⟩ := exists_isFirstLeast_of_leastErrors hleast
  have hplace := hfirst.getElem?_eq
  rw [List.getElem?_map, Option.map_eq_some_iff] at hplace
  obtain ⟨c, hc, hparse⟩ := hplace
  have hmem : c ∈ g.candidates expressionOnly := List.mem_of_getElem? hc
  have hrule : best.rule = c.rule := by
    rw [← hparse]
    rfl
  refine ⟨c, best, ?_⟩
  constructor
  case best_eq => exact hbest
  case least =>
    refine ⟨_, i, SyntaxTree.mapM_ok fun c _ => parse_eq trees fragment c, hc, fun j p => ?_⟩
    constructor
    · exact fun h => h.unique hfirst
    · rintro ⟨rfl, rfl⟩
      exact hfirst
  case keep_eq => exact hkeep
  case declared => exact Grammar.of_mem_candidates hmem
  case parse_eq => rw [parse_eq, hparse]
  case rule_eq => exact hrule
  case expression =>
    rintro rfl hdeclared
    rw [hrule]
    exact Grammar.shape_of_mem_candidates hdeclared hmem
  case recorded =>
    rintro strict language text p rfl hp
    obtain ⟨c', -, hbest', -, rfl⟩ := PatternTree.exists_of_ofText_eq_ok hp
    obtain rfl : best = Pattern.parseOf g text trees c' :=
      Except.ok.inj (hbest.symm.trans hbest')
    exact ⟨rfl, rfl⟩

end Choice

end SpanTree

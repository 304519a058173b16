import SpanTree.Proofs.Pattern

/-!
# Strict and lenient parses

A strict parse differs from a lenient one in its last check alone: the parse of the text is
chosen in the same way, it is refused for the same reasons, in the same order, and only
where a lenient parse gives a pattern does a strict one look for errors (`check_strict`).
It looks before the placeholders are tagged, and tagging makes no errors
(`isErrorRecovery_ofSites`). So strictness is a filter on what leniency accepts
(`ofText_strict_filters`).
-/

namespace SpanTree

namespace Pattern

/-- What a strict check demands beyond a lenient one: that no node stands for an error. The
first that does is refused. -/
def refuseErrors (root : Node) : Except Error Unit :=
  match root.preorder.find? Node.isErrorRecovery with
  | none => .ok ()
  | some n => .error (.unparseablePattern n.span .syntaxError)

/-- A strict check is a lenient check, and then the search for an error. -/
theorem check_strict (g : Grammar) (root : Node) (source : Bytes) :
    check g true root source = (check g false root source).bind fun _ => refuseErrors root := by
  rw [check, check]
  rcases significant g root with _ | ⟨first, rest⟩
  · rfl
  · dsimp only
    by_cases hbare : (!(first :: rest).any hasStructure) = true
    · rw [if_pos hbare, if_pos hbare]
      rfl
    · rw [if_neg hbare, if_neg hbare, Node.walk_eq_preorder, if_pos rfl, refuseErrors]
      rcases root.preorder.find? Node.isErrorRecovery with _ | n <;> rfl

theorem refuseErrors_eq_ok {root : Node} (h : ∀ n ∈ root.preorder, n.isErrorRecovery = false) :
    refuseErrors root = .ok () := by
  have hnone : root.preorder.find? Node.isErrorRecovery = none := by
    simpa using h
  rw [refuseErrors, hnone]

theorem refuseErrors_eq_error {root n : Node}
    (h : root.preorder.find? Node.isErrorRecovery = some n) :
    refuseErrors root = .error (.unparseablePattern n.span .syntaxError) := by
  rw [refuseErrors, h]

end Pattern

namespace Tagging

/-- Tagging makes no errors: a tree without errors has none after its sites are tagged. -/
theorem isErrorRecovery_ofSites {root : Node} (h : ∀ n ∈ root.walk, n.isErrorRecovery = false)
    (sites : List Site) : ∀ n ∈ (ofSites root sites).root.walk, n.isErrorRecovery = false := by
  refine List.foldlRecOn (motive := fun t => ∀ n ∈ t.root.walk, n.isErrorRecovery = false)
    sites add ?_ ?_
  · exact h
  intro t ht site _
  rcases htag : t.root.tag site with _ | ⟨root', span⟩
  · rw [add, htag]
    exact ht
  · obtain ⟨x, -, -, hswap⟩ := Node.exists_swap_of_tag htag
    -- what takes the place of the node is a placeholder without children
    have hleaf : ∀ k ∈ (x.tagged site).walk, k.isErrorRecovery = false := by
      refine Node.forall_mem_walk.mpr ⟨?_, by simp [Node.tagged, Node.leaf]⟩
      obtain ⟨extent, _ | _⟩ := site <;> rfl
    have hroot := hswap.forall_walk (fun _ _ _ _ _ hk => hk) hleaf ht
    rw [add, htag]
    obtain ⟨extent, ⟨name, ellipsis⟩ | _⟩ := site <;> exact hroot

end Tagging

namespace PatternTree

/-- A pattern made from a parse without errors has none. -/
theorem hasErrors_ofParse {parse : FragmentParse}
    (h : ∀ n ∈ parse.root.preorder, n.isErrorRecovery = false) (language : LanguageId)
    (source : Bytes) (sites : List Site) :
    (ofParse language source parse sites).hasErrors = false := by
  rw [← Node.walk_eq_preorder] at h
  rw [hasErrors, SyntaxTree.hasErrors, List.any_eq_false]
  intro n hn
  exact Bool.eq_false_iff.mp (Tagging.isErrorRecovery_ofSites h sites n hn)

/-- A strict parse is a lenient one, and then the search for an error in the parse that was
chosen. -/
theorem exists_ofText_strict_eq (g : Grammar) (expressionOnly : Bool) (text : String)
    (trees : Choice.RuleTrees) :
    ∃ best, FragmentParse.best g expressionOnly (Pattern.placeholders g text).masked trees =
        .ok best ∧
      ∀ language,
        (∀ p, ofText g false language expressionOnly text trees = .ok p →
          p = ofParse language (Utf8.encode text) best (Pattern.placeholders g text).sites) ∧
        ofText g true language expressionOnly text trees =
          (ofText g false language expressionOnly text trees).bind fun p =>
            (Pattern.refuseErrors best.root).map fun _ => p := by
  obtain ⟨c, -, hbest, heq⟩ := exists_ofText_eq g expressionOnly text trees
  refine ⟨_, hbest, fun language => ?_⟩
  rw [heq, heq]
  by_cases hblank : Text.isBlank text = true
  · rw [if_pos hblank, if_pos hblank]
    exact ⟨by rintro _ ⟨⟩, rfl⟩
  · rw [if_neg hblank, if_neg hblank, Pattern.check_strict]
    rcases Pattern.check g false (Pattern.parseOf g text trees c).root (Utf8.encode text) with e | _
    · exact ⟨by rintro _ ⟨⟩, rfl⟩
    · refine ⟨by rintro _ ⟨⟩; rfl, ?_⟩
      rfl

/-- **Strictness is a filter.** The same parse is chosen for a text, strict or not. What is
refused without strictness is refused with it, for the same reason. What is accepted without
it is accepted with it as the same pattern, if the parse has no error; and if it has one,
it is refused at the first. -/
theorem ofText_strict_filters (g : Grammar) (expressionOnly : Bool) (text : String)
    (trees : Choice.RuleTrees) :
    ∃ best, FragmentParse.best g expressionOnly (Pattern.placeholders g text).masked trees =
        .ok best ∧
      ∀ language,
        (∀ e, ofText g false language expressionOnly text trees = .error e →
          ofText g true language expressionOnly text trees = .error e) ∧
        (∀ p, ofText g false language expressionOnly text trees = .ok p →
          (p.rule = best.rule.name ∧ p.shape = best.rule.shape) ∧
          ((∀ n ∈ best.root.preorder, n.isErrorRecovery = false) →
            ofText g true language expressionOnly text trees = .ok p ∧ p.hasErrors = false) ∧
          ∀ n, best.root.preorder.find? Node.isErrorRecovery = some n →
            ofText g true language expressionOnly text trees =
              .error (.unparseablePattern n.span .syntaxError)) ∧
        ∀ p, ofText g true language expressionOnly text trees = .ok p →
          ofText g false language expressionOnly text trees = .ok p := by
  obtain ⟨best, hbest, h⟩ := exists_ofText_strict_eq g expressionOnly text trees
  refine ⟨best, hbest, fun language => ?_⟩
  obtain ⟨hfrom, hstrict⟩ := h language
  rw [hstrict]
  rcases hlenient : ofText g false language expressionOnly text trees with e | p
  · refine ⟨?_, ?_, ?_⟩
    · intro _ he
      exact he
    · rintro _ ⟨⟩
    · rintro _ ⟨⟩
  · have hp := hfrom p hlenient
    refine ⟨?_, ?_, ?_⟩
    · rintro _ ⟨⟩
    · rintro _ ⟨⟩
      refine ⟨by rw [hp]; exact ⟨rfl, rfl⟩, fun hclean => ⟨?_, ?_⟩, fun n hfirst => ?_⟩
      · rw [Except.bind, Pattern.refuseErrors_eq_ok hclean]
        rfl
      · rw [hp]
        exact hasErrors_ofParse hclean _ _ _
      · rw [Except.bind, Pattern.refuseErrors_eq_error hfirst]
        rfl
    · intro q hq
      rw [Except.bind] at hq
      rcases hrefuse : Pattern.refuseErrors best.root with e | _
      · rw [hrefuse] at hq
        cases hq
      · rw [hrefuse] at hq
        exact hq

/-- The raw tree for `(foo(1,, 2))`: a call in which the first of the two commas is an error. -/
def doubleComma : RawTree :=
  ⟨"module", true, false, false, true, 0, 12,
    [⟨"expression_statement", true, false, false, true, 0, 12,
      [⟨"parenthesized_expression", true, false, false, true, 0, 12,
        [⟨"(", false, false, false, false, 0, 1, []⟩,
          ⟨"call", true, false, false, true, 1, 11,
            [⟨"identifier", true, false, false, false, 1, 4, []⟩,
              ⟨"argument_list", true, false, false, true, 4, 11,
                [⟨"(", false, false, false, false, 4, 5, []⟩,
                  ⟨"integer", true, false, false, false, 5, 6, []⟩,
                  ⟨"ERROR", true, true, false, true, 6, 7,
                    [⟨",", false, false, false, false, 6, 7, []⟩]⟩,
                  ⟨",", false, false, false, false, 7, 8, []⟩,
                  ⟨"integer", true, false, false, false, 9, 10, []⟩,
                  ⟨")", false, false, false, false, 10, 11, []⟩]⟩]⟩,
          ⟨")", false, false, false, false, 11, 12, []⟩]⟩]⟩]⟩

/-- The call with two commas is accepted without strictness, and refused with it at the first
comma; the call that is cut off is the same pattern with and without; and a blank text is
refused in any case. -/
theorem ofText_strict_filters_doubleComma :
    (∃ p, ofText bracketGrammar false ⟨"python"⟩ true "foo(1,, 2)" (fun _ => doubleComma) = .ok p ∧
      ofText bracketGrammar true ⟨"python"⟩ true "foo(1,, 2)" (fun _ => doubleComma) =
        .error (.unparseablePattern ⟨5, 6, ⟨1, 5⟩, ⟨1, 6⟩⟩ .syntaxError)) ∧
    (∃ p, ofText bracketGrammar false ⟨"python"⟩ true "f(..., $X" (fun _ => cutOffCall) = .ok p ∧
      ofText bracketGrammar true ⟨"python"⟩ true "f(..., $X" (fun _ => cutOffCall) = .ok p ∧
      p.hasErrors = false) ∧
    ofText bracketGrammar true ⟨"python"⟩ true " " (fun _ => cutOffCall) =
      .error (.unparseablePattern ⟨0, 1, ⟨1, 0⟩, ⟨1, 1⟩⟩ .blank) := by
  refine ⟨⟨_, rfl, ?_⟩, ⟨_, rfl, ?_⟩, ?_⟩
  · obtain ⟨best, hbest, h⟩ :=
      ofText_strict_filters bracketGrammar true "foo(1,, 2)" fun _ => doubleComma
    have hparse : best = Pattern.parseOf bracketGrammar "foo(1,, 2)" (fun _ => doubleComma)
        ⟨0, ⟨"expression", .expression, "(", ")"⟩⟩ := Except.ok.inj (hbest.symm.trans rfl)
    have hfirst : best.root.preorder.find? Node.isErrorRecovery =
        some ⟨.error, true, ⟨5, 6, ⟨1, 5⟩, ⟨1, 6⟩⟩,
          [⟨.symbol ",", false, ⟨5, 6, ⟨1, 5⟩, ⟨1, 6⟩⟩, []⟩]⟩ := by
      rw [hparse]
      decide +kernel
    exact ((h ⟨"python"⟩).2.1 _ rfl).2.2 _ hfirst
  · obtain ⟨best, hbest, h⟩ :=
      ofText_strict_filters bracketGrammar true "f(..., $X" fun _ => cutOffCall
    cases hbest
    exact ((h ⟨"python"⟩).2.1 _ rfl).2.1 (by decide +kernel)
  · obtain ⟨best, -, h⟩ := ofText_strict_filters bracketGrammar true " " fun _ => cutOffCall
    exact (h ⟨"python"⟩).1 _ rfl

end PatternTree

end SpanTree

import SpanTree.Pattern
import SpanTree.Proofs.Fragment
import SpanTree.Proofs.Tagging

/-!
# Patterns account for their text

What a text gives as a pattern is decided in two steps that do not depend on each
other: which candidate is parsed, and whether its fragment is of any use
(`exists_ofText_eq`). Neither step meets a fault. The tree of a pattern lies over the
text as it was given, although positions and white space were read off the masked one,
and although tagging cut nodes short: it is span-complete (`ofText_spanComplete`).
-/

namespace SpanTree

theorem Placeholder.length_mask (style : WildcardStyle) (found : List Site) (fragment : Bytes) :
    (mask style found fragment).length = fragment.length :=
  List.length_mapIdx

namespace Pattern

/-- The placeholders of a text in a grammar. -/
def placeholders (g : Grammar) (text : String) : Placeholders :=
  Placeholders.scan g.sigil g.wildcard (Utf8.encode text)

/-- The parse of a text under one candidate, its placeholders masked. -/
def parseOf (g : Grammar) (text : String) (trees : Choice.RuleTrees) (c : Grammar.Candidate) :
    FragmentParse :=
  Choice.parseOf trees (placeholders g text).masked c

theorem length_masked (g : Grammar) (text : String) :
    (placeholders g text).masked.length = (Utf8.encode text).length :=
  Placeholder.length_mask _ _ _

/-- A fragment that is refused is refused as a pattern, never for a fault. -/
theorem exists_of_check_eq_error {g : Grammar} {strict : Bool} {root : Node} {source : Bytes}
    {e : Error} (h : check g strict root source = .error e) :
    ∃ span reason, e = .unparseablePattern span reason := by
  rw [check] at h
  split at h
  · cases h
    exact ⟨_, _, rfl⟩
  · split at h
    · cases h
      exact ⟨_, _, rfl⟩
    · split at h
      · split at h
        · cases h
          exact ⟨_, _, rfl⟩
        · cases h
      · cases h

end Pattern

namespace PatternTree

/-- What a text gives as a pattern, once the candidate that is parsed is known. The
candidate is the same whether the parse is strict or not. -/
theorem exists_ofText_eq (g : Grammar) (expressionOnly : Bool) (text : String)
    (trees : Choice.RuleTrees) :
    ∃ c ∈ g.candidates expressionOnly,
      FragmentParse.best g expressionOnly (Pattern.placeholders g text).masked trees =
        .ok (Pattern.parseOf g text trees c) ∧
      ∀ strict language, ofText g strict language expressionOnly text trees =
        if Text.isBlank text then
          .error (.unparseablePattern (.whole (Utf8.encode text)) .blank)
        else
          (Pattern.check g strict (Pattern.parseOf g text trees c).root (Utf8.encode text)).map
            fun _ => ofParse language (Utf8.encode text) (Pattern.parseOf g text trees c)
              (Pattern.placeholders g text).sites := by
  obtain ⟨c, hc, hbest⟩ :=
    FragmentParse.exists_best g expressionOnly (Pattern.placeholders g text).masked trees
  -- the choice is made before the check, and knows nothing of strictness
  refine ⟨c, hc, hbest, fun strict language => ?_⟩
  rw [Pattern.placeholders] at hbest
  rw [ofText]
  by_cases hblank : Text.isBlank text = true
  · simp only [hblank, if_true]
    rfl
  · simp only [hblank, hbest, Fault.lift, ok_bind, Bool.false_eq_true, if_false]
    exact bind_pure_comp _ _

variable {g : Grammar} {strict expressionOnly : Bool} {language : LanguageId} {text : String}
  {trees : Choice.RuleTrees}

/-- Where a pattern comes from. -/
theorem exists_of_ofText_eq_ok {p : PatternTree}
    (h : ofText g strict language expressionOnly text trees = .ok p) :
    ∃ c ∈ g.candidates expressionOnly,
      FragmentParse.best g expressionOnly (Pattern.placeholders g text).masked trees =
        .ok (Pattern.parseOf g text trees c) ∧
      Pattern.check g strict (Pattern.parseOf g text trees c).root (Utf8.encode text) = .ok () ∧
      p = ofParse language (Utf8.encode text) (Pattern.parseOf g text trees c)
        (Pattern.placeholders g text).sites := by
  obtain ⟨c, hc, hbest, heq⟩ := exists_ofText_eq g expressionOnly text trees
  refine ⟨c, hc, hbest, ?_⟩
  rw [heq] at h
  split at h
  · cases h
  · rcases hcheck : Pattern.check g strict (Pattern.parseOf g text trees c).root
      (Utf8.encode text) with e | _
    · rw [hcheck] at h
      cases h
    · rw [hcheck] at h
      cases h
      exact ⟨rfl, rfl⟩

/-- Making a pattern meets no fault. -/
theorem ofText_ne_broken (fault : Fault) :
    ofText g strict language expressionOnly text trees ≠ .error (.broken fault) := by
  obtain ⟨c, -, -, heq⟩ := exists_ofText_eq g expressionOnly text trees
  intro h
  rw [heq] at h
  split at h
  · cases h
  · rcases hcheck : Pattern.check g strict (Pattern.parseOf g text trees c).root
      (Utf8.encode text) with e | _
    · obtain ⟨span, reason, rfl⟩ := Pattern.exists_of_check_eq_error hcheck
      rw [hcheck] at h
      cases h
    · rw [hcheck] at h
      cases h

/-- **Patterns are span-complete over their text.** Whatever raw trees the parser
returned, no fault arises, and the tree of a pattern that is not refused accounts for
the bytes of the text as it was given. -/
theorem ofText_spanComplete (g : Grammar) (strict : Bool) (language : LanguageId)
    (expressionOnly : Bool) (text : String) (trees : Choice.RuleTrees) :
    (∀ fault, ofText g strict language expressionOnly text trees ≠ .error (.broken fault)) ∧
      ∀ p, ofText g strict language expressionOnly text trees = .ok p →
        p.tree.source = Utf8.encode text ∧ p.root.kind = .fragment ∧ p.tree.SpanComplete := by
  refine ⟨ofText_ne_broken, fun p h => ?_⟩
  obtain ⟨c, -, -, -, rfl⟩ := exists_of_ofText_eq_ok h
  obtain ⟨hkind, hspan⟩ := Tagging.root_ofSites (Pattern.parseOf g text trees c).root
    (Pattern.placeholders g text).sites
  refine ⟨rfl, hkind, SyntaxTree.spanComplete_of_tiled ?_ ?_ ?_⟩
  · exact Tagging.tiled_ofSites (FragmentParse.tiled_ofTree _ _ _) _
  · exact (congrArg Span.start hspan).trans (FragmentParse.start_ofTree _ _ _)
  · calc (Tagging.ofSites _ _).root.span.stop
        = (Pattern.parseOf g text trees c).root.span.stop := congrArg Span.stop hspan
      _ = (Pattern.placeholders g text).masked.length := FragmentParse.stop_ofTree _ _ _
      _ = (Utf8.encode text).length := Pattern.length_masked g text

/-- A grammar that reads a fragment as an expression between brackets, and in no other way. -/
def bracketGrammar : Grammar where
  name := "python"
  targetRule := "module"
  patternRules := [⟨"expression", .expression, "(", ")"⟩]
  fallbackRule := .bare "module" .items
  sigil := .dollar
  wildcard := .native
  commentKinds := ["comment"]
  nodeKinds := []

/-- The raw tree for `(f(..., _X)`, the call `f(..., $X` cut off before its bracket and
wrapped in brackets. The call takes the closing bracket of the wrapper for its own, so
it reaches out of the fragment, and the opening bracket is left over as an error. -/
def cutOffCall : RawTree :=
  ⟨"module", true, false, false, true, 0, 11,
    [⟨"ERROR", true, true, false, true, 0, 11,
      [⟨"(", false, false, false, false, 0, 1, []⟩,
        ⟨"call", true, false, false, false, 1, 11,
          [⟨"identifier", true, false, false, false, 1, 2, []⟩,
            ⟨"argument_list", true, false, false, false, 2, 11,
              [⟨"(", false, false, false, false, 2, 3, []⟩,
                ⟨"ellipsis", true, false, false, false, 3, 6, []⟩,
                ⟨",", false, false, false, false, 6, 7, []⟩,
                ⟨"identifier", true, false, false, false, 8, 10, []⟩,
                ⟨")", false, false, false, false, 10, 11, []⟩]⟩]⟩]⟩]⟩

/-- The call that is cut off gives a pattern, which accounts for its text. -/
theorem ofText_spanComplete_cutOffCall :
    ∃ p, ofText bracketGrammar false ⟨"python"⟩ true "f(..., $X" (fun _ => cutOffCall) = .ok p ∧
      p.tree.source = Utf8.encode "f(..., $X" ∧ p.root.kind = .fragment ∧ p.tree.SpanComplete :=
  ⟨_, rfl, (ofText_spanComplete bracketGrammar false ⟨"python"⟩ true "f(..., $X"
    fun _ => cutOffCall).2 _ rfl⟩

end PatternTree

end SpanTree

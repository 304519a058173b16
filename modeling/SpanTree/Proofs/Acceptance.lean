import SpanTree.Proofs.Pattern

/-!
# What a lenient parse accepts

Without strictness a text is refused for three reasons only: it is blank, its parse has
nothing but white space and comments, or no part of its parse has structure (`Refuses`). The
check looks at the nodes directly below the root, and one of them with structure is enough,
whatever stands beside it or below it (`check_lenient_cases`).

What is directly below the root are the outermost raw nodes in the window and the leaves that
lowering adds for bytes without a raw node. These leaves are white space or errors and have no
structure (`any_hasStructure_coverPieces`). So a text is accepted exactly if it is not blank
and one of those raw nodes has structure (`ofText_lenient`).
-/

namespace SpanTree

namespace Pattern

variable {g : Grammar} {root : Node} {source : Bytes}

/-! ## The check -/

/-- Whether a part of a fragment counts as code: it is neither a comment nor white space. -/
def isCode (g : Grammar) (n : Node) : Bool := !g.isCommentKind n.kind.label && !n.isTrivia

theorem significant_eq (g : Grammar) (root : Node) :
    significant g root = root.children.filter (isCode g) := by
  rw [significant, Node.nonTriviaChildren, List.filter_filter]
  rfl

/-- The part to blame in a parse without structure: of those that count as code the first that
stands for an error or, if none does, the first at all. -/
inductive Blames (g : Grammar) (root n : Node) : Prop
  | error (first : root.children.find? (fun m => isCode g m && m.isErrorRecovery) = some n)
  | plain (clean : ∀ m ∈ root.children, isCode g m = true → m.isErrorRecovery = false)
      (first : root.children.find? (isCode g) = some n)

theorem blames_offending {first : Node} {rest : List Node}
    (h : root.children.filter (isCode g) = first :: rest) :
    Blames g root (offending first rest) := by
  have hfind : (first :: rest).find? Node.isErrorRecovery =
      root.children.find? fun m => isCode g m && m.isErrorRecovery := by
    rw [← h, List.find?_filter]
    simp only [Bool.decide_and, Bool.decide_eq_true]
  rw [offending, hfind]
  rcases herror : root.children.find? fun m => isCode g m && m.isErrorRecovery with _ | n
  · refine .plain (fun m hm hcode => ?_) ?_
    · have hnot := List.find?_eq_none.mp herror m hm
      rwa [hcode, Bool.true_and, Bool.not_eq_true] at hnot
    · rw [← List.head?_filter, h]
      rfl
  · exact .error herror

/-- What a lenient check says of a parse: there is structure, or there is no code, or there is
code without structure and a part to blame for it. -/
theorem check_lenient_cases (g : Grammar) (root : Node) (source : Bytes) :
    ((∃ n ∈ root.children, isCode g n = true ∧ hasStructure n = true) ∧
      check g false root source = .ok ()) ∨
    ((∀ n ∈ root.children, isCode g n = false) ∧
      check g false root source = .error (.unparseablePattern (.whole source) .noCode)) ∨
    ((∀ n ∈ root.children, isCode g n = true → hasStructure n = false) ∧
      ∃ n, Blames g root n ∧
        check g false root source = .error (.unparseablePattern n.span (.noStructure g.name))) := by
  rw [check, significant_eq]
  rcases hcode : root.children.filter (isCode g) with _ | ⟨first, rest⟩
  · refine .inr (.inl ⟨fun n hn => ?_, rfl⟩)
    exact Bool.eq_false_iff.mpr (List.filter_eq_nil_iff.mp hcode n hn)
  · dsimp only
    by_cases hany : (first :: rest).any hasStructure = true
    · rw [hany]
      obtain ⟨n, hn, hstructure⟩ := List.any_eq_true.mp hany
      rw [← hcode, List.mem_filter] at hn
      exact .inl ⟨⟨n, hn.1, hn.2, hstructure⟩, rfl⟩
    · rw [Bool.not_eq_true] at hany
      rw [hany]
      refine .inr (.inr ⟨fun n hn hn' => ?_, offending first rest, blames_offending hcode, rfl⟩)
      rw [← hcode] at hany
      exact Bool.eq_false_iff.mpr (List.any_eq_false.mp hany n (List.mem_filter.mpr ⟨hn, hn'⟩))

/-! ## Why a text is refused -/

/-- Where and why a lenient parse refuses a text, from the root of the parse that was chosen. -/
inductive Refuses (g : Grammar) (text : String) (root : Node) : Span → Refusal → Prop
  /-- there is nothing in the text -/
  | blank (blank : ∀ c ∈ text.toList, Text.isBlankChar c = true) :
    Refuses g text root (.whole (Utf8.encode text)) .blank
  /-- there is something, but all of it is white space and comments -/
  | noCode (solid : ∃ c ∈ text.toList, Text.isBlankChar c = false)
      (bare : ∀ n ∈ root.children, isCode g n = false) :
    Refuses g text root (.whole (Utf8.encode text)) .noCode
  /-- there is code, but no part of it has structure -/
  | noStructure {n : Node} (solid : ∃ c ∈ text.toList, Text.isBlankChar c = false)
      (bare : ∀ n ∈ root.children, isCode g n = true → hasStructure n = false)
      (blames : Blames g root n) :
    Refuses g text root n.span (.noStructure g.name)

/-- A text is accepted if there is something in it, and in its parse a part with structure. -/
structure Accepts (g : Grammar) (text : String) (root : Node) : Prop where
  solid : ∃ c ∈ text.toList, Text.isBlankChar c = false
  structured : ∃ n ∈ root.children, isCode g n = true ∧ hasStructure n = true

variable {text : String} {n m : Node} {span span' : Span} {reason reason' : Refusal}

theorem Blames.isCode (h : Blames g root n) : n ∈ root.children ∧ Pattern.isCode g n = true := by
  rcases h with hfirst | ⟨-, hfirst⟩
  · have hfound := List.find?_some hfirst
    rw [Bool.and_eq_true] at hfound
    exact ⟨List.mem_of_find?_eq_some hfirst, hfound.1⟩
  · exact ⟨List.mem_of_find?_eq_some hfirst, List.find?_some hfirst⟩

theorem Blames.not_clean
    (h : root.children.find? (fun m => Pattern.isCode g m && m.isErrorRecovery) = some n) :
    ¬ ∀ m ∈ root.children, Pattern.isCode g m = true → m.isErrorRecovery = false := by
  intro hclean
  have hfound := List.find?_some h
  rw [Bool.and_eq_true] at hfound
  have herror := hclean n (List.mem_of_find?_eq_some h) hfound.1
  rw [hfound.2] at herror
  cases herror

theorem Blames.unique (h : Blames g root n) (h' : Blames g root m) : n = m := by
  rcases h with hfirst | ⟨hclean, hfirst⟩ <;> rcases h' with hfirst' | ⟨hclean', hfirst'⟩
  · exact Option.some.inj (hfirst.symm.trans hfirst')
  · exact absurd hclean' (Blames.not_clean hfirst)
  · exact absurd hclean (Blames.not_clean hfirst')
  · exact Option.some.inj (hfirst.symm.trans hfirst')

/-- Text that has something in it is not blank. -/
theorem not_blank_of_solid (h : ∃ c ∈ text.toList, Text.isBlankChar c = false) :
    ¬ ∀ c ∈ text.toList, Text.isBlankChar c = true := by
  obtain ⟨c, hc, hsolid⟩ := h
  intro hblank
  rw [hblank c hc] at hsolid
  cases hsolid

/-- What is accepted is not refused. -/
theorem Refuses.not_accepts (h : Refuses g text root span reason) : ¬ Accepts g text root := by
  rintro ⟨hsolid, n, hn, hcode, hstructure⟩
  cases h with
  | blank hblank => exact not_blank_of_solid hsolid hblank
  | noCode _ hbare =>
    rw [hbare n hn] at hcode
    cases hcode
  | noStructure _ hbare _ =>
    rw [hbare n hn hcode] at hstructure
    cases hstructure

/-- A text is refused for one reason and at one place. -/
theorem Refuses.unique (h : Refuses g text root span reason)
    (h' : Refuses g text root span' reason') : span = span' ∧ reason = reason' := by
  cases h with
  | blank hblank =>
    cases h' with
    | blank _ => exact ⟨rfl, rfl⟩
    | noCode hsolid _ => exact absurd hblank (not_blank_of_solid hsolid)
    | noStructure hsolid _ _ => exact absurd hblank (not_blank_of_solid hsolid)
  | noCode hsolid hbare =>
    cases h' with
    | blank hblank => exact absurd hblank (not_blank_of_solid hsolid)
    | noCode _ _ => exact ⟨rfl, rfl⟩
    | noStructure _ _ hblames =>
      obtain ⟨hn, hcode⟩ := hblames.isCode
      rw [hbare _ hn] at hcode
      cases hcode
  | noStructure hsolid _ hblames =>
    cases h' with
    | blank hblank => exact absurd hblank (not_blank_of_solid hsolid)
    | noCode _ hbare =>
      obtain ⟨hn, hcode⟩ := hblames.isCode
      rw [hbare _ hn] at hcode
      cases hcode
    | noStructure _ _ hblames' => exact ⟨congrArg _ (hblames.unique hblames'), rfl⟩

end Pattern

/-! ## Structure in what is lowered -/

/-- Whether a raw node has structure: it is named and no comment, and neither an error nor
missing. -/
def RawTree.hasStructure (g : Grammar) (t : RawTree) : Bool :=
  !g.isCommentKind t.kind && t.named && !t.error && !t.missing

/-- Whether a piece is a raw node with structure. -/
def Piece.hasStructure (g : Grammar) : Piece → Bool
  | .tree t => t.hasStructure g
  | .bare _ _ => false

namespace Lowering

variable {l : Lowering} {g : Grammar}

/-- A raw node has structure exactly if the node has that it is lowered to. -/
theorem hasStructure_cover (t : RawTree) (lo hi : Nat) :
    (Pattern.isCode g (l.cover t lo hi) && Pattern.hasStructure (l.cover t lo hi)) =
      t.hasStructure g := by
  rw [cover_eq]
  obtain ⟨kind, named, error, missing, troubled, start, stop, children⟩ := t
  have htrivia : (NodeKind.symbol kind == .trivia) = false := beq_eq_false_iff_ne.mpr nofun
  rcases error with _ | _ <;> rcases missing with _ | _ <;>
    simp [Pattern.isCode, Pattern.hasStructure, Node.isTrivia, Node.isErrorRecovery,
      RawTree.hasStructure, RawTree.nodeKind, NodeKind.label, htrivia]

/-- A leaf for bytes without a raw node is white space or an error. -/
theorem hasStructure_gapLeaf (e : Extent) : Pattern.hasStructure (l.gapLeaf e) = false := by
  rw [gapLeaf]
  split <;> rfl

theorem any_hasStructure_gapLeaves (start stop : Nat) :
    (l.gapLeaves start stop).any (fun n => Pattern.isCode g n && Pattern.hasStructure n) =
      false := by
  rw [gapLeaves]
  split
  · rw [List.any_cons, List.any_nil, hasStructure_gapLeaf, Bool.and_false, Bool.or_false]
  · rfl

/-- There is structure in what pieces are lowered to exactly if there is in the pieces. -/
theorem any_hasStructure_coverPieces (ps : List Piece) (cursor stop : Nat) :
    (l.coverPieces ps cursor stop).any (fun n => Pattern.isCode g n && Pattern.hasStructure n) =
      ps.any (·.hasStructure g) := by
  induction ps generalizing cursor with
  | nil => exact any_hasStructure_gapLeaves cursor stop
  | cons p ps ih =>
    have hpiece : (Pattern.isCode g (l.coverPiece p cursor stop) &&
        Pattern.hasStructure (l.coverPiece p cursor stop)) = p.hasStructure g := by
      cases p with
      | tree t => exact hasStructure_cover t cursor stop
      | bare start stop => exact Bool.and_false _
    rw [coverPieces, List.any_append, any_hasStructure_gapLeaves, List.any_cons, hpiece, ih,
      Bool.false_or, List.any_cons]

end Lowering

/-- There is structure in a fragment exactly if an outermost raw node in its window has some. -/
theorem FragmentParse.exists_hasStructure_iff {g : Grammar} (rule : PatternRule)
    (fragment : Bytes) (t : RawTree) :
    (∃ n ∈ (ofTree rule fragment t).root.children,
      Pattern.isCode g n = true ∧ Pattern.hasStructure n = true) ↔
      ∃ s, .tree s ∈ t.fragmentPieces (rule.window fragment) ∧ s.hasStructure g = true := by
  have hany : (ofTree rule fragment t).root.children.any
      (fun n => Pattern.isCode g n && Pattern.hasStructure n) =
        (t.fragmentPieces (rule.window fragment)).any (·.hasStructure g) :=
    Lowering.any_hasStructure_coverPieces _ _ _
  simp only [← Bool.and_eq_true]
  rw [← List.any_eq_true, hany, List.any_eq_true]
  constructor
  · rintro ⟨_ | _, hp, hstructure⟩
    · exact ⟨_, hp, hstructure⟩
    · cases hstructure
  · rintro ⟨s, hs, hstructure⟩
    exact ⟨_, hs, hstructure⟩

namespace PatternTree

/-- A lenient parse accepts a text or refuses it, by what is in the parse that was chosen. -/
theorem ofText_lenient_cases (g : Grammar) (expressionOnly : Bool) (text : String)
    (trees : Choice.RuleTrees) :
    ∃ c ∈ g.candidates expressionOnly,
      FragmentParse.best g expressionOnly (Pattern.placeholders g text).masked trees =
        .ok (Pattern.parseOf g text trees c) ∧
      ∀ language,
        (Pattern.Accepts g text (Pattern.parseOf g text trees c).root ∧
          ∃ p, ofText g false language expressionOnly text trees = .ok p) ∨
        ∃ span reason,
          Pattern.Refuses g text (Pattern.parseOf g text trees c).root span reason ∧
            ofText g false language expressionOnly text trees =
              .error (.unparseablePattern span reason) := by
  obtain ⟨c, hc, hbest, heq⟩ := exists_ofText_eq g expressionOnly text trees
  refine ⟨c, hc, hbest, fun language => ?_⟩
  rw [heq]
  by_cases hblank : Text.isBlank text = true
  · rw [if_pos hblank]
    exact .inr ⟨_, _, .blank (List.all_eq_true.mp hblank), rfl⟩
  · rw [if_neg hblank]
    have hsolid : ∃ c ∈ text.toList, Text.isBlankChar c = false := by
      rw [Text.isBlank, Bool.not_eq_true, List.all_eq_false] at hblank
      obtain ⟨c, hc, hsolid⟩ := hblank
      exact ⟨c, hc, Bool.eq_false_iff.mpr hsolid⟩
    rcases Pattern.check_lenient_cases g (Pattern.parseOf g text trees c).root (Utf8.encode text)
      with ⟨hstructured, hcheck⟩ | ⟨hbare, hcheck⟩ | ⟨hbare, n, hblames, hcheck⟩
    · rw [hcheck]
      exact .inl ⟨⟨hsolid, hstructured⟩, _, rfl⟩
    · rw [hcheck]
      exact .inr ⟨_, _, .noCode hsolid hbare, rfl⟩
    · rw [hcheck]
      exact .inr ⟨_, _, .noStructure hsolid hbare hblames, rfl⟩

/-- **Lenient acceptance is decided by structure.** A text is accepted exactly if it is not
blank and a node directly below the root of the parse that was chosen counts as code and has
structure, which is so exactly if one of the outermost raw nodes in the window has. Otherwise
it is refused as a pattern: as a whole if it is blank or has no code, and else at the first
part that stands for an error or, if none does, at the first part. -/
theorem ofText_lenient (g : Grammar) (expressionOnly : Bool) (text : String)
    (trees : Choice.RuleTrees) :
    ∃ c ∈ g.candidates expressionOnly, ∃ best,
      FragmentParse.best g expressionOnly (Pattern.placeholders g text).masked trees =
        .ok best ∧
      FragmentParse.ofRaw c.rule (Pattern.placeholders g text).masked (trees c.place) =
        .ok best ∧
      (∀ language,
        ((∃ p, ofText g false language expressionOnly text trees = .ok p) ↔
          Pattern.Accepts g text best.root) ∧
        ∀ e, ofText g false language expressionOnly text trees = .error e ↔
          ∃ span reason, e = .unparseablePattern span reason ∧
            Pattern.Refuses g text best.root span reason) ∧
      ((∃ n ∈ best.root.children, Pattern.isCode g n = true ∧ Pattern.hasStructure n = true) ↔
        ∃ t, .tree t ∈ (trees c.place).fragmentPieces
            (c.rule.window (Pattern.placeholders g text).masked) ∧
          t.hasStructure g = true) := by
  obtain ⟨c, hc, hbest, hcases⟩ := ofText_lenient_cases g expressionOnly text trees
  refine ⟨c, hc, _, hbest, FragmentParse.ofRaw_eq _ _ _, fun language => ?_,
    FragmentParse.exists_hasStructure_iff _ _ _⟩
  rcases hcases language with ⟨haccepts, p, hp⟩ | ⟨span, reason, hrefuses, hp⟩
  · rw [hp]
    refine ⟨⟨fun _ => haccepts, fun _ => ⟨p, rfl⟩⟩, fun e => ⟨nofun, ?_⟩⟩
    rintro ⟨span, reason, -, hrefuses⟩
    exact absurd haccepts hrefuses.not_accepts
  · rw [hp]
    refine ⟨⟨nofun, fun haccepts => absurd haccepts hrefuses.not_accepts⟩, fun e => ⟨?_, ?_⟩⟩
    · rintro ⟨⟩
      exact ⟨span, reason, rfl, hrefuses⟩
    · rintro ⟨span', reason', rfl, hrefuses'⟩
      obtain ⟨rfl, rfl⟩ := hrefuses.unique hrefuses'
      rfl

end PatternTree

end SpanTree

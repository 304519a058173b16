import SpanTree.Proofs.Masking
import SpanTree.Proofs.Window

/-!
# Patterns are true to their text

The positions and the white space of a pattern are read off a buffer that the text was
changed to: its placeholders are masked, and it is wrapped. What the pattern says of the
text is true nonetheless. Each span is a range of the text, with the positions that the
lines of the text give for its ends, and what is marked as white space is blank there. That
holds of a fragment as it is lowered (`trueTo_parseOf`), since masking moves no line and
hides no byte that is not white space; it stays so while placeholders are tagged
(`Tagging.trueTo_ofSites`), since a tagged node keeps its span; and the spans of refusals
are those of nodes, or of the whole text (`Pattern.span_of_check_eq_error`).
-/

namespace SpanTree

/-- A span is a range of the source, and its positions are those of its ends. -/
structure Span.Placed (source : Bytes) (s : Span) : Prop where
  le : s.start ≤ s.stop
  stop_le : s.stop ≤ source.length
  startPos : s.startPos = (LineIndex.ofBytes source).position s.start
  stopPos : s.stopPos = (LineIndex.ofBytes source).position s.stop

theorem Span.placed_ofRange {source : Bytes} {start stop : Nat} (hle : start ≤ stop)
    (hstop : stop ≤ source.length) :
    (ofRange (LineIndex.ofBytes source) start stop).Placed source :=
  ⟨hle, hstop, rfl, rfl⟩

theorem Span.placed_whole (source : Bytes) : (whole source).Placed source :=
  placed_ofRange (Nat.zero_le _) (Nat.le_refl _)

/-- What a node says of the source is true. -/
structure Node.TrueTo (source : Bytes) (n : Node) : Prop where
  placed : n.span.Placed source
  /-- white space is there, and is blank -/
  blank : n.kind = .trivia → n.span.start < n.span.stop ∧
    ∀ b ∈ source.slice n.span.start n.span.stop, Byte.isSpace b = true

/-! ## Fragments -/

namespace FragmentParse

variable {rule : PatternRule} {fragment : Bytes} {t : RawTree}

/-- Below the root of a fragment a node is one of the trace. -/
theorem exists_traced {c n : Node} (hc : c ∈ (ofTree rule fragment t).root.children)
    (hn : n ∈ c.walk) : ∃ x ∈ Traced.walkAll (t.fragmentTrace rule fragment), x.node = n := by
  have hmem := List.mem_flatMap.mpr ⟨c, hc, hn⟩
  rw [← t.nodeAll_fragmentTrace rule fragment, Traced.walk_nodeAll] at hmem
  exact List.mem_map.mp hmem

/-- The positions of every node were looked up in the lines of the fragment. -/
theorem placed_ofTree :
    ∀ n ∈ (ofTree rule fragment t).root.walk, n.span.Placed fragment := by
  intro n hn
  have htiled := tiled_ofTree rule fragment t
  have hle := (htiled.of_mem_walk hn).le
  have hstop := (htiled.inside n hn).2
  rw [stop_ofTree] at hstop
  have hlooked : ∃ e, n.span = (Lowering.wrapped rule fragment).spanOf e := by
    rw [Node.walk_eq, List.mem_cons, List.mem_flatMap] at hn
    rcases hn with rfl | ⟨c, hc, hn⟩
    · exact ⟨_, rfl⟩
    · obtain ⟨x, hx, rfl⟩ := exists_traced hc hn
      rw [Traced.node_eq]
      exact (RawTree.made_fragmentTrace x hx).span
  obtain ⟨e, he⟩ := hlooked
  refine ⟨hle, hstop, ?_, ?_⟩
  · rw [he]
    rfl
  · rw [he]
    rfl

/-- White space in a fragment is blank, and there is some. -/
theorem blank_ofTree :
    ∀ n ∈ (ofTree rule fragment t).root.walk, n.kind = .trivia → n.span.start < n.span.stop ∧
      (fragment.slice n.span.start n.span.stop).all Byte.isSpace = true := by
  intro n hn hkind
  rw [Node.walk_eq, List.mem_cons, List.mem_flatMap] at hn
  rcases hn with rfl | ⟨c, hc, hn⟩
  · cases hkind
  obtain ⟨x, hx, rfl⟩ := exists_traced hc hn
  have hmade := RawTree.made_fragmentTrace x hx
  rw [Traced.node_eq] at hkind ⊢
  -- neither a raw node nor a part of a raw leaf is ever white space
  have hgap : x.isGap = true := by
    obtain ⟨s | _ | _, kind, named, span, children⟩ := x
    · have hraw := (hmade.raw s rfl).1.symm.trans hkind
      rw [RawTree.nodeKind] at hraw
      split at hraw
      · cases hraw
      · split at hraw <;> cases hraw
    · obtain ⟨e, he⟩ := hmade.part rfl
      rw [he] at hkind
      cases hkind
    · rfl
  obtain ⟨-, hlt, hblank⟩ := RawTree.inserted_fragmentTrace hx hgap
  refine ⟨hlt, ?_⟩
  dsimp only at hkind
  rw [hkind] at hblank
  split at hblank
  · assumption
  · cases hblank

end FragmentParse

/-- Every node of a parse of a text is true to the text, although its placeholders were
masked. -/
theorem Pattern.trueTo_parseOf (g : Grammar) (text : String) (trees : Choice.RuleTrees)
    (c : Grammar.Candidate) :
    ∀ n ∈ (parseOf g text trees c).root.walk, n.TrueTo (Utf8.encode text) := by
  intro n hn
  have hindex : LineIndex.ofBytes (placeholders g text).masked =
      LineIndex.ofBytes (Utf8.encode text) :=
    Placeholder.ofBytes_masked g.sigil (Utf8.encode text) g.wildcard
  obtain ⟨hle, hstop, hstartPos, hstopPos⟩ := FragmentParse.placed_ofTree n hn
  rw [length_masked] at hstop
  rw [hindex] at hstartPos hstopPos
  refine ⟨⟨hle, hstop, hstartPos, hstopPos⟩, fun hkind => ?_⟩
  obtain ⟨hlt, hblank⟩ := FragmentParse.blank_ofTree n hn hkind
  rw [placeholders, Placeholder.all_isSpace_masked] at hblank
  exact ⟨hlt, List.all_eq_true.mp hblank⟩

/-! ## Tagging -/

/-- If the nodes of a tree are true to a source, and those of what one of them is replaced
by, then so are the nodes afterwards. -/
theorem Node.Swap.trueTo {source : Bytes} {x y n m : Node} (h : Swap x y n m)
    (hy : ∀ k ∈ y.walk, k.TrueTo source) (hn : ∀ k ∈ n.walk, k.TrueTo source) :
    ∀ k ∈ m.walk, k.TrueTo source :=
  -- kind and span are all that it depends on
  h.forall_walk (fun _ _ _ _ _ htrue => ⟨htrue.placed, htrue.blank⟩) hy hn

/-- A node that was tagged is true to the source if it was before. -/
theorem Node.TrueTo.tagged {source : Bytes} {x : Node} (h : x.TrueTo source) (site : Site) :
    ∀ k ∈ (x.tagged site).walk, k.TrueTo source := by
  refine forall_mem_walk.mpr ⟨⟨h.placed, ?_⟩, by simp [Node.tagged, leaf]⟩
  -- a placeholder is no white space
  intro hkind
  obtain ⟨extent, _ | _⟩ := site <;> cases hkind

namespace Tagging

/-- What a tagging says of the source is true. -/
structure TrueTo (source : Bytes) (t : Tagging) : Prop where
  nodes : ∀ n ∈ t.root.walk, n.TrueTo source
  metavariables : ∀ m ∈ t.metavariables, m.span.Placed source
  wildcards : ∀ span ∈ t.wildcards, span.Placed source

/-- Tagging one more site keeps it true. -/
theorem TrueTo.add {source : Bytes} {t : Tagging} (h : t.TrueTo source) (site : Site) :
    (t.add site).TrueTo source := by
  rcases htag : t.root.tag site with _ | ⟨root, span⟩
  · rw [Tagging.add, htag]
    exact h
  · obtain ⟨x, -, rfl, hswap⟩ := Node.exists_swap_of_tag htag
    have hx := h.nodes x hswap.mem_walk
    have hroot := hswap.trueTo (hx.tagged site) h.nodes
    rw [Tagging.add, htag]
    obtain ⟨extent, ⟨name, ellipsis⟩ | _⟩ := site
    · refine ⟨hroot, ?_, h.wildcards⟩
      exact List.forall_mem_append.mpr ⟨h.metavariables, List.forall_mem_singleton.mpr hx.placed⟩
    · refine ⟨hroot, h.metavariables, ?_⟩
      exact List.forall_mem_append.mpr ⟨h.wildcards, List.forall_mem_singleton.mpr hx.placed⟩

/-- A tree that is true to a source stays so, whatever sites are tagged, and what is listed
is true to it. -/
theorem trueTo_ofSites {source : Bytes} {root : Node} (h : ∀ n ∈ root.walk, n.TrueTo source)
    (sites : List Site) : (ofSites root sites).TrueTo source := by
  refine List.foldlRecOn (motive := TrueTo source) sites Tagging.add ?_ ?_
  · exact ⟨h, by simp, by simp⟩
  · intro t ht site _
    exact ht.add site

end Tagging

/-! ## Refusals -/

namespace Pattern

/-- The part that is to blame is one of the parts. -/
theorem offending_mem (first : Node) (rest : List Node) :
    offending first rest ∈ first :: rest := by
  rw [offending]
  rcases hfind : (first :: rest).find? Node.isErrorRecovery with _ | n
  · exact List.mem_cons_self
  · exact List.mem_of_find?_eq_some hfind

/-- The parts of a fragment that count as code are nodes of it. -/
theorem mem_walk_of_significant {g : Grammar} {root n : Node} (h : n ∈ significant g root) :
    n ∈ root.walk := by
  have hchild : n ∈ root.children := (List.mem_filter.mp (List.mem_filter.mp h).1).1
  rw [Node.walk_eq]
  exact List.mem_cons_of_mem _ (List.mem_flatMap.mpr ⟨n, hchild, n.self_mem_walk⟩)

/-- The span of a refusal is the whole fragment, or that of one of its nodes. -/
theorem span_of_check_eq_error {g : Grammar} {strict : Bool} {root : Node} {source : Bytes}
    {span : Span} {reason : Refusal}
    (h : check g strict root source = .error (.unparseablePattern span reason)) :
    span = .whole source ∨ ∃ n ∈ root.walk, span = n.span := by
  rw [check] at h
  split at h
  · cases h
    exact .inl rfl
  · next first rest hsignificant =>
    split at h
    · cases h
      refine .inr ⟨_, mem_walk_of_significant (g := g) ?_, rfl⟩
      rw [hsignificant]
      exact offending_mem first rest
    · split at h
      · split at h
        · next n hfind =>
          cases h
          exact .inr ⟨n, List.mem_of_find?_eq_some hfind, rfl⟩
        · cases h
      · cases h

end Pattern

namespace PatternTree

variable {g : Grammar} {strict expressionOnly : Bool} {language : LanguageId} {text : String}
  {trees : Choice.RuleTrees}

/-- What a pattern says of its text is true. -/
theorem trueTo_of_ofText {p : PatternTree}
    (h : ofText g strict language expressionOnly text trees = .ok p) :
    Tagging.TrueTo (Utf8.encode text) ⟨p.root, p.metavariables, p.wildcards⟩ := by
  obtain ⟨c, -, -, -, rfl⟩ := exists_of_ofText_eq_ok h
  exact Tagging.trueTo_ofSites (Pattern.trueTo_parseOf g text trees c) _

/-- The span of a refusal is in place. -/
theorem placed_of_ofText {span : Span} {reason : Refusal}
    (h : ofText g strict language expressionOnly text trees =
      .error (.unparseablePattern span reason)) : span.Placed (Utf8.encode text) := by
  obtain ⟨c, -, -, heq⟩ := exists_ofText_eq g expressionOnly text trees
  rw [heq] at h
  split at h
  · cases h
    exact Span.placed_whole _
  · rcases hcheck : Pattern.check g strict (Pattern.parseOf g text trees c).root
      (Utf8.encode text) with e | _
    · rw [hcheck] at h
      cases h
      rcases Pattern.span_of_check_eq_error hcheck with rfl | ⟨n, hn, rfl⟩
      · exact Span.placed_whole _
      · exact (Pattern.trueTo_parseOf g text trees c n hn).placed
    · rw [hcheck] at h
      cases h

/-- **Masking disturbs neither positions nor white space.** Each span of a pattern and of a
refusal is a range of the text as it was given, with the positions of its ends there, and
white space in a pattern is blank in the text, and not empty. -/
theorem ofText_positions (g : Grammar) (strict : Bool) (language : LanguageId)
    (expressionOnly : Bool) (text : String) (trees : Choice.RuleTrees) :
    (∀ p, ofText g strict language expressionOnly text trees = .ok p →
      (∀ n ∈ p.root.walk, n.span.Placed (Utf8.encode text)) ∧
      (∀ m ∈ p.metavariables, m.span.Placed (Utf8.encode text)) ∧
      (∀ span ∈ p.wildcards, span.Placed (Utf8.encode text)) ∧
      ∀ n ∈ p.root.walk, n.kind = .trivia → n.span.start < n.span.stop ∧
        ∀ b ∈ (Utf8.encode text).slice n.span.start n.span.stop, Byte.isSpace b = true) ∧
    ∀ span reason, ofText g strict language expressionOnly text trees =
      .error (.unparseablePattern span reason) → span.Placed (Utf8.encode text) := by
  refine ⟨fun p h => ?_, fun span reason h => placed_of_ofText h⟩
  have htrue := trueTo_of_ofText h
  refine ⟨fun n hn => ?_, htrue.metavariables, htrue.wildcards, fun n hn => ?_⟩
  · exact (htrue.nodes n hn).placed
  · exact (htrue.nodes n hn).blank

/-- The raw tree for `(f(`, a line feed, ` _X)`: a call over two lines, cut off as above. -/
def cutOffLines : RawTree :=
  ⟨"module", true, false, false, true, 0, 8,
    [⟨"ERROR", true, true, false, true, 0, 8,
      [⟨"(", false, false, false, false, 0, 1, []⟩,
        ⟨"call", true, false, false, false, 1, 8,
          [⟨"identifier", true, false, false, false, 1, 2, []⟩,
            ⟨"argument_list", true, false, false, false, 2, 8,
              [⟨"(", false, false, false, false, 2, 3, []⟩,
                ⟨"identifier", true, false, false, false, 5, 7, []⟩,
                ⟨")", false, false, false, false, 7, 8, []⟩]⟩]⟩]⟩]⟩

/-- The raw tree for `(`, a line feed, `))`, where the brackets are left over. -/
def strayBracket : RawTree :=
  ⟨"module", true, false, false, true, 0, 4,
    [⟨"ERROR", true, true, false, true, 0, 4,
      [⟨"(", false, false, false, false, 0, 1, []⟩,
        ⟨")", false, false, false, false, 2, 3, []⟩,
        ⟨")", false, false, false, false, 3, 4, []⟩]⟩]⟩

/-- The metavariable on the second line is listed with its place there, and the bracket on
the second line is refused with its place. -/
theorem ofText_positions_cutOffLines :
    ∃ p, ofText bracketGrammar true ⟨"python"⟩ true "f(\n $X" (fun _ => cutOffLines) = .ok p ∧
      p.metavariables = [⟨"$X", false, ⟨4, 6, ⟨2, 1⟩, ⟨2, 3⟩⟩⟩] ∧
      (∀ m ∈ p.metavariables, m.span.Placed (Utf8.encode "f(\n $X")) ∧
      (∀ n ∈ p.root.walk, n.kind = .trivia → n.span.start < n.span.stop ∧
        ∀ b ∈ (Utf8.encode "f(\n $X").slice n.span.start n.span.stop, Byte.isSpace b = true) ∧
      ∃ span, ofText bracketGrammar true ⟨"python"⟩ true "\n)" (fun _ => strayBracket) =
          .error (.unparseablePattern span (.noStructure "python")) ∧
        span = ⟨1, 2, ⟨2, 0⟩, ⟨2, 1⟩⟩ ∧ span.Placed (Utf8.encode "\n)") := by
  have hlist : (ofText bracketGrammar true ⟨"python"⟩ true "f(\n $X" fun _ =>
      cutOffLines).toOption.map (·.metavariables) =
        some [⟨"$X", false, ⟨4, 6, ⟨2, 1⟩, ⟨2, 3⟩⟩⟩] := by
    decide +kernel
  have hrefusal := (ofText_positions bracketGrammar true ⟨"python"⟩ true "\n)" fun _ =>
    strayBracket).2 ⟨1, 2, ⟨2, 0⟩, ⟨2, 1⟩⟩ (.noStructure "python") rfl
  have hpattern := (ofText_positions bracketGrammar true ⟨"python"⟩ true "f(\n $X" fun _ =>
    cutOffLines).1
  rcases hp : ofText bracketGrammar true ⟨"python"⟩ true "f(\n $X" fun _ => cutOffLines with e | p
  · rw [hp] at hlist
    cases hlist
  · rw [hp] at hlist
    obtain ⟨-, hmetavariables, -, hblank⟩ := hpattern p hp
    exact ⟨p, rfl, Option.some.inj hlist, hmetavariables, hblank, _, rfl, rfl, hrefusal⟩

end PatternTree

end SpanTree

import SpanTree.Proofs.Pattern

/-!
# Patterns agree with their placeholders

A pattern keeps its placeholders twice: as nodes of its tree and in two lists. Before
the sites are tagged the tree has no placeholder, since lowering gives plain kinds only
(`placeholders_ofTree`), and the sites of a text are in order (`separated_sites`). So
tagging is faithful: a walk over the tree meets what the lists hold, in the same order,
and each placeholder is a named leaf over one site of the text (`ofText_agrees`).
-/

namespace SpanTree

/-- A node of a plain kind is no placeholder. -/
theorem Node.isPlaceholder_of_isPlain {n : Node} (h : n.kind.isPlain = true) :
    n.isPlaceholder = false := by
  obtain ⟨kind, named, span, children⟩ := n
  cases kind <;> first | rfl | cases h

/-- The tree of a fragment has no placeholders. -/
theorem FragmentParse.placeholders_ofTree (rule : PatternRule) (fragment : Bytes) (t : RawTree) :
    (ofTree rule fragment t).root.placeholders = [] := by
  have hchildren : ∀ c ∈ (ofTree rule fragment t).root.children, c.placeholders = [] := by
    intro c hc
    refine List.filter_eq_nil_iff.mpr fun n hn => Bool.eq_false_iff.mp ?_
    exact Node.isPlaceholder_of_isPlain (isPlain_ofTree rule fragment t c hc n hn)
  rw [Node.placeholders_eq, List.flatMap_eq_nil_iff.mpr hchildren, List.append_nil]
  rfl

/-- What is read off some elements of a list is in the order of what is read off more of
them, where the two agree. -/
theorem map_filterMap_sublist {α β β' γ : Type} {f : α → Option β} {f' : α → Option β'}
    {g : β → γ} {g' : β' → γ} (h : ∀ a b, f a = some b → ∃ b', f' a = some b' ∧ g' b' = g b)
    (l : List α) : ((l.filterMap f).map g).Sublist ((l.filterMap f').map g') := by
  induction l with
  | nil => exact .slnil
  | cons a l ih =>
    rcases hf : f a with _ | b
    · rw [List.filterMap_cons_none hf]
      rcases hf' : f' a with _ | b'
      · rw [List.filterMap_cons_none hf']
        exact ih
      · rw [List.filterMap_cons_some hf', List.map_cons]
        exact ih.cons _
    · obtain ⟨b', hf', hg⟩ := h a b hf
      rw [List.filterMap_cons_some hf, List.filterMap_cons_some hf', List.map_cons, List.map_cons,
        hg]
      exact ih.cons_cons _

/-- A metavariable is listed with the range of its site. -/
theorem Node.exists_site_of_metavariable? {n : Node} {m : Metavariable}
    (h : n.metavariable? = some m) : ∃ site, n.site? = some site ∧ site.extent = m.span.extent := by
  unfold metavariable? at h
  rw [site?]
  split at h <;> cases h
  next hkind =>
  rw [hkind]
  exact ⟨_, rfl, rfl⟩

/-- A wildcard is listed with the range of its site. -/
theorem Node.exists_site_of_wildcard? {n : Node} {span : Span} (h : n.wildcard? = some span) :
    ∃ site, n.site? = some site ∧ site.extent = span.extent := by
  rw [wildcard?, isWildcard] at h
  rw [site?]
  split at h
  · next hkind =>
    cases h
    rw [beq_iff_eq.mp hkind]
    exact ⟨_, rfl, rfl⟩
  · cases h

/-- The metavariables of some nodes are at sites of these nodes, in the same order. -/
theorem Node.metavariables_sublist (ns : List Node) :
    ((ns.filterMap metavariable?).map (·.span.extent)).Sublist
      ((ns.filterMap site?).map (·.extent)) :=
  map_filterMap_sublist (fun _ _ => exists_site_of_metavariable?) ns

/-- The wildcards of some nodes are at sites of these nodes, in the same order. -/
theorem Node.wildcards_sublist (ns : List Node) :
    ((ns.filterMap wildcard?).map Span.extent).Sublist ((ns.filterMap site?).map (·.extent)) :=
  map_filterMap_sublist (fun _ _ => exists_site_of_wildcard?) ns

/-- The text under a node at a site that is spelled in the source is that spelling. -/
theorem SyntaxTree.text_of_spelled {t : SyntaxTree} {n : Node} {site : Site}
    (h : site.Spelled t.source) (hextent : n.span.extent = site.extent) :
    t.text n = .ok site.kind.spelling := by
  obtain ⟨hlt, hle, hascii, htext⟩ := h
  rw [← hextent] at hlt hle hascii htext
  have hread : readRange t.source n.span.start n.span.stop =
      .ok (t.source.slice n.span.start n.span.stop) :=
    readRange_eq_slice (Nat.le_of_lt hlt) hle
  rw [text, bytes, hread]
  exact congrArg Except.ok ((Utf8.decodeLenient_of_ascii hascii).trans htext)

namespace PatternTree

/-- The lists of a pattern agree with its tree and with the sites of its text. -/
structure Agrees (p : PatternTree) (sites : List Site) : Prop where
  /-- a walk meets the metavariables as they are listed -/
  metavariables : p.root.walk.filterMap Node.metavariable? = p.metavariables
  /-- a walk meets the wildcards as they are listed -/
  wildcards : p.root.walk.filterMap Node.wildcard? = p.wildcards
  /-- the metavariables are in order, none of them empty -/
  metavariables_separated : Extent.Separated (p.metavariables.map (·.span.extent))
  /-- the wildcards are in order, none of them empty -/
  wildcards_separated : Extent.Separated (p.wildcards.map Span.extent)
  /-- a walk meets sites of the text, in order -/
  sites : (p.root.walk.filterMap Node.site?).Sublist sites
  /-- no site is met twice -/
  nodup : (p.root.walk.filterMap Node.site?).Nodup
  /-- a placeholder is a named leaf -/
  leaf : ∀ n ∈ p.root.walk, n.isPlaceholder = true → n.named = true ∧ n.isLeaf = true
  /-- the text under a placeholder is what its site is spelled as -/
  text : ∀ n ∈ p.root.walk, ∀ site, n.site? = some site → p.tree.text n = .ok site.kind.spelling

/-- **The placeholders of a pattern are those of its tree**, and stand where its text has
them: the lists agree with a walk over the tree, and the walk with the sites of the text. -/
theorem ofText_agrees {g : Grammar} {strict expressionOnly : Bool} {language : LanguageId}
    {text : String} {trees : Choice.RuleTrees} {p : PatternTree}
    (h : ofText g strict language expressionOnly text trees = .ok p) :
    p.tree.source = Utf8.encode text ∧ p.Agrees (Pattern.placeholders g text).sites := by
  obtain ⟨c, -, -, -, rfl⟩ := exists_of_ofText_eq_ok h
  have hsep : Extent.Separated ((Pattern.placeholders g text).sites.map (·.extent)) :=
    Placeholder.separated_sites g.sigil (Utf8.encode text)
  have htiled : (Pattern.parseOf g text trees c).root.Tiled := FragmentParse.tiled_ofTree _ _ _
  have hfaithful := Tagging.faithful_ofSites htiled (FragmentParse.placeholders_ofTree _ _ _) hsep
  -- the lists were compared with the placeholders of the tree; a walk passes over the rest
  have hmetavariables := (Node.filterMap_walk (fun _ => Node.metavariable?_eq_none) _).trans
    hfaithful.metavariables
  have hwildcards := (Node.filterMap_walk (fun _ => Node.wildcard?_eq_none) _).trans
    hfaithful.wildcards
  have hsites := hfaithful.listed
  rw [← Node.filterMap_walk fun _ => Node.site?_eq_none] at hsites
  have hextents := hsep.sublist (hsites.map _)
  refine ⟨rfl, hmetavariables, hwildcards, ?_, ?_, hsites, ?_, ?_, ?_⟩
  · show Extent.Separated ((Tagging.ofSites _ _).metavariables.map _)
    rw [← hmetavariables]
    exact hextents.sublist (Node.metavariables_sublist _)
  · show Extent.Separated ((Tagging.ofSites _ _).wildcards.map _)
    rw [← hwildcards]
    exact hextents.sublist (Node.wildcards_sublist _)
  · refine List.Pairwise.of_map (·.extent) ?_ hextents.nodup
    exact fun site site' hne heq => hne (congrArg _ heq)
  · intro n hn hplaceholder
    exact hfaithful.leaf n (Node.mem_placeholders.mpr ⟨hn, hplaceholder⟩)
  · intro n hn site hsite
    have hmem := hsites.mem (List.mem_filterMap.mpr ⟨n, hn, hsite⟩)
    exact SyntaxTree.text_of_spelled
      (Placeholder.spelled_of_mem_sites g.sigil (Utf8.encode text) site hmem)
      (Tagging.extent_of_site? hsite)

/-- The call that is cut off has a wildcard and a metavariable, which its lists agree on. -/
theorem ofText_agrees_cutOffCall :
    ∃ p, ofText bracketGrammar true ⟨"python"⟩ true "f(..., $X" (fun _ => cutOffCall) = .ok p ∧
      (p.metavariables.map (·.name), p.wildcards.map Span.extent) = (["$X"], [⟨2, 5⟩]) ∧
      p.tree.source = Utf8.encode "f(..., $X" ∧
      p.Agrees (Pattern.placeholders bracketGrammar "f(..., $X").sites := by
  have hlists :
      (ofText bracketGrammar true ⟨"python"⟩ true "f(..., $X" fun _ => cutOffCall).toOption.map
        (fun p => (p.metavariables.map (·.name), p.wildcards.map Span.extent)) =
      some (["$X"], [⟨2, 5⟩]) := by
    decide +kernel
  rcases hp : ofText bracketGrammar true ⟨"python"⟩ true "f(..., $X" fun _ => cutOffCall with e | p
  · rw [hp] at hlists
    cases hlists
  · rw [hp] at hlists
    exact ⟨p, rfl, Option.some.inj hlists, ofText_agrees hp⟩

end PatternTree

end SpanTree

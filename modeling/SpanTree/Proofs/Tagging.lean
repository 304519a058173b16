import SpanTree.Pattern.Tagging
import SpanTree.Proofs.Placeholder

/-!
# What tagging does to a tree

Tagging a site replaces one node of the tree, one that fits the site, by a leaf of the
same span (`exists_swap_of_tag`), and does nothing else. So a tiled tree stays tiled
(`Swap.tiled`). Where the sites are taken from left to right, the new leaf comes after
all placeholders that the tree has, and it takes the place of none of them
(`Swap.placeholders_eq`): a site that is still to be tagged lies behind the ones before.
Hence the lists that tagging keeps are at every step those that a walk over the tree
would give (`Faithful`, `faithful_ofSites`).
-/

namespace SpanTree

namespace Node

/-! ## Placeholders of a tree -/

/-- Whether a node is a placeholder. -/
def isPlaceholder (n : Node) : Bool := n.isMetavariable || n.isWildcard

/-- The site that a placeholder stands for, read off the node. -/
def site? (n : Node) : Option Site :=
  match n.kind with
  | .metavariable name ellipsis => some ⟨n.span.extent, .metavariable name ellipsis⟩
  | .wildcard => some ⟨n.span.extent, .wildcard⟩
  | _ => none

/-- The metavariable that a node is, as it is listed. -/
def metavariable? (n : Node) : Option Metavariable :=
  match n.kind with
  | .metavariable name ellipsis => some ⟨name, ellipsis, n.span⟩
  | _ => none

/-- The span of a node that is a wildcard, as it is listed. -/
def wildcard? (n : Node) : Option Span := if n.isWildcard then some n.span else none

/-- The placeholders of a tree in the order of the walk. -/
def placeholders (n : Node) : List Node := n.findAll isPlaceholder

theorem isSome_site? (n : Node) : n.site?.isSome = n.isPlaceholder := by
  rw [site?, isPlaceholder, isMetavariable, isWildcard]
  split <;> simp_all

theorem site?_eq_none {n : Node} (h : n.isPlaceholder = false) : n.site? = none := by
  rw [← isSome_site?] at h
  exact Option.isSome_eq_false_iff.mp h |> Option.isNone_iff_eq_none.mp

theorem metavariable?_eq_none {n : Node} (h : n.isPlaceholder = false) :
    n.metavariable? = none := by
  rw [isPlaceholder, isMetavariable] at h
  unfold metavariable?
  split <;> simp_all

theorem wildcard?_eq_none {n : Node} (h : n.isPlaceholder = false) : n.wildcard? = none := by
  rw [isPlaceholder] at h
  rw [wildcard?]
  simp_all

/-- What is read off placeholders alone can be read off all nodes of a walk. -/
theorem filterMap_walk {β : Type} {f : Node → Option β}
    (hf : ∀ n : Node, n.isPlaceholder = false → f n = none) (n : Node) :
    n.walk.filterMap f = n.placeholders.filterMap f := by
  rw [placeholders, findAll, List.filterMap_filter]
  congr 1
  funext m
  rcases hm : m.isPlaceholder with _ | _
  · exact hf m hm
  · rfl

/-! ## Replacing one node -/

/-- The second tree is the first with a node `x` of it replaced by `y`. -/
inductive Swap (x y : Node) : Node → Node → Prop
  /-- the node itself -/
  | here : Swap x y x y
  /-- a node below one of the children -/
  | child {kind : NodeKind} {named : Bool} {span : Span} {n m : Node} (before after : List Node) :
      Swap x y n m →
      Swap x y ⟨kind, named, span, before ++ n :: after⟩ ⟨kind, named, span, before ++ m :: after⟩

/-- The leaf that a node becomes when it is tagged. -/
def tagged (x : Node) (site : Site) : Node := leaf site.kind.nodeKind true x.span

mutual

/-- Tagging at or below a node replaces one node that fits. -/
theorem exists_swap_of_tagAt (site : Site) : ∀ {n m : Node} {span : Span},
    tagAt site n = some (m, span) →
      ∃ x, x.fitsSite site = true ∧ span = x.span ∧ Swap x (x.tagged site) n m
  | ⟨kind, named, nspan, children⟩, m, span, h => by
    rw [tagAt] at h
    rcases hamong : tagAmong site children with _ | ⟨children', span'⟩
    · rw [hamong] at h
      dsimp only at h
      split at h
      · next hfits =>
        cases h
        exact ⟨_, hfits, rfl, .here⟩
      · cases h
    · rw [hamong] at h
      cases h
      obtain ⟨x, before, c, d, after, hfits, hspan, hns, hms, hswap⟩ :=
        exists_swap_of_tagAmong site hamong
      exact ⟨x, hfits, hspan, hns ▸ hms ▸ hswap.child before after⟩

/-- Tagging among nodes replaces one that fits, at or below one of them. -/
theorem exists_swap_of_tagAmong (site : Site) : ∀ {ns ms : List Node} {span : Span},
    tagAmong site ns = some (ms, span) →
      ∃ x before n m after, x.fitsSite site = true ∧ span = x.span ∧
        ns = before ++ n :: after ∧ ms = before ++ m :: after ∧ Swap x (x.tagged site) n m
  | [], ms, span, h => by
    rw [tagAmong] at h
    cases h
  | n :: ns, ms, span, h => by
    rw [tagAmong] at h
    split at h
    · obtain ⟨⟨m, span'⟩, hat, heq⟩ := Option.map_eq_some_iff.mp h
      cases heq
      obtain ⟨x, hfits, hspan, hswap⟩ := exists_swap_of_tagAt site hat
      exact ⟨x, [], n, m, ns, hfits, hspan, rfl, rfl, hswap⟩
    · obtain ⟨⟨ms', span'⟩, hamong, heq⟩ := Option.map_eq_some_iff.mp h
      cases heq
      obtain ⟨x, before, c, d, after, hfits, hspan, rfl, rfl, hswap⟩ :=
        exists_swap_of_tagAmong site hamong
      exact ⟨x, n :: before, c, d, after, hfits, hspan, rfl, rfl, hswap⟩

end

/-- Tagging a site replaces one node below the root that fits it by a leaf. -/
theorem exists_swap_of_tag {root root' : Node} {site : Site} {span : Span}
    (h : root.tag site = some (root', span)) :
    ∃ x, x.fitsSite site = true ∧ span = x.span ∧ Swap x (x.tagged site) root root' := by
  obtain ⟨kind, named, rspan, children⟩ := root
  obtain ⟨⟨children', span'⟩, hamong, heq⟩ := Option.map_eq_some_iff.mp h
  cases heq
  obtain ⟨x, before, n, m, after, hfits, hspan, hns, rfl, hswap⟩ :=
    exists_swap_of_tagAmong site hamong
  obtain rfl : children = before ++ n :: after := hns
  exact ⟨x, hfits, hspan, hswap.child before after⟩

/-- A node that fits a site has exactly its range. -/
theorem extent_of_fitsSite {x : Node} {site : Site} (h : x.fitsSite site = true) :
    x.span.extent = site.extent := by
  simp only [fitsSite, Span.sameRange, Bool.and_eq_true, beq_iff_eq] at h
  obtain ⟨⟨⟨hstart, hstop⟩, -⟩, -⟩ := h
  rw [Span.extent, hstart, hstop]

section Swap

variable {x y n m : Node}

theorem Swap.span_eq (h : Swap x y n m) (hspan : y.span = x.span) : m.span = n.span := by
  cases h with
  | here => exact hspan
  | child => rfl

/-- One of the nodes that tile a range may be replaced by another one of its span. -/
theorem Tiles.replace {start stop : Nat} {before after : List Node}
    (h : Tiles start stop (before ++ n :: after)) (hspan : m.span = n.span) (hm : m.Tiled) :
    Tiles start stop (before ++ m :: after) where
  abut := by
    obtain ⟨middle, hbefore, hstart, hafter⟩ := abut_append.mp h.abut
    refine abut_append.mpr ⟨middle, hbefore, ?_, ?_⟩
    · rw [hspan, hstart]
    · rw [hspan]
      exact hafter
  tiled := by
    have htiled := h.tiled
    rw [List.forall_mem_append, List.forall_mem_cons] at htiled ⊢
    exact ⟨htiled.1, hm, htiled.2.2⟩

/-- A tiled tree in which a node is replaced by one of its span is tiled. -/
theorem Swap.tiled (h : Swap x y n m) (hspan : y.span = x.span) (hy : y.Tiled)
    (hn : n.Tiled) : m.Tiled := by
  induction h with
  | here => exact hy
  | child before after h ih =>
    have htiles := hn.tiles (by simp)
    have hchild := hn.child (List.mem_append_right _ List.mem_cons_self)
    exact (htiles.replace (h.span_eq hspan) (ih hchild)).tiled_node

theorem Swap.mem_walk (h : Swap x y n m) : x ∈ n.walk := by
  induction h with
  | here => exact x.self_mem_walk
  | child before after h ih =>
    rw [walk_eq]
    refine List.mem_cons_of_mem _ (List.mem_flatMap.mpr ⟨_, ?_, ih⟩)
    exact List.mem_append_right _ List.mem_cons_self

/-- What holds of the nodes of a tree, whatever their children are, holds after one of them
is replaced, if it holds of the nodes of what takes its place. -/
theorem Swap.forall_walk {P : Node → Prop}
    (hP : ∀ kind named span cs ds, P ⟨kind, named, span, cs⟩ → P ⟨kind, named, span, ds⟩)
    (h : Swap x y n m) (hy : ∀ k ∈ y.walk, P k) (hn : ∀ k ∈ n.walk, P k) : ∀ k ∈ m.walk, P k := by
  induction h with
  | here => exact hy
  | child before after h ih =>
    rw [forall_mem_walk] at hn ⊢
    obtain ⟨hself, hbelow⟩ := hn
    refine ⟨hP _ _ _ _ _ hself, ?_⟩
    rw [List.forall_mem_append, List.forall_mem_cons] at hbelow ⊢
    exact ⟨hbelow.1, ih hbelow.2.1, hbelow.2.2⟩

/-- What stands behind one of the nodes that tile a range starts where it ends, or later. -/
theorem Tiles.le_of_after {start stop : Nat} {before after : List Node}
    (h : Tiles start stop (before ++ n :: after)) :
    ∀ c ∈ after, ∀ k ∈ c.walk, n.span.stop ≤ k.span.start := by
  intro c hc k hk
  obtain ⟨middle, -, -, hafter⟩ := abut_append.mp h.abut
  have htiled : ∀ c ∈ after, c.Tiled := fun c hc =>
    h.tiled c (List.mem_append_right _ (List.mem_cons_of_mem _ hc))
  have hstart := (hafter.bounds fun c hc => (htiled c hc).le).2 c hc
  have hinside := (htiled c hc).inside k hk
  omega

theorem placeholders_eq (n : Node) :
    n.placeholders = (if n.isPlaceholder then [n] else []) ++ n.children.flatMap placeholders := by
  have hfilter : (fun c : Node => c.walk.filter isPlaceholder) = placeholders := rfl
  rw [placeholders, findAll, walk_eq, List.filter_cons, List.filter_flatMap, hfilter]
  split <;> rfl

theorem mem_placeholders {k : Node} : k ∈ n.placeholders ↔ k ∈ n.walk ∧ k.isPlaceholder = true :=
  List.mem_filter

/-- In a tiled tree whose placeholders are leaves, replacing a node leaves the placeholders
in front of it and those behind it. The latter start where the node ends, or later. -/
theorem Swap.exists_placeholders_eq (h : Swap x y n m) (hn : n.Tiled)
    (hleaf : ∀ k ∈ n.placeholders, k.isLeaf = true) :
    ∃ before after, n.placeholders = before ++ x.placeholders ++ after ∧
      m.placeholders = before ++ y.placeholders ++ after ∧
      ∀ k ∈ after, x.span.stop ≤ k.span.start := by
  induction h with
  | here => exact ⟨[], [], by simp, by simp, fun _ hk => absurd hk List.not_mem_nil⟩
  | @child kind named span n m left right h ih =>
    have htiles := hn.tiles (by simp)
    -- an inner node is no placeholder, so nothing but the listings of its children counts
    have hinner : (Node.mk kind named span (left ++ n :: right)).isPlaceholder = false := by
      rw [Bool.eq_false_iff]
      intro hp
      have := hleaf _ (mem_placeholders.mpr ⟨self_mem_walk _, hp⟩)
      simp [isLeaf] at this
    have hinner' : (Node.mk kind named span (left ++ m :: right)).isPlaceholder = false := hinner
    have hlist := placeholders_eq ⟨kind, named, span, left ++ n :: right⟩
    have hlist' := placeholders_eq ⟨kind, named, span, left ++ m :: right⟩
    simp only [hinner, hinner', List.flatMap_append, List.flatMap_cons, Bool.false_eq_true,
      if_false, List.nil_append] at hlist hlist'
    have hchild : n ∈ left ++ n :: right := List.mem_append_right _ List.mem_cons_self
    obtain ⟨before, after, hbefore, hafter, hle⟩ := ih (hn.child hchild) fun k hk =>
      hleaf k (by rw [hlist]; simp [hk])
    refine ⟨left.flatMap placeholders ++ before, after ++ right.flatMap placeholders, ?_, ?_, ?_⟩
    · rw [hlist, hbefore]
      simp only [List.append_assoc]
    · rw [hlist', hafter]
      simp only [List.append_assoc]
    · intro k hk
      rcases List.mem_append.mp hk with hk | hk
      · exact hle k hk
      · obtain ⟨c, hc, hk⟩ := List.mem_flatMap.mp hk
        have hx := (hn.child hchild).inside x h.mem_walk
        have := htiles.le_of_after c hc k (mem_placeholders.mp hk).1
        omega

/-! ## One more placeholder -/

theorem isPlaceholder_tagged (x : Node) (site : Site) : (x.tagged site).isPlaceholder = true := by
  obtain ⟨extent, _ | _⟩ := site <;> rfl

theorem placeholders_tagged (x : Node) (site : Site) :
    (x.tagged site).placeholders = [x.tagged site] := by
  rw [placeholders_eq, isPlaceholder_tagged]
  rfl

/-- The site of a tagged node is the one that it was tagged for. -/
theorem site?_tagged {site : Site} (h : x.span.extent = site.extent) :
    (x.tagged site).site? = some site := by
  obtain ⟨extent, _ | _⟩ := site <;> subst h <;> rfl

/-- A node behind all placeholders becomes the last of them. -/
theorem Swap.placeholders_eq {site : Site} (h : Swap x (x.tagged site) n m) (hn : n.Tiled)
    (hleaf : ∀ k ∈ n.placeholders, k.isLeaf = true)
    (hbehind : ∀ k ∈ n.placeholders, k.span.start < k.span.stop ∧ k.span.stop ≤ x.span.start) :
    m.placeholders = n.placeholders ++ [x.tagged site] := by
  obtain ⟨before, after, hold, hnew, hle⟩ := h.exists_placeholders_eq hn hleaf
  rw [hold] at hbehind
  have hx := hn.of_mem_walk h.mem_walk
  -- a placeholder at or below the node, or behind it, would start no earlier than the node
  have hwithin : x.placeholders = [] := by
    refine List.eq_nil_iff_forall_not_mem.mpr fun k hk => ?_
    have hinside := hx.inside k (mem_placeholders.mp hk).1
    have hbehind := hbehind k (by simp [hk])
    omega
  have hafter : after = [] := by
    refine List.eq_nil_iff_forall_not_mem.mpr fun k hk => ?_
    have hstart := hle k hk
    have hbehind := hbehind k (by simp [hk])
    have := hx.le
    omega
  rw [hnew, hold, placeholders_tagged, hwithin, hafter, List.append_nil, List.append_nil,
    List.append_nil]

end Swap

end Node

/-! ## Tagging all sites -/

namespace Tagging

/-- A tiled tree stays tiled when a site is tagged. -/
theorem tiled_add {t : Tagging} (h : t.root.Tiled) (site : Site) : (t.add site).root.Tiled := by
  rcases htag : t.root.tag site with _ | ⟨root, span⟩
  · rw [add, htag]
    exact h
  · obtain ⟨x, -, -, hswap⟩ := Node.exists_swap_of_tag htag
    have hx := h.of_mem_walk hswap.mem_walk
    have hroot : root.Tiled := hswap.tiled rfl (Node.tiled_leaf hx.le) h
    rw [add, htag]
    obtain ⟨extent, ⟨name, ellipsis⟩ | _⟩ := site <;> exact hroot

/-- A tiled tree stays tiled, whatever sites are tagged. -/
theorem tiled_ofSites {root : Node} (h : root.Tiled) (sites : List Site) :
    (ofSites root sites).root.Tiled := by
  refine List.foldlRecOn (motive := fun t => t.root.Tiled) sites add ?_ ?_
  · exact h
  · exact fun _ ht site _ => tiled_add ht site

/-- What holds after the sites `done` were tagged, or passed over, from left to right: the
tree is tiled, its placeholders are named leaves at sites that are done, in order, and the
lists hold these placeholders. -/
structure Faithful (t : Tagging) (done : List Site) : Prop where
  tiled : t.root.Tiled
  leaf : ∀ n ∈ t.root.placeholders, n.named = true ∧ n.isLeaf = true
  metavariables : t.root.placeholders.filterMap Node.metavariable? = t.metavariables
  wildcards : t.root.placeholders.filterMap Node.wildcard? = t.wildcards
  listed : (t.root.placeholders.filterMap Node.site?).Sublist done

/-- Every placeholder is at a site that is done. -/
theorem Faithful.exists_site {t : Tagging} {done : List Site} (h : t.Faithful done) {n : Node}
    (hn : n ∈ t.root.placeholders) : ∃ site ∈ done, n.site? = some site := by
  have hsome := Node.isSome_site? n
  rw [(Node.mem_placeholders.mp hn).2] at hsome
  obtain ⟨site, hsite⟩ := Option.isSome_iff_exists.mp hsome
  exact ⟨site, h.listed.mem (List.mem_filterMap.mpr ⟨n, hn, hsite⟩), hsite⟩

/-- The range of a placeholder is that of its site. -/
theorem extent_of_site? {n : Node} {site : Site} (h : n.site? = some site) :
    n.span.extent = site.extent := by
  rw [Node.site?] at h
  split at h <;> cases h <;> rfl

/-- Tagging the next site keeps what holds. -/
theorem Faithful.add {t : Tagging} {done : List Site} {site : Site} (h : t.Faithful done)
    (hsep : Extent.Separated ((done ++ [site]).map (·.extent))) :
    (t.add site).Faithful (done ++ [site]) := by
  rw [List.map_append, List.map_singleton] at hsep
  rcases htag : t.root.tag site with _ | ⟨root, span⟩
  · rw [Tagging.add, htag]
    exact { h with listed := h.listed.trans (List.sublist_append_left done [site]) }
  obtain ⟨x, hfits, rfl, hswap⟩ := Node.exists_swap_of_tag htag
  have hx := Node.extent_of_fitsSite hfits
  -- the placeholders of the tree are at sites that are done, all in front of this one
  have hbehind : ∀ k ∈ t.root.placeholders,
      k.span.start < k.span.stop ∧ k.span.stop ≤ x.span.start := by
    intro k hk
    obtain ⟨d, hd, hkd⟩ := h.exists_site hk
    have := hsep.lt_of_append d.extent (List.mem_map_of_mem hd)
    rw [← extent_of_site? hkd, ← hx] at this
    exact this
  have hlist := hswap.placeholders_eq h.tiled (fun k hk => (h.leaf k hk).2) hbehind
  have hleaf : ∀ n ∈ root.placeholders, n.named = true ∧ n.isLeaf = true := by
    rw [hlist, List.forall_mem_append, List.forall_mem_singleton]
    exact ⟨h.leaf, rfl, rfl⟩
  have hlisted : (root.placeholders.filterMap Node.site?).Sublist (done ++ [site]) := by
    rw [hlist, List.filterMap_append, List.filterMap_cons_some (Node.site?_tagged hx)]
    exact h.listed.append (List.Sublist.refl _)
  have htiled := tiled_add h.tiled site
  rw [Tagging.add, htag] at htiled ⊢
  obtain ⟨extent, ⟨name, ellipsis⟩ | _⟩ := site
  · refine ⟨htiled, hleaf, ?_, ?_, hlisted⟩
    · simp only [hlist, List.filterMap_append, h.metavariables]
      rfl
    · simp only [hlist, List.filterMap_append, h.wildcards]
      exact List.append_nil _
  · refine ⟨htiled, hleaf, ?_, ?_, hlisted⟩
    · simp only [hlist, List.filterMap_append, h.metavariables]
      exact List.append_nil _
    · simp only [hlist, List.filterMap_append, h.wildcards]
      rfl

/-- Tagging sites from left to right keeps what holds. -/
theorem Faithful.foldl_add {t : Tagging} {done sites : List Site} (h : t.Faithful done)
    (hsep : Extent.Separated ((done ++ sites).map (·.extent))) :
    (sites.foldl Tagging.add t).Faithful (done ++ sites) := by
  induction sites generalizing t done with
  | nil =>
    rw [List.append_nil]
    exact h
  | cons site sites ih =>
    have hsplit : done ++ site :: sites = done ++ [site] ++ sites := by simp
    rw [hsplit] at hsep ⊢
    refine ih (h.add (hsep.sublist ?_)) hsep
    exact (List.sublist_append_left (done ++ [site]) sites).map _

/-- **Tagging is faithful.** On a tiled tree without placeholders, sites in order give a
tree whose placeholders are the ones listed. -/
theorem faithful_ofSites {root : Node} {sites : List Site} (hroot : root.Tiled)
    (hnone : root.placeholders = []) (hsep : Extent.Separated (sites.map (·.extent))) :
    (ofSites root sites).Faithful sites := by
  have hstart : (Tagging.mk root [] []).Faithful [] := by
    refine ⟨hroot, ?_, ?_, ?_, ?_⟩ <;> simp [hnone]
  exact hstart.foldl_add hsep

/-- Tagging keeps the kind and the span of the root. -/
theorem root_add (t : Tagging) (site : Site) :
    (t.add site).root.kind = t.root.kind ∧ (t.add site).root.span = t.root.span := by
  rcases htag : t.root.tag site with _ | ⟨root, span⟩
  · rw [add, htag]
    exact ⟨rfl, rfl⟩
  · have hroot : root.kind = t.root.kind ∧ root.span = t.root.span := by
      obtain ⟨⟨children, span'⟩, -, heq⟩ := Option.map_eq_some_iff.mp htag
      cases heq
      exact ⟨rfl, rfl⟩
    rw [add, htag]
    obtain ⟨extent, ⟨name, ellipsis⟩ | _⟩ := site <;> exact hroot

/-- The root keeps its kind and its span. -/
theorem root_ofSites (root : Node) (sites : List Site) :
    (ofSites root sites).root.kind = root.kind ∧ (ofSites root sites).root.span = root.span := by
  refine List.foldlRecOn (motive := fun t => t.root.kind = root.kind ∧ t.root.span = root.span)
    sites add ?_ ?_
  · exact ⟨rfl, rfl⟩
  · rintro t ⟨hkind, hspan⟩ site -
    obtain ⟨hkind', hspan'⟩ := t.root_add site
    exact ⟨hkind'.trans hkind, hspan'.trans hspan⟩

end Tagging

end SpanTree

import Mathlib.Data.List.Induction
import SpanTree.Proofs.Address
import SpanTree.Proofs.Tagging

/-!
# Tagging takes the deepest node

A site is followed into the first child that has bytes and covers it, and into no other. In a
tiled tree nothing is missed by this: a range that has bytes is that of nodes on one way down
only, since what stands beside such a child lies in front of the range or behind it, or has no
bytes at all. So of all the nodes that a site fits, wherever in the tree, the deepest is tagged
(`tagAmong_cases`), and every other place keeps its label.

A site that is tagged changes nothing that another one is looked up by, if the two have no byte
in common: below a tagged node every range is within its site, before and after. So the tree
after any number of sites can be read off the tree before them (`Described`), and their order
does not matter.
-/

namespace SpanTree

/-- The two sites have no byte in common. -/
def Site.Apart (s t : Site) : Prop :=
  s.extent.stop ≤ t.extent.start ∨ t.extent.stop ≤ s.extent.start

instance : DecidableRel Site.Apart := fun s t =>
  inferInstanceAs (Decidable (s.extent.stop ≤ t.extent.start ∨ t.extent.stop ≤ s.extent.start))

theorem Site.Apart.symm {s t : Site} (h : s.Apart t) : t.Apart s := Or.symm h

namespace Node

variable {n m x : Node} {ns ms : List Node} {site : Site} {a : List Nat}

/-! ## What fits a site -/

theorem fitsSite_iff : x.fitsSite site = true ↔
    x.span.start = site.extent.start ∧ x.span.stop = site.extent.stop ∧
      x.isTrivia = false ∧ x.isErrorRecovery = false := by
  simp only [fitsSite, Span.sameRange, Bool.and_eq_true, beq_iff_eq, Bool.not_eq_true', and_assoc]

/-- No node of the tree fits the site. -/
def Unfit (site : Site) (n : Node) : Prop := ∀ y ∈ n.walk, y.fitsSite site = false

/-- Where a site is not followed, nothing fits it. -/
theorem unfit_of_not_covers (hn : n.Tiled) (hsite : site.extent.start < site.extent.stop)
    (h : n.coversSite site = false) : Unfit site n := by
  intro y hy
  rw [Bool.eq_false_iff]
  intro hfits
  obtain ⟨hstart, hstop, -⟩ := fitsSite_iff.mp hfits
  have hinside := hn.inside y hy
  have hempty : n.span.isEmpty = false := by
    rw [Span.isEmpty, beq_eq_false_iff_ne]
    omega
  rw [coversSite, hempty, Bool.not_false, Bool.and_true, decide_eq_false_iff_not] at h
  omega

/-- Behind a node that covers the site nothing fits it. -/
theorem unfit_of_covers {start stop : Nat} (h : Tiles start stop (n :: ns))
    (hsite : site.extent.start < site.extent.stop) (hcovers : n.coversSite site = true) :
    ∀ c ∈ ns, Unfit site c := by
  intro c hc y hy
  rw [Bool.eq_false_iff]
  intro hfits
  obtain ⟨hstart, -⟩ := fitsSite_iff.mp hfits
  have htiles : Tiles start stop ([] ++ n :: ns) := h
  have hbehind := htiles.le_of_after c hc y hy
  obtain ⟨hrange, -⟩ := Bool.and_eq_true_iff.mp hcovers
  have := (of_decide_eq_true hrange).2
  omega

/-! ## One site -/

/-- Of the nodes at the addresses, the deepest that fits the site is tagged, and no other
place is changed. -/
structure Hits (site : Site) (before after : List Nat → Option Node) (a : List Nat) (x : Node) :
    Prop where
  found : before a = some x
  fits : x.fitsSite site = true
  tagged : after a = some (x.tagged site)
  kept : ∀ b, ¬ a <+: b → (after b).map label = (before b).map label
  deepest : ∀ b y, before b = some y → y.fitsSite site = true → b <+: a

/-- A hit in the first of some nodes. -/
theorem Hits.head (h : Hits site n.at? m.at? a x) (hns : ∀ c ∈ ns, Unfit site c) :
    Hits site (among? (n :: ns)) (among? (m :: ns)) (0 :: a) x where
  found := h.found
  fits := h.fits
  tagged := h.tagged
  kept
    | [], _ => rfl
    | 0 :: b, hb => h.kept b fun hab => hb (List.cons_prefix_cons.mpr ⟨rfl, hab⟩)
    | (i + 1) :: b, _ => rfl
  deepest
    | [], y, hy, _ => nomatch hy
    | 0 :: b, y, hy, hfits => List.cons_prefix_cons.mpr ⟨rfl, h.deepest b y hy hfits⟩
    | (i + 1) :: b, y, hy, hfits => by
      have hamong : among? ns (i :: b) = some y := hy
      obtain ⟨c, hc, hmem⟩ := exists_mem_walk_of_among? hamong
      rw [hns c hc y hmem] at hfits
      cases hfits

/-- A hit behind the first of some nodes. -/
theorem Hits.tail {i : Nat} (h : Hits site (among? ns) (among? ms) (i :: a) x)
    (hn : Unfit site n) :
    Hits site (among? (n :: ns)) (among? (n :: ms)) ((i + 1) :: a) x where
  found := h.found
  fits := h.fits
  tagged := h.tagged
  kept
    | [], _ => rfl
    | 0 :: b, _ => rfl
    | (j + 1) :: b, hb => h.kept (j :: b) fun hprefix => by
      obtain ⟨rfl, hab⟩ := List.cons_prefix_cons.mp hprefix
      exact hb (List.cons_prefix_cons.mpr ⟨rfl, hab⟩)
  deepest
    | [], y, hy, _ => nomatch hy
    | 0 :: b, y, hy, hfits => by
      rw [hn y (mem_walk_of_at? (a := b) hy)] at hfits
      cases hfits
    | (j + 1) :: b, y, hy, hfits => by
      obtain ⟨rfl, hab⟩ := List.cons_prefix_cons.mp (h.deepest (j :: b) y hy hfits)
      exact List.cons_prefix_cons.mpr ⟨rfl, hab⟩

/-- A hit below a node. -/
theorem Hits.child (h : Hits site (among? ns) (among? ms) a x) (hwidth : ms.length = ns.length)
    (kind : NodeKind) (named : Bool) (span : Span) :
    Hits site (at? ⟨kind, named, span, ns⟩) (at? ⟨kind, named, span, ms⟩) a x := by
  have ha : a ≠ [] := by
    rintro rfl
    cases h.found
  refine ⟨(at?_of_ne_nil ha).trans h.found, h.fits, (at?_of_ne_nil ha).trans h.tagged, ?_, ?_⟩
  · rintro (_ | ⟨i, b⟩) hb
    · exact congrArg (fun width => some (Label.mk kind named span width)) hwidth
    · exact h.kept (i :: b) hb
  · rintro (_ | ⟨i, b⟩) y hy hfits
    · exact List.nil_prefix
    · exact h.deepest (i :: b) y hy hfits

/-- A hit at a node below which nothing fits. -/
theorem Hits.here (hfits : n.fitsSite site = true) (h : ∀ c ∈ n.children, Unfit site c) :
    Hits site n.at? (n.tagged site).at? [] n where
  found := rfl
  fits := hfits
  tagged := rfl
  kept b hb := absurd List.nil_prefix hb
  deepest
    | [], _, _, _ => List.nil_prefix
    | i :: b, y, hy, hy' => by
      have hamong : among? n.children (i :: b) = some y := hy
      obtain ⟨c, hc, hmem⟩ := exists_mem_walk_of_among? hamong
      rw [h c hc y hmem] at hy'
      cases hy'

/-- The children of a tiled node tile a range, if it is a leaf an empty one. -/
theorem Tiled.exists_tiles (h : n.Tiled) : ∃ start stop, Tiles start stop n.children := by
  by_cases hne : n.children = []
  · rw [hne]
    exact ⟨0, 0, Tiles.nil rfl⟩
  · exact ⟨_, _, h.tiles hne⟩

mutual

/-- At or below a tiled node, either no node fits or the deepest that fits is tagged. -/
theorem tagAt_cases (site : Site) (hsite : site.extent.start < site.extent.stop) :
    ∀ n : Node, n.Tiled →
      (tagAt site n = none ∧ Unfit site n) ∨
      ∃ m a x, tagAt site n = some (m, x.span) ∧ Hits site n.at? m.at? a x
  | ⟨kind, named, span, children⟩, hn => by
    obtain ⟨start, stop, htiles⟩ := hn.exists_tiles
    rw [tagAt]
    rcases tagAmong_cases site hsite children start stop htiles with
      ⟨hnone, hunfit⟩ | ⟨ms, a, x, hsome, hwidth, hhits⟩
    · rw [hnone]
      by_cases hfits : fitsSite ⟨kind, named, span, children⟩ site = true
      · exact Or.inr ⟨_, [], ⟨kind, named, span, children⟩, if_pos hfits, Hits.here hfits hunfit⟩
      · refine Or.inl ⟨if_neg hfits, forall_mem_walk.mpr ⟨?_, hunfit⟩⟩
        exact Bool.eq_false_iff.mpr hfits
    · rw [hsome]
      exact Or.inr ⟨_, a, x, rfl, hhits.child hwidth kind named span⟩

/-- Among nodes that tile a range, either none fits or the deepest that fits is tagged. -/
theorem tagAmong_cases (site : Site) (hsite : site.extent.start < site.extent.stop) :
    ∀ (ns : List Node) (start stop : Nat), Tiles start stop ns →
      (tagAmong site ns = none ∧ ∀ c ∈ ns, Unfit site c) ∨
      ∃ ms a x, tagAmong site ns = some (ms, x.span) ∧ ms.length = ns.length ∧
        Hits site (among? ns) (among? ms) a x
  | [], _, _, _ => Or.inl ⟨rfl, fun _ hc => absurd hc List.not_mem_nil⟩
  | n :: ns, start, stop, htiles => by
    obtain ⟨hn, hns⟩ := List.forall_mem_cons.mp htiles.tiled
    rw [tagAmong]
    split
    · next hcovers =>
      have hbehind := unfit_of_covers htiles hsite hcovers
      rcases tagAt_cases site hsite n hn with ⟨hnone, hunfit⟩ | ⟨m, a, x, hsome, hhits⟩
      · rw [hnone]
        exact Or.inl ⟨rfl, List.forall_mem_cons.mpr ⟨hunfit, hbehind⟩⟩
      · rw [hsome]
        exact Or.inr ⟨m :: ns, 0 :: a, x, rfl, rfl, hhits.head hbehind⟩
    · next hcovers =>
      have hunfit := unfit_of_not_covers hn hsite (Bool.eq_false_iff.mpr hcovers)
      rcases tagAmong_cases site hsite ns n.span.stop stop ⟨htiles.abut.2, hns⟩ with
        ⟨hnone, hrest⟩ | ⟨ms, _ | ⟨i, a⟩, x, hsome, hwidth, hhits⟩
      · rw [hnone]
        exact Or.inl ⟨rfl, List.forall_mem_cons.mpr ⟨hunfit, hrest⟩⟩
      · cases hhits.found
      · rw [hsome]
        refine Or.inr ⟨n :: ms, (i + 1) :: a, x, rfl, ?_, hhits.tail hunfit⟩
        rw [List.length_cons, List.length_cons, hwidth]

end

/-! ## The deepest node below a root -/

/-- The node at an address is one below the root that has exactly the range of the site, and is
neither white space nor error recovery. -/
def FitsAt (root : Node) (site : Site) (a : List Nat) : Prop :=
  a ≠ [] ∧ ∃ x, root.at? a = some x ∧ x.span.start = site.extent.start ∧
    x.span.stop = site.extent.stop ∧ x.isTrivia = false ∧ x.isErrorRecovery = false

/-- The node at an address fits the site, and every other that does is above it. -/
def DeepestAt (root : Node) (site : Site) (a : List Nat) : Prop :=
  FitsAt root site a ∧ ∀ b, FitsAt root site b → b <+: a

theorem DeepestAt.unique {root : Node} {a b : List Nat} (ha : DeepestAt root site a)
    (hb : DeepestAt root site b) : a = b :=
  have hab : a <+: b := hb.2 a ha.1
  hab.eq_of_length (Nat.le_antisymm hab.length_le (ha.2 b hb.1).length_le)

/-- The first tree becomes the second when the node `x`, which is at the address `a`, is
tagged. -/
structure Retagged (root root' : Node) (site : Site) (a : List Nat) (x : Node) : Prop where
  deepest : DeepestAt root site a
  found : root.at? a = some x
  tagged : root'.at? a = some (x.tagged site)
  kept : ∀ b, ¬ a <+: b → (root'.at? b).map label = (root.at? b).map label

/-- Below the root of a tiled tree, either no node fits or the deepest that fits is tagged. -/
theorem tag_cases {root : Node} (hroot : root.Tiled)
    (hsite : site.extent.start < site.extent.stop) :
    (root.tag site = none ∧ ∀ b, ¬ FitsAt root site b) ∨
    ∃ root' a x, root.tag site = some (root', x.span) ∧ Retagged root root' site a x := by
  obtain ⟨kind, named, span, ns⟩ := root
  obtain ⟨start, stop, htiles⟩ := hroot.exists_tiles
  rw [tag]
  rcases tagAmong_cases site hsite ns start stop htiles with
    ⟨hnone, hunfit⟩ | ⟨ms, a, x, hsome, hwidth, hhits⟩
  · rw [hnone]
    refine Or.inl ⟨rfl, ?_⟩
    rintro b ⟨hb, y, hy, hfits⟩
    rw [at?_of_ne_nil hb] at hy
    obtain ⟨c, hc, hmem⟩ := exists_mem_walk_of_among? hy
    have := hunfit c hc y hmem
    rw [fitsSite_iff.mpr hfits] at this
    cases this
  · rw [hsome]
    have ha : a ≠ [] := by
      rintro rfl
      cases hhits.found
    have hroot := hhits.child hwidth kind named span
    refine Or.inr ⟨_, a, x, rfl, ⟨⟨ha, x, hroot.found, fitsSite_iff.mp hroot.fits⟩, ?_⟩,
      hroot.found, hroot.tagged, hroot.kept⟩
    rintro b ⟨-, y, hy, hfits⟩
    exact hroot.deepest b y hy (fitsSite_iff.mpr hfits)

/-! ## Sites that are apart -/

/-- At or below a node that has the range of a site nothing fits another one. -/
theorem not_fitsAt_of_prefix {root : Node} {other : Site} {b : List Nat} (hroot : root.Tiled)
    (hx : root.at? a = some x)
    (hrange : x.span.start = site.extent.start ∧ x.span.stop = site.extent.stop)
    (hapart : site.Apart other) (hother : other.extent.start < other.extent.stop)
    (hab : a <+: b) : ¬ FitsAt root other b := by
  rintro ⟨-, y, hy, hstart, hstop, -⟩
  have hinside := hroot.inside_of_prefix hx hy hab
  rcases hapart with hapart | hapart
  · omega
  · omega

/-- Whether a node fits can be told from its label. -/
theorem FitsAt.of_label {root root' : Node} (h : FitsAt root site a)
    (hlabel : (root'.at? a).map label = (root.at? a).map label) : FitsAt root' site a := by
  obtain ⟨ha, x, hx, hfits⟩ := h
  rw [hx] at hlabel
  obtain ⟨y, hy, heq⟩ := Option.map_eq_some_iff.mp hlabel
  simp only [label, Label.mk.injEq] at heq
  obtain ⟨hkind, -, hspan, -⟩ := heq
  refine ⟨ha, y, hy, ?_⟩
  rw [isTrivia, isErrorRecovery, hkind, hspan]
  exact hfits

/-- What the second tree is if it is the first with some sites tagged, whatever their order
was: it has a leaf for the deepest node that fits one of them, and the labels of the first
wherever no such node is or is above. -/
structure Described (root t : Node) (done : List Site) : Prop where
  tagged : ∀ site ∈ done, ∀ a x, DeepestAt root site a → root.at? a = some x →
    t.at? a = some (x.tagged site)
  kept : ∀ b, (∀ site ∈ done, ∀ a, DeepestAt root site a → ¬ a <+: b) →
    (t.at? b).map label = (root.at? b).map label

section Described

variable {root t : Node} {done : List Site} {other : Site}

/-- What fits a further site that is apart from the others fits it in either tree. -/
theorem Described.fitsAt_iff (h : Described root t done) (hroot : root.Tiled) (ht : t.Tiled)
    (hapart : ∀ site ∈ done, site.Apart other) (hother : other.extent.start < other.extent.stop)
    (b : List Nat) : FitsAt t other b ↔ FitsAt root other b := by
  by_cases hbelow : ∃ site ∈ done, ∃ a, DeepestAt root site a ∧ a <+: b
  · obtain ⟨site, hsite, a, ha, hab⟩ := hbelow
    obtain ⟨-, x, hx, hstart, hstop, -⟩ := ha.1
    refine iff_of_false ?_ ?_
    · exact not_fitsAt_of_prefix ht (h.tagged site hsite a x ha hx) ⟨hstart, hstop⟩
        (hapart site hsite) hother hab
    · exact not_fitsAt_of_prefix hroot hx ⟨hstart, hstop⟩ (hapart site hsite) hother hab
  · have hlabel := h.kept b fun site hsite a ha hab => hbelow ⟨site, hsite, a, ha, hab⟩
    exact ⟨fun hfits => hfits.of_label hlabel.symm, fun hfits => hfits.of_label hlabel⟩

/-- Sites that were tagged in any order give the same tree. -/
theorem Described.unique {t' : Node} {done' : List Site} (h : Described root t done)
    (h' : Described root t' done') (hdone : ∀ site, site ∈ done ↔ site ∈ done') : t = t' := by
  refine eq_of_label fun b => ?_
  by_cases hbelow : ∃ site ∈ done, ∃ a, DeepestAt root site a ∧ a <+: b
  · obtain ⟨site, hsite, a, ha, c, rfl⟩ := hbelow
    obtain ⟨-, x, hx, -⟩ := ha.1
    rw [at?_append, at?_append, h.tagged site hsite a x ha hx,
      h'.tagged site ((hdone site).mp hsite) a x ha hx]
  · have hfree : ∀ site ∈ done, ∀ a, DeepestAt root site a → ¬ a <+: b :=
      fun site hsite a ha hab => hbelow ⟨site, hsite, a, ha, hab⟩
    rw [h.kept b hfree, h'.kept b fun site hsite => hfree site ((hdone site).mpr hsite)]

/-- Tagging one more site that is apart from the others: the node that is tagged is the
deepest that fits in the tree before any were. -/
theorem Described.step (h : Described root t done) (hroot : root.Tiled) (ht : t.Tiled)
    (hdone : ∀ site ∈ done, site.extent.start < site.extent.stop)
    (hapart : ∀ site ∈ done, site.Apart other)
    (hother : other.extent.start < other.extent.stop) :
    (t.tag other = none ∧ (∀ a, ¬ FitsAt root other a) ∧ Described root t (done ++ [other])) ∨
    ∃ t' a x, t.tag other = some (t', x.span) ∧ DeepestAt root other a ∧ root.at? a = some x ∧
      Described root t' (done ++ [other]) := by
  have hiff := h.fitsAt_iff hroot ht hapart hother
  rcases tag_cases ht hother with ⟨hnone, hunfit⟩ | ⟨t', a, y, hsome, hretagged⟩
  case inl =>
    have hunfit : ∀ a, ¬ FitsAt root other a := fun a => (not_congr (hiff a)).mp (hunfit a)
    refine Or.inl ⟨hnone, hunfit, ?_, fun b hb => h.kept b fun site hsite => ?_⟩
    · simp only [List.mem_append, List.mem_singleton]
      rintro site (hsite | rfl) a x ha hx
      · exact h.tagged site hsite a x ha hx
      · exact absurd ha.1 (hunfit a)
    · exact hb site (List.mem_append_left _ hsite)
  case inr =>
    have ha : DeepestAt root other a :=
      ⟨(hiff a).mp hretagged.deepest.1, fun b hb => hretagged.deepest.2 b ((hiff b).mpr hb)⟩
    obtain ⟨-, x, hx, hstart, hstop, -⟩ := ha.1
    have hfree : ∀ site ∈ done, ∀ b, DeepestAt root site b → ¬ b <+: a := by
      intro site hsite b hb hba
      obtain ⟨-, z, hz, hstart, hstop, -⟩ := hb.1
      exact not_fitsAt_of_prefix hroot hz ⟨hstart, hstop⟩ (hapart site hsite) hother hba ha.1
    have hspan : y.span = x.span := by
      have hlabel := h.kept a hfree
      rw [hretagged.found, hx] at hlabel
      exact congrArg Label.span (Option.some.inj hlabel)
    refine Or.inr ⟨t', a, x, hspan ▸ hsome, ha, hx, ?_, fun b hb => ?_⟩
    · simp only [List.mem_append, List.mem_singleton]
      rintro site (hsite | rfl) b z hb hz
      · -- the leaf of another site is not at or below the one that is new
        have hbeside : ¬ a <+: b := fun hab =>
          not_fitsAt_of_prefix hroot hx ⟨hstart, hstop⟩ (hapart site hsite).symm
            (hdone site hsite) hab hb.1
        have hkept := hretagged.kept b hbeside
        rw [h.tagged site hsite b z hb hz] at hkept
        obtain ⟨w, hw, hlabel⟩ := Option.map_eq_some_iff.mp hkept
        rw [hw, eq_leaf_of_label hlabel]
        rfl
      · obtain rfl := hb.unique ha
        obtain rfl : z = x := Option.some.inj (hz.symm.trans hx)
        rw [hretagged.tagged, Node.tagged, hspan]
        rfl
    · have hnew := hretagged.kept b (hb other (List.mem_append_right _ List.mem_cons_self) a ha)
      exact hnew.trans (h.kept b fun site hsite => hb site (List.mem_append_left _ hsite))

end Described

end Node

namespace Tagging

open Node

variable {root : Node} {sites : List Site}

theorem root_add_of_eq_none {t : Tagging} {site : Site} (h : t.root.tag site = none) :
    (t.add site).root = t.root := by
  rw [add, h]

theorem root_add_of_eq_some {t : Tagging} {site : Site} {next : Node} {span : Span}
    (h : t.root.tag site = some (next, span)) : (t.add site).root = next := by
  rw [add, h]
  obtain ⟨extent, ⟨name, ellipsis⟩ | _⟩ := site
  · rfl
  · rfl

theorem ofSites_concat (root : Node) (before : List Site) (site : Site) :
    ofSites root (before ++ [site]) = (ofSites root before).add site := by
  rw [ofSites, ofSites, List.foldl_append]
  rfl

/-- The tree after any number of sites can be read off the tree before them. -/
theorem described_ofSites (hroot : root.Tiled)
    (hsites : ∀ site ∈ sites, site.extent.start < site.extent.stop)
    (hapart : sites.Pairwise Site.Apart) : Described root (ofSites root sites).root sites := by
  induction sites using List.reverseRecOn with
  | nil =>
    exact ⟨fun _ hsite => absurd hsite List.not_mem_nil, fun _ _ => rfl⟩
  | append_singleton before site ih =>
    rw [List.forall_mem_append, List.forall_mem_singleton] at hsites
    rw [List.pairwise_append] at hapart
    obtain ⟨hbefore, -, hcross⟩ := hapart
    have hstep := (ih hsites.1 hbefore).step hroot (tiled_ofSites hroot before) hsites.1
      (fun s hs => hcross s hs site List.mem_cons_self) hsites.2
    rw [ofSites_concat]
    rcases hstep with ⟨hnone, -, h⟩ | ⟨next, a, x, hsome, -, -, h⟩
    · rw [root_add_of_eq_none hnone]
      exact h
    · rw [root_add_of_eq_some hsome]
      exact h

/-- What tagging some sites does to a tree. -/
structure Exact (root : Node) (sites : List Site) : Prop where
  /-- a site is tagged, whenever it is its turn, if some node below the root fits it -/
  tagged_iff : ∀ before site after, sites = before ++ site :: after →
    (((ofSites root before).root.tag site).isSome = true ↔ ∃ a, FitsAt root site a)
  /-- of these nodes one is the deepest -/
  exists_deepest : ∀ site ∈ sites, (∃ a, FitsAt root site a) → ∃ a, DeepestAt root site a
  /-- it is the one that is tagged: it becomes a named leaf of the kind of the site, and its
  span, which is listed, stays -/
  deepest : ∀ before site after, sites = before ++ site :: after →
    ∀ a x, DeepestAt root site a → root.at? a = some x →
      ((ofSites root before).root.tag site).map (·.2) = some x.span ∧
      (ofSites root sites).root.at? a = some (leaf site.kind.nodeKind true x.span)
  /-- a node that is neither at nor below one that is tagged keeps its place, its kind, its
  name flag, its span and its number of children -/
  kept : ∀ b, (∀ site ∈ sites, ∀ a, DeepestAt root site a → ¬ a <+: b) →
    ((ofSites root sites).root.at? b).map label = (root.at? b).map label
  /-- the tree does not depend on the order of the sites -/
  order : ∀ sites', sites'.Perm sites → (ofSites root sites').root = (ofSites root sites).root

/-- **Tagging hits the deepest node that fits, and nothing else.** In a tiled tree, in which
there may be nodes without bytes and nodes of the same range below one another, sites that have
bytes and have none in common are tagged as if each was the only one. -/
theorem exact_ofSites (hroot : root.Tiled)
    (hsites : ∀ site ∈ sites, site.extent.start < site.extent.stop)
    (hapart : sites.Pairwise Site.Apart) : Exact root sites := by
  have hdescribed := described_ofSites hroot hsites hapart
  -- the step for a site among the others, from the tree in which those in front are tagged
  have hstep : ∀ before site after, sites = before ++ site :: after →
      ((ofSites root before).root.tag site = none ∧ ∀ a, ¬ FitsAt root site a) ∨
      ∃ next a x, (ofSites root before).root.tag site = some (next, x.span) ∧
        DeepestAt root site a ∧ root.at? a = some x := by
    rintro before site after rfl
    rw [List.forall_mem_append, List.forall_mem_cons] at hsites
    obtain ⟨hbefore, -, hcross⟩ := List.pairwise_append.mp hapart
    rcases (described_ofSites hroot hsites.1 hbefore).step hroot (tiled_ofSites hroot before)
      hsites.1 (fun s hs => hcross s hs site List.mem_cons_self) hsites.2.1 with
      ⟨hnone, hunfit, -⟩ | ⟨next, a, x, hsome, ha, hx, -⟩
    · exact Or.inl ⟨hnone, hunfit⟩
    · exact Or.inr ⟨next, a, x, hsome, ha, hx⟩
  refine ⟨fun before site after heq => ?_, fun site hsite hfits => ?_,
    fun before site after heq a x ha hx => ⟨?_, ?_⟩, hdescribed.kept, fun sites' hperm => ?_⟩
  · rcases hstep before site after heq with ⟨hnone, hunfit⟩ | ⟨next, a, x, hsome, ha, -⟩
    · rw [hnone]
      exact iff_of_false Bool.false_ne_true fun ⟨a, ha⟩ => hunfit a ha
    · rw [hsome]
      exact iff_of_true rfl ⟨a, ha.1⟩
  · obtain ⟨before, after, heq⟩ := List.append_of_mem hsite
    obtain ⟨a, hfits⟩ := hfits
    rcases hstep before site after heq with ⟨-, hunfit⟩ | ⟨next, b, x, -, hb, -⟩
    · exact absurd hfits (hunfit a)
    · exact ⟨b, hb⟩
  · rcases hstep before site after heq with ⟨-, hunfit⟩ | ⟨next, b, y, hsome, hb, hy⟩
    · exact absurd ha.1 (hunfit a)
    · obtain rfl := hb.unique ha
      obtain rfl : y = x := Option.some.inj (hy.symm.trans hx)
      rw [hsome]
      rfl
  · exact hdescribed.tagged site (heq ▸ List.mem_append_right _ List.mem_cons_self) a x ha hx
  · have hapart' : sites'.Pairwise Site.Apart :=
      (hperm.pairwise_iff fun h => h.symm).mpr hapart
    have hdescribed' := described_ofSites hroot
      (fun site hsite => hsites site (hperm.mem_iff.mp hsite)) hapart'
    exact hdescribed'.unique hdescribed fun _ => hperm.mem_iff

/-- The range on one line. -/
def lineSpan (start stop : Nat) : Span := ⟨start, stop, ⟨1, .ofNat start⟩, ⟨1, .ofNat stop⟩⟩

/-- A tree in which three nodes one below the other have the range of the first two bytes, the
last of them an error, beside a token that is missing. White space and a name follow. -/
def chainTree : Node :=
  ⟨.fragment, true, lineSpan 0 5,
    [⟨.symbol "expression", true, lineSpan 0 2,
      [.leaf (.missing "(") false (lineSpan 0 0),
        ⟨.symbol "identifier", true, lineSpan 0 2, [.leaf .error true (lineSpan 0 2)]⟩]⟩,
      .leaf .trivia false (lineSpan 2 3),
      .leaf (.symbol "name") false (lineSpan 3 5)]⟩

theorem tiled_chainTree : chainTree.Tiled := by
  refine Tiles.tiled_node (.cons rfl ?_ (.cons rfl ?_ (.cons rfl ?_ (.nil rfl))))
  · refine Tiles.tiled_node (.cons rfl ?_ (.cons rfl ?_ (.nil rfl)))
    · exact tiled_leaf (by decide)
    · exact Tiles.tiled_node (.cons rfl (tiled_leaf (by decide)) (.nil rfl))
  · exact tiled_leaf (by decide)
  · exact tiled_leaf (by decide)

/-- Sites out of order, of which the last is in white space. -/
def chainSites : List Site :=
  [⟨⟨3, 5⟩, .wildcard⟩, ⟨⟨0, 2⟩, .metavariable "$X" false⟩, ⟨⟨2, 3⟩, .wildcard⟩]

/-- The identifier is tagged, not the expression above it or the error below. -/
theorem exact_ofSites_chainTree :
    chainTree.Tiled ∧ (∀ site ∈ chainSites, site.extent.start < site.extent.stop) ∧
    chainSites.Pairwise Site.Apart ∧ Exact chainTree chainSites ∧
    (ofSites chainTree chainSites).root =
      ⟨.fragment, true, lineSpan 0 5,
        [⟨.symbol "expression", true, lineSpan 0 2,
          [.leaf (.missing "(") false (lineSpan 0 0),
            .leaf (.metavariable "$X" false) true (lineSpan 0 2)]⟩,
          .leaf .trivia false (lineSpan 2 3),
          .leaf .wildcard true (lineSpan 3 5)]⟩ :=
  ⟨tiled_chainTree, by decide, by decide,
    exact_ofSites tiled_chainTree (by decide) (by decide), by decide +kernel⟩

end Tagging

end SpanTree

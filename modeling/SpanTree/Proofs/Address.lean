import SpanTree.Proofs.Tiling

/-!
# Addresses in a tree

An address leads from a node downwards, by the number of a child at each step, so that two
trees can be compared place by place. What a node is, apart from what is below it, is its
label; a tree is known if the labels at all addresses are (`eq_of_label`). A place is at or
below another one if its address continues the other's.
-/

namespace SpanTree

namespace Node

/-- The node at an address, if there is one. -/
def at? : Node → List Nat → Option Node
  | n, [] => some n
  | n, i :: a => n.children[i]?.bind fun c => c.at? a

/-- The node at an address whose first step is into one of these nodes. -/
def among? (ns : List Node) : List Nat → Option Node
  | [] => none
  | i :: a => ns[i]?.bind fun c => c.at? a

theorem at?_of_ne_nil {n : Node} {a : List Nat} (ha : a ≠ []) : n.at? a = among? n.children a := by
  rcases a with _ | ⟨i, a⟩
  · exact absurd rfl ha
  · rfl

theorem at?_append (n : Node) (a b : List Nat) :
    n.at? (a ++ b) = (n.at? a).bind fun m => m.at? b := by
  induction a generalizing n with
  | nil => rfl
  | cons i a ih =>
    rw [List.cons_append, at?, at?, Option.bind_assoc]
    exact congrArg _ (funext ih)

theorem mem_walk_of_at? {n x : Node} {a : List Nat} (h : n.at? a = some x) : x ∈ n.walk := by
  induction a generalizing n with
  | nil =>
    cases h
    exact x.self_mem_walk
  | cons i a ih =>
    obtain ⟨c, hc, hx⟩ := Option.bind_eq_some_iff.mp h
    rw [walk_eq]
    exact List.mem_cons_of_mem _ (List.mem_flatMap.mpr ⟨c, List.mem_of_getElem? hc, ih hx⟩)

/-- A node among others is a node of one of their trees. -/
theorem exists_mem_walk_of_among? {ns : List Node} {x : Node} {a : List Nat}
    (h : among? ns a = some x) : ∃ n ∈ ns, x ∈ n.walk := by
  rcases a with _ | ⟨i, a⟩
  · cases h
  · obtain ⟨c, hc, hx⟩ := Option.bind_eq_some_iff.mp h
    exact ⟨c, List.mem_of_getElem? hc, mem_walk_of_at? hx⟩

/-- No node of a tiled tree leaves the range of one that its address passes through. -/
theorem Tiled.inside_of_prefix {n x y : Node} {a b : List Nat} (hn : n.Tiled)
    (hx : n.at? a = some x) (hy : n.at? b = some y) (hab : a <+: b) :
    x.span.start ≤ y.span.start ∧ y.span.stop ≤ x.span.stop := by
  obtain ⟨c, rfl⟩ := hab
  rw [at?_append, hx] at hy
  exact (hn.of_mem_walk (mem_walk_of_at? hx)).inside y (mem_walk_of_at? hy)

/-! ## Labels -/

/-- What a node is, apart from what is below it. -/
structure Label where
  kind : NodeKind
  named : Bool
  span : Span
  /-- the number of children -/
  width : Nat
  deriving DecidableEq, Repr

/-- The label of a node. -/
def label (n : Node) : Label := ⟨n.kind, n.named, n.span, n.children.length⟩

/-- Trees that have the same labels are the same. -/
theorem eq_of_label {n m : Node} (h : ∀ a, (n.at? a).map label = (m.at? a).map label) : n = m := by
  induction n using induction generalizing m with
  | step n ih =>
    obtain ⟨kind, named, span, children⟩ := n
    obtain ⟨kind', named', span', children'⟩ := m
    have hroot := Option.some.inj (h [])
    simp only [label, Label.mk.injEq] at hroot
    obtain ⟨rfl, rfl, rfl, hwidth⟩ := hroot
    congr 1
    refine List.ext_getElem hwidth fun i hi hi' => ?_
    refine ih _ (List.getElem_mem hi) fun a => ?_
    have := h (i :: a)
    simp only [at?, List.getElem?_eq_getElem hi, List.getElem?_eq_getElem hi',
      Option.bind_some] at this
    exact this

/-- A node without children is known by its label. -/
theorem eq_leaf_of_label {n : Node} {kind : NodeKind} {named : Bool} {span : Span}
    (h : n.label = (leaf kind named span).label) : n = leaf kind named span := by
  obtain ⟨kind', named', span', children⟩ := n
  simp only [label, leaf, List.length_nil, Label.mk.injEq, List.length_eq_zero_iff] at h
  obtain ⟨rfl, rfl, rfl, rfl⟩ := h
  rfl

end Node

end SpanTree

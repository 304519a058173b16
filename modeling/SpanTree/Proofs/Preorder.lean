import SpanTree.Proofs.Address

/-!
# The order of a walk

A walk gives the nodes of a tree one at a time. What it has given and the listings of what is
still pending are, one after the other, the listing of what was pending at first, and each
step keeps this so (`Walk.preorderAll_of_next`, `Walk.Yields.preorderAll_eq`). So a walk gives
the listing by recursion and then ends (`Walk.yields_and_ends_iff`).

That listing has every place of the tree once: it is what stands at the addresses of the tree,
in ascending order (`Node.pairwise_addresses`, `Node.map_some_preorder`). An address comes
before those that continue it and, where two part, the one further to the left comes first.
-/

namespace SpanTree

namespace Walk

/-! ## Steps of a walk -/

/-- The walk gives these nodes, one at a step, and comes to another state. -/
inductive Yields : Walk → List Node → Walk → Prop
  | stay (w : Walk) : Yields w [] w
  | step {w v u : Walk} {n : Node} {ns : List Node} (first : w.next = some (n, v))
    (rest : Yields v ns u) : Yields w (n :: ns) u

theorem next_eq_none_iff {w : Walk} : w.next = none ↔ w.pending = [] := by
  obtain ⟨_ | ⟨n, rest⟩⟩ := w
  · exact ⟨fun _ => rfl, fun _ => rfl⟩
  · exact ⟨nofun, nofun⟩

/-- A step takes the first node of the listing and leaves the others to the walk. -/
theorem preorderAll_of_next {w v : Walk} {n : Node} (h : w.next = some (n, v)) :
    Node.preorderAll w.pending = n :: Node.preorderAll v.pending := by
  obtain ⟨_ | ⟨m, rest⟩⟩ := w
  · cases h
  · cases h
    rw [Node.preorderAll, Node.preorder_eq, Node.preorderAll_append, List.cons_append]

/-- What a walk has given is the front of the listing, and the rest of it is pending. -/
theorem Yields.preorderAll_eq {w v : Walk} {ns : List Node} (h : Yields w ns v) :
    Node.preorderAll w.pending = ns ++ Node.preorderAll v.pending := by
  induction h with
  | stay w => rfl
  | step first _ ih => rw [preorderAll_of_next first, ih, List.cons_append]

/-- A walk gives the whole listing and has nothing left to visit. -/
theorem yields_preorderAll (w : Walk) : w.Yields (Node.preorderAll w.pending) ⟨[]⟩ := by
  generalize hns : Node.preorderAll w.pending = ns
  induction ns generalizing w with
  | nil =>
    obtain ⟨_ | ⟨n, rest⟩⟩ := w
    · exact .stay _
    · rw [Node.preorderAll, Node.preorder_eq] at hns
      cases hns
  | cons n ns ih =>
    rcases hnext : w.next with _ | ⟨m, v⟩
    · rw [next_eq_none_iff.mp hnext] at hns
      cases hns
    · rw [preorderAll_of_next hnext] at hns
      obtain ⟨rfl, hrest⟩ := List.cons.inj hns
      exact .step hnext (ih v hrest)

/-- A walk that ends has given the whole listing, and nothing else. -/
theorem yields_and_ends_iff {w v : Walk} {ns : List Node} :
    w.Yields ns v ∧ v.next = none ↔ ns = Node.preorderAll w.pending ∧ v = ⟨[]⟩ := by
  refine ⟨?_, ?_⟩
  · rintro ⟨hyields, hend⟩
    obtain ⟨pending⟩ := v
    obtain rfl : pending = [] := next_eq_none_iff.mp hend
    have hlist := hyields.preorderAll_eq
    rw [Node.preorderAll, List.append_nil] at hlist
    exact ⟨hlist.symm, rfl⟩
  · rintro ⟨rfl, rfl⟩
    exact ⟨yields_preorderAll w, rfl⟩

end Walk

namespace Node

/-! ## The addresses of a tree -/

mutual

/-- The addresses in a tree, those of a child after those of the children before it. -/
def addresses : Node → List (List Nat)
  | ⟨_, _, _, children⟩ => [] :: addressesAmong 0 children

/-- The addresses that lead into nodes, if the first of them is the child of this number. -/
def addressesAmong (i : Nat) : List Node → List (List Nat)
  | [] => []
  | n :: ns => n.addresses.map (i :: ·) ++ addressesAmong (i + 1) ns

end

mutual

/-- The addresses in a tree are those at which it has a node. -/
theorem mem_addresses : ∀ {n : Node} {a : List Nat}, a ∈ n.addresses ↔ (n.at? a).isSome
  | ⟨_, _, _, children⟩, [] => by simp [addresses, at?]
  | ⟨_, _, _, children⟩, i :: a => by
    rw [addresses, List.mem_cons, mem_addressesAmong, at?]
    refine ⟨?_, fun h => ?_⟩
    · rintro (h | ⟨j, b, c, h, hc, hb⟩)
      · cases h
      · rw [Nat.zero_add] at h
        cases h
        rwa [hc, Option.bind_some]
    · obtain ⟨x, hx⟩ := Option.isSome_iff_exists.mp h
      obtain ⟨c, hc, hx⟩ := Option.bind_eq_some_iff.mp hx
      exact .inr ⟨i, a, c, by rw [Nat.zero_add], hc, Option.isSome_iff_exists.mpr ⟨x, hx⟩⟩

/-- The addresses that lead into nodes start with the number of one of them. -/
theorem mem_addressesAmong : ∀ {ns : List Node} {i : Nat} {a : List Nat},
    a ∈ addressesAmong i ns ↔ ∃ j b c, a = (i + j) :: b ∧ ns[j]? = some c ∧ (c.at? b).isSome
  | [], i, a => by simp [addressesAmong]
  | n :: ns, i, a => by
    rw [addressesAmong, List.mem_append, List.mem_map, mem_addressesAmong]
    refine ⟨?_, ?_⟩
    · rintro (⟨b, hb, rfl⟩ | ⟨j, b, c, rfl, hc, hb⟩)
      · exact ⟨0, b, n, rfl, rfl, mem_addresses.mp hb⟩
      · exact ⟨j + 1, b, c, by rw [Nat.add_assoc, Nat.add_comm 1], hc, hb⟩
    · rintro ⟨_ | j, b, c, rfl, hc, hb⟩
      · cases hc
        exact .inl ⟨b, mem_addresses.mpr hb, rfl⟩
      · exact .inr ⟨j, b, c, by rw [Nat.add_assoc, Nat.add_comm 1], hc, hb⟩

end

mutual

/-- The addresses in a tree ascend. -/
theorem pairwise_addresses : ∀ n : Node, n.addresses.Pairwise (· < ·)
  | ⟨_, _, _, children⟩ => by
    rw [addresses, List.pairwise_cons]
    refine ⟨fun a ha => ?_, pairwise_addressesAmong 0 children⟩
    obtain ⟨j, b, c, rfl, -⟩ := mem_addressesAmong.mp ha
    exact List.nil_lt_cons _ _

/-- So do the addresses that lead into nodes, since the children are numbered in order. -/
theorem pairwise_addressesAmong : ∀ (i : Nat) (ns : List Node),
    (addressesAmong i ns).Pairwise (· < ·)
  | _, [] => List.Pairwise.nil
  | i, n :: ns => by
    rw [addressesAmong, List.pairwise_append]
    refine ⟨?_, pairwise_addressesAmong (i + 1) ns, ?_⟩
    · exact (pairwise_addresses n).map _ fun a b h => List.cons_lt_cons_self.mpr h
    · intro a ha b hb
      obtain ⟨a, -, rfl⟩ := List.mem_map.mp ha
      obtain ⟨j, b, c, rfl, -⟩ := mem_addressesAmong.mp hb
      exact List.Lex.rel (by omega)

end

mutual

/-- The listing of a tree has what stands at its addresses. -/
theorem map_some_preorder : ∀ n : Node, n.preorder.map some = n.addresses.map n.at?
  | ⟨kind, named, span, children⟩ => by
    rw [preorder, addresses, List.map_cons, List.map_cons]
    refine congrArg _ (map_some_preorderAll fun j c a hc => ?_)
    rw [Nat.zero_add, at?, hc, Option.bind_some]

/-- The listing of several trees has what is found at the addresses that lead into them. -/
theorem map_some_preorderAll : ∀ {ns : List Node} {i : Nat} {find : List Nat → Option Node},
    (∀ j c a, ns[j]? = some c → find ((i + j) :: a) = c.at? a) →
      (preorderAll ns).map some = (addressesAmong i ns).map find
  | [], _, _, _ => by rw [preorderAll, addressesAmong, List.map_nil, List.map_nil]
  | n :: ns, i, find, hfind => by
    have hfirst : n.preorder.map some = (n.addresses.map (i :: ·)).map find := by
      rw [map_some_preorder n, List.map_map]
      exact List.map_congr_left fun a _ => (hfind 0 n a rfl).symm
    rw [preorderAll, addressesAmong, List.map_append, List.map_append, hfirst]
    refine congrArg _ (map_some_preorderAll fun j c a hc => ?_)
    rw [Nat.add_assoc, Nat.add_comm 1]
    exact hfind (j + 1) c a hc

end

/-! ## Leaves -/

mutual

/-- The nodes without children, collected from left to right. -/
def fringe : Node → List Node
  | ⟨kind, named, span, children⟩ =>
    if children.isEmpty then [⟨kind, named, span, children⟩] else fringeAll children

/-- The nodes without children in several trees, one tree after another. -/
def fringeAll : List Node → List Node
  | [] => []
  | n :: ns => fringe n ++ fringeAll ns

end

mutual

/-- To pick the leaves from the walk is to collect them. -/
theorem leaves_eq_fringe : ∀ n : Node, n.leaves = n.fringe
  | ⟨kind, named, span, children⟩ => by
    rw [leaves_eq, fringe, isLeaf]
    split
    · rfl
    · exact flatMap_leaves_eq_fringeAll children

theorem flatMap_leaves_eq_fringeAll : ∀ ns : List Node, ns.flatMap leaves = fringeAll ns
  | [] => by rw [List.flatMap_nil, fringeAll]
  | n :: ns => by
    rw [List.flatMap_cons, fringeAll, leaves_eq_fringe n, flatMap_leaves_eq_fringeAll ns]

end

end Node

/-! ## What is read off a walk -/

/-- What the walk over a node gives, and what is read off it. -/
structure Walk.IsPreorder (n : Node) : Prop where
  /-- a walk that ends has given the listing, and there is such a walk -/
  ends_iff : ∀ ns w, (ofNode n).Yields ns w ∧ w.next = none ↔ ns = n.preorder ∧ w = ⟨[]⟩
  /-- at every step the rest of the listing is still pending -/
  front : ∀ ns w, (ofNode n).Yields ns w → n.preorder = ns ++ Node.preorderAll w.pending
  walk_eq : n.walk = n.preorder
  /-- the listing has what stands at the addresses -/
  places : n.preorder.map some = n.addresses.map n.at?
  /-- which are all there are, each of them once -/
  complete : ∀ a, a ∈ n.addresses ↔ (n.at? a).isSome
  ascending : n.addresses.Pairwise (· < ·)
  findAll_eq : ∀ test, n.findAll test = n.preorder.filter test
  leaves_eq : n.leaves = n.fringe

theorem SyntaxTree.hasErrors_iff (t : SyntaxTree) : t.hasErrors = true ↔ t.errorNodes ≠ [] := by
  rw [hasErrors, errorNodes, Node.findAll, List.any_eq_true]
  refine ⟨?_, fun hne => ?_⟩
  · rintro ⟨n, hn, herror⟩
    exact List.ne_nil_of_mem (List.mem_filter.mpr ⟨hn, herror⟩)
  · obtain ⟨n, hn⟩ := List.exists_mem_of_ne_nil _ hne
    exact ⟨n, List.mem_filter.mp hn⟩

/-- **A walk is the listing by recursion.** It gives each place of the tree once, a node before
what is below it and the children from left to right, and then ends. So what is looked for in a
tree is found in this order, and so are its leaves; and a tree has errors exactly if some node
is found for one. -/
theorem Walk.isPreorder_ofNode :
    (∀ n : Node, IsPreorder n) ∧
    ∀ t : SyntaxTree, t.leaves = t.root.fringe ∧
      t.errorNodes = t.root.preorder.filter Node.isErrorRecovery ∧
      (t.hasErrors = true ↔ t.errorNodes ≠ []) := by
  have hwalk : ∀ n : Node, IsPreorder n := by
    intro n
    have hlist : Node.preorderAll (ofNode n).pending = n.preorder := by
      rw [ofNode, Node.preorderAll, Node.preorderAll, List.append_nil]
    constructor
    case ends_iff =>
      intro ns w
      rw [yields_and_ends_iff, hlist]
    case front =>
      intro ns w h
      rw [← hlist, h.preorderAll_eq]
    case walk_eq => exact n.walk_eq_preorder
    case places => exact n.map_some_preorder
    case complete => exact fun a => Node.mem_addresses
    case ascending => exact n.pairwise_addresses
    case findAll_eq =>
      intro test
      rw [Node.findAll, n.walk_eq_preorder]
    case leaves_eq => exact n.leaves_eq_fringe
  refine ⟨hwalk, fun t => ⟨(hwalk t.root).leaves_eq, ?_, t.hasErrors_iff⟩⟩
  exact (hwalk t.root).findAll_eq Node.isErrorRecovery

end SpanTree

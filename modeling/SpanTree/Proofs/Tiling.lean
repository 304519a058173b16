import SpanTree.SyntaxTree

/-!
# Tilings

Nodes abut from one offset to another if the first starts at the one, each next one
starts where the node before it ends, and the last ends at the other. A tree is tiled
if at every node the range is in order and the children, if there are any, abut from
its start to its end. Everything that is said about the spans of a tree follows from
this: no node leaves the range of its ancestors (`Tiled.inside`), and the leaves from
left to right spell the bytes under the root (`Tiled.flatMap_leaves`). Hence a tree
that is tiled and covers its source is span-complete (`spanComplete_of_tiled`).
-/

namespace SpanTree

/-! ## Slices of a buffer -/

/-- The bytes of a range of the buffer. -/
def Bytes.slice (buffer : Bytes) (start stop : Nat) : Bytes :=
  (buffer.drop start).take (stop - start)

theorem Bytes.slice_self (buffer : Bytes) (start : Nat) : buffer.slice start start = [] := by
  rw [slice, Nat.sub_self, List.take_zero]

theorem Bytes.slice_whole (buffer : Bytes) : buffer.slice 0 buffer.length = buffer := by
  rw [slice, List.drop_zero, Nat.sub_zero, List.take_length]

/-- Two ranges one after the other hold the bytes of the range from end to end. -/
theorem Bytes.slice_append (buffer : Bytes) {a b c : Nat} (hab : a ≤ b) (hbc : b ≤ c) :
    buffer.slice a b ++ buffer.slice b c = buffer.slice a c := by
  unfold slice
  rw [show c - a = (b - a) + (c - b) by omega, List.take_add, List.drop_drop,
    show a + (b - a) = b by omega]

/-- The bytes of a slice are those at the offsets of its range. -/
theorem Bytes.mem_slice {buffer : Bytes} {start stop : Nat} {b : UInt8} :
    b ∈ buffer.slice start stop ↔ ∃ i, start ≤ i ∧ i < stop ∧ buffer[i]? = some b := by
  rw [slice, List.mem_iff_getElem?]
  constructor
  · rintro ⟨i, hi⟩
    rw [List.getElem?_take] at hi
    split at hi
    · rw [List.getElem?_drop] at hi
      exact ⟨start + i, by omega, by omega, hi⟩
    · cases hi
  · rintro ⟨i, hstart, hstop, hi⟩
    refine ⟨i - start, ?_⟩
    rw [List.getElem?_take_of_lt (by omega), List.getElem?_drop, Nat.add_sub_cancel' hstart]
    exact hi

theorem readRange_eq_slice {buffer : Bytes} {start stop : Nat} (hle : start ≤ stop)
    (hstop : stop ≤ buffer.length) : readRange buffer start stop = .ok (buffer.slice start stop) :=
  readRange_of_le hle hstop

namespace Node

/-! ## The nodes of a tree -/

theorem walk_eq_preorder (n : Node) : n.walk = n.preorder := by
  rw [walk, Walk.toList_eq_preorderAll]
  simp [Walk.ofNode, preorderAll]

theorem preorderAll_eq_flatMap (ns : List Node) : preorderAll ns = ns.flatMap preorder := by
  induction ns with
  | nil => rfl
  | cons n ns ih => rw [preorderAll, ih, List.flatMap_cons]

theorem walk_eq (n : Node) : n.walk = n :: n.children.flatMap walk := by
  rw [walk_eq_preorder, preorder_eq, preorderAll_eq_flatMap]
  congr 2
  funext c
  rw [walk_eq_preorder]

/-- What holds of every node of a tree holds of the node and of every node of its
children, and conversely. -/
theorem forall_mem_walk {P : Node → Prop} {n : Node} :
    (∀ m ∈ n.walk, P m) ↔ P n ∧ ∀ c ∈ n.children, ∀ m ∈ c.walk, P m := by
  rw [walk_eq]
  simp only [List.forall_mem_cons, List.mem_flatMap]
  constructor
  · rintro ⟨hn, hall⟩
    exact ⟨hn, fun c hc m hm => hall m ⟨c, hc, hm⟩⟩
  · rintro ⟨hn, hall⟩
    exact ⟨hn, fun m ⟨c, hc, hm⟩ => hall c hc m hm⟩

theorem self_mem_walk (n : Node) : n ∈ n.walk := by
  rw [walk_eq]
  exact List.mem_cons_self

/-- What holds of a node if it holds of its children holds of every node. -/
theorem induction {P : Node → Prop} (step : ∀ n : Node, (∀ c ∈ n.children, P c) → P n)
    (n : Node) : P n := by
  apply step
  intro c hc
  have : sizeOf c < sizeOf n := by
    obtain ⟨kind, named, span, children⟩ := n
    have := List.sizeOf_lt_of_mem hc
    simp only [mk.sizeOf_spec] at this ⊢
    omega
  exact induction step c
termination_by n

/-- The nodes below a node of a tree are nodes of the tree. -/
theorem mem_walk_trans {n m k : Node} (hm : m ∈ n.walk) (hk : k ∈ m.walk) : k ∈ n.walk := by
  induction n using induction with
  | step n ih =>
    rw [walk_eq, List.mem_cons, List.mem_flatMap] at hm
    rcases hm with rfl | ⟨c, hc, hm⟩
    · exact hk
    · rw [walk_eq, List.mem_cons, List.mem_flatMap]
      exact .inr ⟨c, hc, ih c hc hm⟩

/-- A tree's leaves are the node itself if it is one, and else those of its children. -/
theorem leaves_eq (n : Node) :
    n.leaves = if n.isLeaf then [n] else n.children.flatMap leaves := by
  have hrest : n.leaves = (if n.isLeaf then [n] else []) ++ n.children.flatMap leaves := by
    have hfilter : (fun c : Node => c.walk.filter isLeaf) = leaves := rfl
    rw [leaves, findAll, walk_eq, List.filter_cons, List.filter_flatMap, hfilter]
    split <;> rfl
  rw [hrest]
  split
  · next hleaf =>
    rw [isLeaf, List.isEmpty_iff] at hleaf
    rw [hleaf, List.flatMap_nil, List.append_nil]
  · rfl

/-! ## Nodes that follow one another -/

/-- The nodes follow one another from `start` to `stop`: the first starts at `start`,
each next one where the one before it ends, and the last ends at `stop`. -/
def Abut : (start stop : Nat) → List Node → Prop
  | start, stop, [] => start = stop
  | start, stop, n :: ns => n.span.start = start ∧ Abut n.span.stop stop ns

theorem abut_append {start stop : Nat} {ns ms : List Node} :
    Abut start stop (ns ++ ms) ↔ ∃ middle, Abut start middle ns ∧ Abut middle stop ms := by
  induction ns generalizing start with
  | nil => simp [Abut]
  | cons n ns ih => simp [Abut, ih, and_assoc]

/-- Nodes that abut keep to the range that they abut in. -/
theorem Abut.bounds {start stop : Nat} {ns : List Node} (h : Abut start stop ns)
    (hle : ∀ n ∈ ns, n.span.start ≤ n.span.stop) :
    start ≤ stop ∧ ∀ n ∈ ns, start ≤ n.span.start ∧ n.span.stop ≤ stop := by
  induction ns generalizing start with
  | nil => exact ⟨Nat.le_of_eq h, fun _ hn => absurd hn List.not_mem_nil⟩
  | cons n ns ih =>
    obtain ⟨hstart, hrest⟩ := h
    obtain ⟨hlen, hle⟩ := List.forall_mem_cons.mp hle
    obtain ⟨hstop, hin⟩ := ih hrest hle
    refine ⟨by omega, List.forall_mem_cons.mpr ⟨by omega, fun m hm => ?_⟩⟩
    have := hin m hm
    omega

/-! ## Tiled trees -/

/-- At every node of the tree the range is in order, and the children, if there are
any, follow one another from its start to its end. -/
def Tiled (n : Node) : Prop :=
  ∀ m ∈ n.walk, m.span.start ≤ m.span.stop ∧
    (m.isLeaf = true ∨ Abut m.span.start m.span.stop m.children)

theorem tiled_iff {n : Node} :
    n.Tiled ↔ (n.span.start ≤ n.span.stop ∧
      (n.isLeaf = true ∨ Abut n.span.start n.span.stop n.children)) ∧
      ∀ c ∈ n.children, c.Tiled :=
  forall_mem_walk

theorem Tiled.le {n : Node} (h : n.Tiled) : n.span.start ≤ n.span.stop :=
  (h n n.self_mem_walk).1

theorem Tiled.of_mem_walk {n m : Node} (h : n.Tiled) (hm : m ∈ n.walk) : m.Tiled :=
  fun k hk => h k (mem_walk_trans hm hk)

theorem Tiled.child {n c : Node} (h : n.Tiled) (hc : c ∈ n.children) : c.Tiled :=
  (tiled_iff.mp h).2 c hc

/-- The children of a tiled node abut in its range. -/
theorem Tiled.abut {n : Node} (h : n.Tiled) (hne : n.children ≠ []) :
    Abut n.span.start n.span.stop n.children := by
  rcases (h n n.self_mem_walk).2 with hleaf | habut
  · rw [isLeaf, List.isEmpty_iff] at hleaf
    exact absurd hleaf hne
  · exact habut

/-- The children of a tiled node lie in its range. -/
theorem Tiled.child_inside {n c : Node} (h : n.Tiled) (hc : c ∈ n.children) :
    n.span.start ≤ c.span.start ∧ c.span.stop ≤ n.span.stop :=
  ((h.abut (List.ne_nil_of_mem hc)).bounds fun _ hm => (h.child hm).le).2 c hc

/-- No node of a tiled tree leaves the range of the root. -/
theorem Tiled.inside {n : Node} (h : n.Tiled) :
    ∀ m ∈ n.walk, n.span.start ≤ m.span.start ∧ m.span.stop ≤ n.span.stop := by
  induction n using induction with
  | step n ih =>
    rw [forall_mem_walk]
    refine ⟨⟨Nat.le_refl _, Nat.le_refl _⟩, fun c hc m hm => ?_⟩
    have hchild := h.child_inside hc
    have hm := ih c hc (h.child hc) m hm
    omega

theorem tiled_leaf {kind : NodeKind} {named : Bool} {span : Span} (h : span.start ≤ span.stop) :
    (leaf kind named span).Tiled :=
  tiled_iff.mpr ⟨⟨h, .inl rfl⟩, fun _ hc => absurd hc List.not_mem_nil⟩

/-- The nodes tile the range from `start` to `stop`: they follow one another from its
start to its end, and each of them is tiled. -/
structure Tiles (start stop : Nat) (ns : List Node) : Prop where
  abut : Abut start stop ns
  tiled : ∀ n ∈ ns, n.Tiled

theorem Tiles.nil {start stop : Nat} (h : start = stop) : Tiles start stop [] where
  abut := h
  tiled _ hn := absurd hn List.not_mem_nil

theorem Tiles.cons {start stop : Nat} {n : Node} {ns : List Node} (hstart : n.span.start = start)
    (hn : n.Tiled) (hns : Tiles n.span.stop stop ns) : Tiles start stop (n :: ns) where
  abut := ⟨hstart, hns.abut⟩
  tiled := List.forall_mem_cons.mpr ⟨hn, hns.tiled⟩

theorem Tiles.append {start middle stop : Nat} {ns ms : List Node} (hns : Tiles start middle ns)
    (hms : Tiles middle stop ms) : Tiles start stop (ns ++ ms) where
  abut := abut_append.mpr ⟨middle, hns.abut, hms.abut⟩
  tiled n hn := (List.mem_append.mp hn).elim (hns.tiled n) (hms.tiled n)

/-- What tiles a range keeps to it. -/
theorem Tiles.bounds {start stop : Nat} {ns : List Node} (h : Tiles start stop ns) :
    start ≤ stop ∧ ∀ n ∈ ns, start ≤ n.span.start ∧ n.span.stop ≤ stop :=
  h.abut.bounds fun n hn => (h.tiled n hn).le

/-- A node is tiled if its children tile its range. -/
theorem Tiles.tiled_node {kind : NodeKind} {named : Bool} {span : Span} {children : List Node}
    (h : Tiles span.start span.stop children) : (Node.mk kind named span children).Tiled :=
  tiled_iff.mpr ⟨⟨h.bounds.1, .inr h.abut⟩, h.tiled⟩

/-- The children of a tiled node that has some tile its range. -/
theorem Tiled.tiles {n : Node} (h : n.Tiled) (hne : n.children ≠ []) :
    Tiles n.span.start n.span.stop n.children where
  abut := h.abut hne
  tiled _ hc := h.child hc

/-- The leaves of tiled nodes that abut spell the bytes of the range, if those of each
node spell the bytes under it. -/
theorem Abut.flatMap_leaves {source : Bytes} {start stop : Nat} {ns : List Node}
    (habut : Abut start stop ns) (hle : ∀ n ∈ ns, n.span.start ≤ n.span.stop)
    (hleaves : ∀ n ∈ ns, n.leaves.flatMap (fun m => source.slice m.span.start m.span.stop) =
      source.slice n.span.start n.span.stop) :
    (ns.flatMap leaves).flatMap (fun m => source.slice m.span.start m.span.stop) =
      source.slice start stop := by
  induction ns generalizing start with
  | nil =>
    obtain rfl : start = stop := habut
    rw [Bytes.slice_self, List.flatMap_nil, List.flatMap_nil]
  | cons n ns ih =>
    obtain ⟨rfl, hrest⟩ := habut
    obtain ⟨hnle, hle⟩ := List.forall_mem_cons.mp hle
    obtain ⟨hn, hns⟩ := List.forall_mem_cons.mp hleaves
    have hstop : n.span.stop ≤ stop := (hrest.bounds hle).1
    rw [List.flatMap_cons, List.flatMap_append, hn, ih hrest hle hns,
      Bytes.slice_append source hnle hstop]

/-- The leaves of a tiled tree spell the bytes under its root. -/
theorem Tiled.flatMap_leaves (source : Bytes) {n : Node} (h : n.Tiled) :
    n.leaves.flatMap (fun m => source.slice m.span.start m.span.stop) =
      source.slice n.span.start n.span.stop := by
  induction n using induction with
  | step n ih =>
    rw [leaves_eq]
    split
    · rw [List.flatMap_cons, List.flatMap_nil, List.append_nil]
    · next hleaf =>
      rw [isLeaf, List.isEmpty_iff] at hleaf
      exact (h.abut hleaf).flatMap_leaves (fun c hc => (h.child hc).le)
        fun c hc => ih c hc (h.child hc)

end Node

/-! ## Span-complete trees -/

namespace SyntaxTree

/-- The spans of a tree account for its source: nothing lies outside, nothing is
left over and nothing is covered twice. -/
structure SpanComplete (t : SyntaxTree) : Prop where
  /-- the root starts with the source -/
  root_start : t.root.span.start = 0
  /-- the root ends with the source -/
  root_stop : t.root.span.stop = t.source.length
  /-- ranges are in order -/
  ordered : ∀ n ∈ t.root.walk, n.span.start ≤ n.span.stop
  /-- a node lies in its parent -/
  inside : ∀ n ∈ t.root.walk, ∀ c ∈ n.children, n.span.contains c.span = true
  /-- the children of a node that has some follow one another from its start to its end -/
  abut : ∀ n ∈ t.root.walk, n.children ≠ [] → Node.Abut n.span.start n.span.stop n.children
  /-- the bytes of the leaves can be read, and are those of the source -/
  leaves_spell : ∃ parts, t.leaves.mapM t.bytes = .ok parts ∧ parts.flatten = t.source

/-- Reading succeeds all along a list if it does at each element. -/
theorem mapM_ok {α β : Type} {f : α → Except Fault β} {g : α → β} {as : List α}
    (h : ∀ a ∈ as, f a = .ok (g a)) : as.mapM f = .ok (as.map g) := by
  induction as with
  | nil => rfl
  | cons a as ih =>
    obtain ⟨ha, has⟩ := List.forall_mem_cons.mp h
    rw [List.mapM_cons, ha, ih has]
    rfl

/-- A tiled tree over the whole source is span-complete. -/
theorem spanComplete_of_tiled {t : SyntaxTree} (htiled : t.root.Tiled)
    (hstart : t.root.span.start = 0) (hstop : t.root.span.stop = t.source.length) :
    t.SpanComplete where
  root_start := hstart
  root_stop := hstop
  ordered n hn := (htiled n hn).1
  inside n hn c hc := by
    rw [Span.contains, decide_eq_true_eq]
    exact (htiled.of_mem_walk hn).child_inside hc
  abut n hn hne := (htiled.of_mem_walk hn).abut hne
  leaves_spell := by
    refine ⟨t.leaves.map fun n => t.source.slice n.span.start n.span.stop, mapM_ok ?_, ?_⟩
    · intro n hn
      have hn : n ∈ t.root.walk := (List.mem_filter.mp hn).1
      have := htiled.inside n hn
      exact readRange_eq_slice (htiled n hn).1 (by omega)
    · rw [← List.flatMap_def]
      exact (htiled.flatMap_leaves t.source).trans
        (by rw [hstart, hstop, Bytes.slice_whole])

end SyntaxTree

end SpanTree

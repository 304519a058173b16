import SpanTree.Node

/-!
# Walking a tree

A walk visits a node and its descendants, each node before its children and the
children from left to right. It keeps the subtrees still to be visited on a
stack, so it can be stopped and resumed at every node. Beside it stands the same
order by recursion on the tree; `Walk.toList_eq_preorderAll` says that the two agree.
-/

namespace SpanTree

namespace Node

mutual

/-- The node, then the listings of its children from left to right. -/
def preorder : Node → List Node
  | ⟨kind, named, span, children⟩ => ⟨kind, named, span, children⟩ :: preorderAll children

/-- The listings of nodes one after another. -/
def preorderAll : List Node → List Node
  | [] => []
  | n :: ns => preorder n ++ preorderAll ns

end

mutual

/-- The number of nodes in a tree. -/
def size : Node → Nat
  | ⟨_, _, _, children⟩ => sizeAll children + 1

/-- The number of nodes in a list of trees. -/
def sizeAll : List Node → Nat
  | [] => 0
  | n :: ns => size n + sizeAll ns

end

theorem size_eq (n : Node) : n.size = sizeAll n.children + 1 := by
  cases n
  rw [size]

theorem sizeAll_append (ns ms : List Node) : sizeAll (ns ++ ms) = sizeAll ns + sizeAll ms := by
  induction ns with
  | nil => simp [sizeAll]
  | cons n ns ih => simp [sizeAll, ih, Nat.add_assoc]

theorem preorder_eq (n : Node) : n.preorder = n :: preorderAll n.children := by
  cases n
  rw [preorder]

theorem preorderAll_append (ns ms : List Node) :
    preorderAll (ns ++ ms) = preorderAll ns ++ preorderAll ms := by
  induction ns with
  | nil => simp [preorderAll]
  | cons n ns ih => simp [preorderAll, ih]

end Node

/-- A walk in progress: the subtrees still to be visited, the next one first. -/
structure Walk where
  pending : List Node

namespace Walk

/-- The walk over a node and its descendants. -/
def ofNode (n : Node) : Walk := ⟨[n]⟩

/-- The next node, and the walk with its children put in front. -/
def next : Walk → Option (Node × Walk)
  | ⟨[]⟩ => none
  | ⟨n :: rest⟩ => some (n, ⟨n.children ++ rest⟩)

/-- The nodes that a walk visits next, at most `steps` of them. -/
def take : (steps : Nat) → Walk → List Node
  | 0, _ => []
  | steps + 1, w =>
    match w.next with
    | none => []
    | some (n, v) => n :: take steps v

/-- The nodes that a walk still visits, in order. There are as many as the pending
subtrees have. -/
def toList (w : Walk) : List Node := w.take (Node.sizeAll w.pending)

theorem take_of_sizeAll_le :
    ∀ (steps : Nat) (w : Walk), Node.sizeAll w.pending ≤ steps →
      w.take steps = Node.preorderAll w.pending := by
  intro steps
  induction steps with
  | zero =>
    intro w hle
    obtain ⟨_ | ⟨n, rest⟩⟩ := w
    · rfl
    · rw [Node.sizeAll, Node.size_eq] at hle
      omega
  | succ steps ih =>
    intro w hle
    obtain ⟨_ | ⟨n, rest⟩⟩ := w
    · rfl
    · have hrest : Node.sizeAll (n.children ++ rest) ≤ steps := by
        simp only [Node.sizeAll, Node.size_eq] at hle
        rw [Node.sizeAll_append]
        omega
      have := ih ⟨n.children ++ rest⟩ hrest
      simp only [take, next, this, Node.preorderAll, Node.preorder_eq, Node.preorderAll_append,
        List.cons_append]

theorem toList_eq_preorderAll (w : Walk) : w.toList = Node.preorderAll w.pending :=
  take_of_sizeAll_le _ w (Nat.le_refl _)

end Walk

namespace Node

/-- The node and its descendants, each before its children. -/
def walk (n : Node) : List Node := (Walk.ofNode n).toList

/-- The nodes of a tree that meet a test, in the order of the walk. -/
def findAll (n : Node) (test : Node → Bool) : List Node := n.walk.filter test

/-- The nodes without children, from left to right. -/
def leaves (n : Node) : List Node := n.findAll isLeaf

end Node

end SpanTree

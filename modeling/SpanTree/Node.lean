import SpanTree.Span

/-!
# Nodes of syntax trees

A node has a kind, a span and children in source order. Besides the kinds of the
grammar there are six reserved ones: error recovery (`error`, `missing`), the
white space between tokens (`trivia`), the root of a pattern (`fragment`) and the
two placeholders of patterns (`metavariable`, `wildcard`).
-/

namespace SpanTree

/-- The kind of a node. -/
inductive NodeKind where
  /-- a kind of the grammar, such as an identifier or a call -/
  | symbol (name : String)
  /-- a region that the grammar could not fit anywhere -/
  | error
  /-- a token that the parser had to assume -/
  | missing (name : String)
  /-- white space between tokens -/
  | trivia
  /-- the root of a pattern tree -/
  | fragment
  /-- a placeholder bound to what it matches; `ellipsis` if it matches a sequence -/
  | metavariable (name : String) (ellipsis : Bool)
  /-- a placeholder that matches anything -/
  | wildcard
  deriving DecidableEq, Repr, Inhabited

namespace NodeKind

/-- The name of a kind, the same for all missing tokens and for all metavariables. -/
def label : NodeKind → String
  | symbol name => name
  | error => "ERROR"
  | missing _ => "MISSING"
  | trivia => "trivia"
  | fragment => "fragment"
  | metavariable _ _ => "metavariable"
  | wildcard => "wildcard"

/-- The label of a kind, with the token that is missing or the metavariable's name. -/
def text : NodeKind → String
  | missing name => "MISSING " ++ name
  | metavariable name _ => "metavariable " ++ name
  | kind => kind.label

end NodeKind

/-- A node of a syntax tree. -/
structure Node where
  kind : NodeKind
  /-- whether the grammar names the node, as opposed to punctuation and keywords -/
  named : Bool
  span : Span
  /-- the children in source order -/
  children : List Node
  deriving Repr, Inhabited

namespace Node

/-- A node without children. -/
def leaf (kind : NodeKind) (named : Bool) (span : Span) : Node := ⟨kind, named, span, []⟩

/-- Whether the node has no children. -/
def isLeaf (n : Node) : Bool := n.children.isEmpty

/-- Whether the node stands for a syntax error that the parser recovered from. -/
def isErrorRecovery (n : Node) : Bool :=
  match n.kind with
  | .error => true
  | .missing _ => true
  | _ => false

/-- Whether the node is white space. -/
def isTrivia (n : Node) : Bool := n.kind == .trivia

/-- Whether the node is a metavariable. -/
def isMetavariable (n : Node) : Bool :=
  match n.kind with
  | .metavariable _ _ => true
  | _ => false

/-- Whether the node is a wildcard. -/
def isWildcard (n : Node) : Bool := n.kind == .wildcard

/-- The children that are not white space. -/
def nonTriviaChildren (n : Node) : List Node := n.children.filter (!·.isTrivia)

mutual

/-- Whether two nodes agree in kind, name flag, span and, one by one, children. -/
def same : Node → Node → Bool
  | ⟨kind, named, span, children⟩, ⟨kind', named', span', children'⟩ =>
    kind == kind' && named == named' && span == span' && sameAll children children'

/-- Whether two lists of nodes agree one by one. -/
def sameAll : List Node → List Node → Bool
  | [], [] => true
  | n :: ns, m :: ms => same n m && sameAll ns ms
  | [], _ :: _ => false
  | _ :: _, [] => false

end

mutual

theorem eq_of_same : ∀ n m : Node, same n m = true → n = m
  | ⟨_, _, _, _⟩, ⟨_, _, _, _⟩, h => by
    simp only [same, Bool.and_eq_true, beq_iff_eq] at h
    obtain ⟨⟨⟨hkind, hnamed⟩, hspan⟩, hchildren⟩ := h
    rw [hkind, hnamed, hspan, eq_of_sameAll _ _ hchildren]

theorem eq_of_sameAll : ∀ ns ms : List Node, sameAll ns ms = true → ns = ms
  | [], [], _ => rfl
  | n :: ns, m :: ms, h => by
    simp only [sameAll, Bool.and_eq_true] at h
    rw [eq_of_same n m h.1, eq_of_sameAll ns ms h.2]
  | [], _ :: _, h => by simp [sameAll] at h
  | _ :: _, [], h => by simp [sameAll] at h

end

mutual

theorem same_refl : ∀ n : Node, same n n = true
  | ⟨_, _, _, children⟩ => by simp [same, sameAll_refl children]

theorem sameAll_refl : ∀ ns : List Node, sameAll ns ns = true
  | [] => rfl
  | n :: ns => by simp [sameAll, same_refl n, sameAll_refl ns]

end

/-- Equality of nodes is decided field by field. -/
instance : DecidableEq Node := fun n m =>
  if h : same n m = true then isTrue (eq_of_same n m h)
  else isFalse fun e => h (e ▸ same_refl n)

end Node

end SpanTree

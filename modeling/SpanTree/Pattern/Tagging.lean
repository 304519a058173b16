import SpanTree.Placeholder

/-!
# Tagging placeholders

After a fragment is parsed, the nodes at its placeholder sites are tagged. From the
root a site is followed downwards, at each node into the first child that has any
bytes and covers the site. Of the nodes met, the deepest whose range is exactly that
of the site is tagged; white space and error recovery never are, and neither is the
root. A tagged node is a named leaf of the site's kind.
-/

namespace SpanTree

namespace Node

/-- Whether a site lies inside a node that has any bytes. -/
def coversSite (n : Node) (site : Site) : Bool :=
  decide (n.span.start ≤ site.extent.start ∧ site.extent.stop ≤ n.span.stop) && !n.span.isEmpty

/-- Whether a node can be tagged for a site: it has exactly the site's range, and is
neither white space nor error recovery. -/
def fitsSite (n : Node) (site : Site) : Bool :=
  n.span.sameRange site.extent.start site.extent.stop && !n.isTrivia && !n.isErrorRecovery

/-- A tree after tagging, and the span of the node that was tagged. -/
abbrev Tagged (α : Type) := α × Span

mutual

/-- Tag the deepest fitting node at or below this one, if there is one. -/
def tagAt (site : Site) : Node → Option (Tagged Node)
  | ⟨kind, named, span, children⟩ =>
    match tagAmong site children with
    | some (children, tagged) => some (⟨kind, named, span, children⟩, tagged)
    | none =>
      if fitsSite ⟨kind, named, span, children⟩ site then
        some (.leaf site.kind.nodeKind true span, span)
      else none

/-- Tag the deepest fitting node at or below the first of these that covers the site. -/
def tagAmong (site : Site) : List Node → Option (Tagged (List Node))
  | [] => none
  | n :: ns =>
    if n.coversSite site then (tagAt site n).map fun (n, tagged) => (n :: ns, tagged)
    else (tagAmong site ns).map fun (ns, tagged) => (n :: ns, tagged)

end

/-- Tag the deepest fitting node below the root. -/
def tag (root : Node) (site : Site) : Option (Tagged Node) :=
  (tagAmong site root.children).map fun (children, tagged) => ({ root with children }, tagged)

end Node

/-- A metavariable that was tagged in a pattern. -/
structure Metavariable where
  /-- the name with the sigil -/
  name : String
  /-- whether it stands for a sequence -/
  ellipsis : Bool
  span : Span
  deriving DecidableEq, Repr

/-- A tree with its placeholders tagged, and what was tagged, in order. -/
structure Tagging where
  root : Node
  metavariables : List Metavariable
  wildcards : List Span
  deriving DecidableEq, Repr

namespace Tagging

/-- Tag one more site; a site that no node fits is left alone. -/
def add (t : Tagging) (site : Site) : Tagging :=
  match t.root.tag site with
  | none => t
  | some (root, span) =>
    match site.kind with
    | .metavariable name ellipsis =>
      { t with root, metavariables := t.metavariables ++ [⟨name, ellipsis, span⟩] }
    | .wildcard => { t with root, wildcards := t.wildcards ++ [span] }

/-- Tag the sites of a tree one after another. -/
def ofSites (root : Node) (sites : List Site) : Tagging := sites.foldl add ⟨root, [], []⟩

end Tagging

end SpanTree

import SpanTree.Fragment

/-!
# Choosing a start rule

A fragment is parsed under the candidate rules in order. The first parse without
errors is kept; if every parse has errors, the one with the fewest is, and the
earliest of those. `leastErrors` is the same choice by comparing all parses, without
stopping early.
-/

namespace SpanTree

namespace Choice

/-- What the parser returns for each declared start rule, by the rule's place. -/
abbrev RuleTrees := Nat → RawTree

/-- The better of the best parse so far and the next one: the next one only if it has
fewer errors. -/
def better (best : Option FragmentParse) (next : FragmentParse) : FragmentParse :=
  match best with
  | none => next
  | some best => if next.errorCount < best.errorCount then next else best

/-- The parse of a fragment under one candidate. -/
def parse (trees : RuleTrees) (fragment : Bytes) (c : Grammar.Candidate) :
    Except Fault FragmentParse :=
  FragmentParse.ofRaw c.rule fragment (trees c.place)

/-- The parse kept of a list of candidates, given the best parse before them. The
candidates after a parse without errors are not parsed. -/
def keep (trees : RuleTrees) (fragment : Bytes) :
    Option FragmentParse → List Grammar.Candidate → Except Fault (Option FragmentParse)
  | best, [] => .ok best
  | best, c :: rest => do
    let next ← parse trees fragment c
    if next.errorCount = 0 then return some next
    else keep trees fragment (some (better best next)) rest

/-- The parse with the fewest errors of a list, the earliest of several. -/
def leastErrors : List FragmentParse → Option FragmentParse
  | [] => none
  | p :: rest => some (rest.foldl (fun best next => better (some best) next) p)

end Choice

/-- The parse that a pattern is made from. If no candidate were tried, the fragment
would be parsed under the first rule for any code. -/
def FragmentParse.best (g : Grammar) (expressionOnly : Bool) (fragment : Bytes)
    (trees : Choice.RuleTrees) : Except Fault FragmentParse := do
  match ← Choice.keep trees fragment none (g.candidates expressionOnly) with
  | some best => return best
  | none =>
    let c := (g.candidates false).headD ⟨0, g.fallbackRule⟩
    Choice.parse trees fragment c

end SpanTree

import WordRanges.Domain.Policy
import WordRanges.Flow.Solver

/-!
# The framework of values

Data flow over sets of words: states are values, merge nodes take hulls, and widening
and narrowing are those of a policy.

Main definitions:

- {lit}`Policy.framework`: the framework of values under a policy.
-/

namespace WordRanges

/-- Values as abstract states.  Ascending runs are checked against inclusion if asked. -/
def Policy.framework (p : Policy) (w : Nat) (checked : Bool) (maxNarrow : Int) :
    Flow.Framework (Value w) where
  join := p.hull
  widen new old := p.widen new old none
  narrow := p.narrow
  leq? := if checked then some fun a b => decide (a.IsSubset b) else none
  maxNarrow := maxNarrow

end WordRanges

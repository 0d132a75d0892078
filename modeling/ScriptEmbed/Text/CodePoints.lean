/-!
# Sets of code points

A large set of code points is kept as the increasing array of the places where membership
changes: the first entry opens the first interval, the second closes it, and so on. A code
point is in the set when an odd number of bounds lies at or below it.

* `CodePoints.rank` — how many bounds lie at or below a code point, by bisection;
* `CodePoints.contains` — membership.
-/

namespace ScriptEmbed.CodePoints

/-- The number of bounds at or below `n`, given that it lies between `lo` and `hi`. -/
def rank (bounds : Array Nat) (n lo hi : Nat) : Nat :=
  if lo < hi then
    let mid := (lo + hi) / 2
    if bounds.getD mid 0 ≤ n then rank bounds n (mid + 1) hi else rank bounds n lo mid
  else lo
termination_by hi - lo

/-- Membership in the set with the given bounds. -/
def contains (bounds : Array Nat) (n : Nat) : Bool := rank bounds n 0 bounds.size % 2 == 1

end ScriptEmbed.CodePoints

/-!
Contract: binary search for the point where a test that holds up to some index
stops holding.

Owns: the search and what its answer says.
-/

namespace ClosureConversion

/-- The first index from `low` up to `high` at which the test fails, or `high` if
there is none, for a test that fails from some index on. -/
def partitionPoint (holds : Nat → Bool) (low high : Nat) : Nat :=
  if low < high then
    let middle := low + (high - low) / 2
    if holds middle then partitionPoint holds (middle + 1) high
    else partitionPoint holds low middle
  else
    low
termination_by high - low
decreasing_by all_goals omega

/-- The answer lies between the bounds. -/
theorem partitionPoint_bounds
    (holds : Nat → Bool)
    {low high : Nat}
    (ordered : low ≤ high) :
    low ≤ partitionPoint holds low high ∧ partitionPoint holds low high ≤ high := by
  fun_induction partitionPoint holds low high with
  | case1 low high within middle found inductionHypothesis =>
      have middleLt : middle < high := by omega
      have bounds := inductionHypothesis (by omega)
      omega
  | case2 low high within middle failed inductionHypothesis =>
      have middleLt : middle < high := by omega
      have bounds := inductionHypothesis (by omega)
      omega
  | case3 low high outside => omega

end ClosureConversion

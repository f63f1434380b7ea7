/-! Sets of characters given by ranges of code points.

A property of characters is written down as the list of its ranges, each with its first and its last
code point, in increasing order. Membership is then one walk along the list, which may stop at the
first range that does not lie wholly below the character. -/
namespace Aggregation

/-- Ranges of code points, first and last included, in increasing order. -/
abbrev CodeRanges := List (Nat × Nat)

namespace CodeRanges

/-- Whether one of the ranges has the code point. -/
def covers : CodeRanges → Nat → Bool
  | [], _ => false
  | (first, last) :: rest, n => if n ≤ last then decide (first ≤ n) else covers rest n

/-- Whether each range is in order and lies below the next. -/
def sorted : CodeRanges → Bool
  | [] => true
  | [r] => decide (r.1 ≤ r.2)
  | r :: s :: rest => decide (r.1 ≤ r.2 ∧ r.2 < s.1) && sorted (s :: rest)

/-- The number of code points in the ranges. -/
def size : CodeRanges → Nat
  | [] => 0
  | (first, last) :: rest => last + 1 - first + size rest

end CodeRanges

end Aggregation

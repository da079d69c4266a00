/-!
# Ranges of characters

A class of characters is given by closed ranges of code points, in ascending order and apart from
each other. A character is looked up from the front, so the search ends early for the characters
that come early.
-/

namespace MiniPascal.Text.Ranges

/-- A number lies in one of the ranges. -/
def contains : List (Nat × Nat) → Nat → Bool
  | [], _ => false
  | (low, high) :: more, n => if n < low then false else n ≤ high || contains more n

/-- No range is empty, and each lies behind the one before it, with a gap between the two. -/
def isAscending : List (Nat × Nat) → Bool
  | [] => true
  | [(low, high)] => low ≤ high
  | (low, high) :: (low', high') :: more =>
    low ≤ high && high + 1 < low' && isAscending ((low', high') :: more)

/-- How many numbers lie in the ranges. -/
def count : List (Nat × Nat) → Nat
  | [] => 0
  | (low, high) :: more => high + 1 - low + count more

end MiniPascal.Text.Ranges

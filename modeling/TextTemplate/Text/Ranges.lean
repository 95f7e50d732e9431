/-!
# Ranges of code points

Properties of characters are given as lists of closed ranges of code points.
-/
namespace TextTemplate

/-- The character is in one of the closed ranges of code points. -/
def inRanges (ranges : List (Nat × Nat)) (c : Char) : Bool :=
  ranges.any fun (lo, hi) => lo ≤ c.toNat && c.toNat ≤ hi

end TextTemplate

/-!
# Ranges of characters

A property of characters is given by the ranges of code points that have it.
-/
namespace LatticeGreen.Text

/-- Closed ranges of code points, ascending and apart. -/
abbrev Ranges := List (Nat × Nat)

/-- The code point lies in one of the ranges. -/
def Ranges.contains (ranges : Ranges) (n : Nat) : Bool :=
  ranges.any fun (first, last) => first ≤ n && n ≤ last

end LatticeGreen.Text

/-!
# Blocks and shells of cells

A cell of the lattice is a pair of integers. A block holds the cells within a distance of the
origin in both directions, a shell those at one distance exactly; in one dimension the second
integer is zero.
-/
namespace LatticeGreen

structure Cell where
  n1 : Int
  n2 : Int
  deriving Repr, DecidableEq

namespace Cell

/-- The larger distance from the origin along the two directions. -/
def radius (c : Cell) : Nat := max c.n1.natAbs c.n2.natAbs

/-- The integers from `lo` up to but not including `hi`. -/
def span (lo hi : Int) : List Int := (List.range (hi - lo).toNat).map fun i : Nat => lo + (i : Int)

/-- The cells within distance `n` of the origin, the second integer running fastest. A negative
distance holds no cell. -/
def block (dimension n : Int) : List Cell :=
  let ns := span (-n) (n + 1)
  if dimension = 1 then ns.map fun n1 => ⟨n1, 0⟩
  else ns.flatMap fun n1 => ns.map fun n2 => ⟨n1, n2⟩

/-- The cells at distance `n`: two in one dimension, else the four sides of a square, each
without its last corner. -/
def shell (dimension n : Int) : List Cell :=
  if dimension = 1 then [⟨n, 0⟩, ⟨-n, 0⟩]
  else
    let side := span (-n) n
    side.map (⟨·, n⟩) ++ side.map (⟨n, -·⟩) ++ side.map (⟨-·, -n⟩) ++ side.map (⟨-n, ·⟩)

/-- The cells of a list that lie outside the innermost block. -/
def outer (cells : List Cell) : List Cell := cells.filter fun c => decide (1 < c.radius)

end Cell

end LatticeGreen

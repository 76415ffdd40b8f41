import LatticeGreen.Scalar

/-!
# The outgoing side of a propagation constant

The root of `p ^ 2 - k ^ 2` decides whether an order decays or radiates, and for real `k` the sign
of a zero imaginary part decides in which direction it radiates.
-/
namespace LatticeGreen

variable {R C : Type} [Sub R] [Neg R] [Mul C] [ComplexFunctions R C]

/-- `p ^ 2 - k ^ 2` with the imaginary part negated part by part: for real `k` it is a negative
zero, which puts the root of a propagating order on the outgoing side. -/
def transverseSquare (p2 : R) (k : C) : C :=
  let k2 := k * k
  ofParts (p2 - re k2) (-im k2)

end LatticeGreen

import LatticeGreen.Broadcast
import LatticeGreen.ScaledErfc

/-!
# Products over arrays

Arrays are worked on as a whole. Entries of the left half plane are reflected before the scaled
function is asked for, both forms of the product are formed for all entries, and the half plane of
each entry selects one of them.
-/
namespace LatticeGreen

/-- Entries of one of two arrays, selected by a mask. -/
def RealArray.select? {R : Type} (mask : RealArray Bool) (yes no : RealArray R) :
    Option (RealArray R) := do
  let pairs ← yes.zipWith? Prod.mk no
  mask.zipWith? (fun chosen pair => if chosen then pair.1 else pair.2) pairs

variable {R C : Type} [OfScientific R] [LE R] [DecidableLE R] [Neg C] [ComplexFunctions R C]

/-- Which entries lie in the right half plane. -/
def rightward (b : RealArray C) : RealArray Bool := b.map fun w => decide ((0.0 : R) ≤ re w)

/-- The points that the scaled function is asked for. -/
def scaledArguments? (b : RealArray C) : Option (RealArray C) :=
  (rightward b).select? b (b.map (- ·))

variable [Add R] [Sub R] [Mul R] [Sub C] [Add C] [Mul C]

/-- `exp a * erfc b` for arrays that fit together; `none` if they do not. -/
def scaledErfcs? [SpecialFunctions C] (a b : RealArray C) : Option (RealArray C) := do
  let exponents ← a.zipWith? (· + ·) (b.map negatedSquare)
  let arguments ← scaledArguments? b
  let right ← (exponents.map cexp).zipWith? (· * ·) (arguments.map erfcx)
  let left ← (a.map fun u => ofReal (2.0 : R) * cexp u).zipWith? (· - ·) right
  (rightward b).select? right left

end LatticeGreen

import LatticeGreen.Scalar

/-!
# Complex scalars in Cartesian coordinates

Pairs of real scalars with the products of their parts written out. Over machine numbers the sign
of a zero part is kept by every operation that the branch cuts depend on.
-/
namespace LatticeGreen

/-- A complex scalar over the real scalars `R`. -/
structure Cartesian (R : Type) where
  re : R
  im : R
  deriving Repr

namespace Cartesian
variable {R : Type}

instance [Add R] : Add (Cartesian R) := ⟨fun z w => ⟨z.re + w.re, z.im + w.im⟩⟩
instance [Sub R] : Sub (Cartesian R) := ⟨fun z w => ⟨z.re - w.re, z.im - w.im⟩⟩
instance [Neg R] : Neg (Cartesian R) := ⟨fun z => ⟨-z.re, -z.im⟩⟩
instance [BEq R] : BEq (Cartesian R) := ⟨fun z w => z.re == w.re && z.im == w.im⟩

instance [Add R] [Sub R] [Mul R] : Mul (Cartesian R) :=
  ⟨fun z w => ⟨z.re * w.re - z.im * w.im, z.re * w.im + z.im * w.re⟩⟩

section
variable [Add R] [Sub R] [Mul R] [Div R] [OfScientific R] [LE R] [DecidableLE R] [BEq R]
variable [RealFunctions R]

/-- Division scaled by the larger part of the divisor, so that its square is never formed. -/
def divide (z w : Cartesian R) : Cartesian R :=
  let a := RealFunctions.abs w.re
  let b := RealFunctions.abs w.im
  if b ≤ a then
    if a == 0.0 && b == 0.0 then ⟨z.re / a, z.im / a⟩
    else
      let ratio := w.im / w.re
      let scale := 1.0 / (w.re + w.im * ratio)
      ⟨(z.re + z.im * ratio) * scale, (z.im - z.re * ratio) * scale⟩
  else
    let ratio := w.re / w.im
    let scale := 1.0 / (w.im + w.re * ratio)
    ⟨(z.re * ratio + z.im) * scale, (z.im * ratio - z.re) * scale⟩

instance : Div (Cartesian R) := ⟨divide⟩

end

end Cartesian

end LatticeGreen

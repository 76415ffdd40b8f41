/-!
# Scalars

Every kernel and every sum of this library is written once, over a real scalar `R` and a complex
scalar `C`. Ordered arithmetic comes from the standard operator classes, so that at the real and
complex numbers the definitions are ordinary formulas; the classes here hold what those classes
lack. Machine arithmetic is `R = Float`, `C = Cartesian Float`.
-/
namespace LatticeGreen

/-- Constants and functions of real scalars beyond ordered arithmetic. -/
class RealFunctions (R : Type) where
  sqrt : R → R
  abs : R → R
  /-- The larger argument. A scalar that is not a number wins over every other. -/
  maximum : R → R → R
  /-- Neither infinite nor undefined. -/
  isFinite : R → Bool
  pi : R
  eulerGamma : R

/-- Cartesian coordinates and elementary functions of complex scalars. -/
class ComplexFunctions (R : outParam Type) (C : Type) where
  ofParts : R → R → C
  ofReal : R → C
  re : C → R
  im : C → R
  modulus : C → R
  /-- The principal argument, in `[-pi, pi]`. -/
  argument : C → R
  cexp : C → C
  /-- The principal logarithm, cut along the negative real axis. -/
  clog : C → C
  /-- The principal root, cut along the negative real axis. -/
  csqrt : C → C

/-- The special functions of the Ewald kernels. -/
class SpecialFunctions (C : Type) where
  /-- `exp (w ^ 2) * erfc w`, asked for in the right half plane only. -/
  erfcx : C → C
  erf : C → C
  /-- The modified Bessel functions of the second kind of orders 0, 1 and 2. -/
  besselK : C → C × C × C

export RealFunctions (sqrt maximum isFinite pi eulerGamma)
export ComplexFunctions (ofParts ofReal re im modulus argument cexp clog csqrt)
export SpecialFunctions (erfcx erf besselK)

section
variable {R C : Type} [OfScientific R] [ComplexFunctions R C]

/-- The imaginary unit. -/
def imaginaryUnit : C := ofParts (0.0 : R) 1.0

def zeroC : C := ofParts (0.0 : R) 0.0

/-- Both parts are finite. -/
def finiteParts [RealFunctions R] (z : C) : Bool := isFinite (re z) && isFinite (im z)

end

/-- Two divided by the root of pi. -/
def twoOverRootPi {R : Type} [Div R] [OfScientific R] [RealFunctions R] : R := 2.0 / sqrt pi

/-- Pi to the power three halves. -/
def piThreeHalves {R : Type} [Mul R] [RealFunctions R] : R := pi * sqrt pi

end LatticeGreen

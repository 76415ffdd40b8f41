import LatticeGreen.Scalar

/-!
# Products of exponentials and complementary error functions

`exp a * erfc b` is formed without overflow for large `Re a` and tiny `erfc b`: the scaled function
is asked for in the right half plane only. What still overflows belongs to negligible terms and is
replaced by zero.
-/
namespace LatticeGreen

variable {R C : Type}
variable [Add R] [Sub R] [Mul R] [OfScientific R] [LE R] [DecidableLE R]
variable [Sub C] [Add C] [Mul C] [Neg C] [ComplexFunctions R C]

/-- `-b ^ 2`, written out so that the real part is exact for parts of equal size. -/
def negatedSquare (b : C) : C :=
  let x := re b
  let y := im b
  ofReal ((y - x) * (x + y)) - ofParts 0.0 2.0 * ofReal x * ofReal y

/-- `exp a * erfc b`. On the left half plane `erfc b = 2 - erfc (-b)`. -/
def scaledErfc [SpecialFunctions C] (a b : C) : C :=
  let right := cexp (a + negatedSquare b)
  if (0.0 : R) ≤ re b then right * erfcx b
  else ofReal 2.0 * cexp a - right * erfcx (-b)

/-- The number itself, or zero if a part of it is infinite or undefined. -/
def finiteOrZero [RealFunctions R] (z : C) : C := if finiteParts z then z else zeroC

/-- The real itself, or zero if it is infinite or undefined. -/
def finiteOrZeroReal [RealFunctions R] (x : R) : R := if isFinite x then x else 0.0

end LatticeGreen

import LatticeGreen.Convergence
import LatticeGreen.LineTransform
import LatticeGreen.Outgoing
import LatticeGreen.Reciprocal
import LatticeGreen.ScaledErfc

/-!
# The distant sum

The sum over the reciprocal lattice of the long-range half of the kernel. Every reciprocal vector
is a diffraction order; an order that grazes the lattice makes its term singular and ends the sum.
-/
namespace LatticeGreen

/-- The directions a reciprocal sum is periodic in; without any, it has no terms. -/
inductive Periodicity where
  | unspecified | line | plane
  deriving Repr, DecidableEq

namespace Periodicity

def dimension : Periodicity → Int
  | unspecified => 0
  | line => 1
  | plane => 2

/-- The sum for a number of periodic directions. -/
def ofDimension {R : Type} [OfScientific R] [BEq R] (d : Quantity R) :
    Except (Failure R) Periodicity :=
  let equals (n : Int) (x : R) (b : Bool) := match d with
    | .integer m => m == n
    | .real y => y == x
    | .flag c => c && b
  if equals 1 1.0 true then .ok line
  else if equals 2 2.0 false then .ok plane
  else .error (.noDistantSum d)

/-- The factor from cell sums to lattice sums. -/
def prefactor {R : Type} [Mul R] [Div R] [OfScientific R] [RealFunctions R] (p : Periodicity)
    (reciprocal : Reciprocal R) : Except (Failure R) R :=
  match p with
  | .unspecified => .error .noTerms
  | .line => .ok reciprocal.zoneMeasure
  | .plane => .ok (reciprocal.zoneMeasure / (16.0 * (pi * pi)))

end Periodicity

/-- The reciprocal vector of an order. -/
def Reciprocal.vector {R : Type} [Add R] [Mul R] [IntCast R] (g : Reciprocal R) (c : Cell) :
    Vec2 R :=
  let n1 : R := c.n1
  let n2 : R := c.n2
  ⟨n1 * g.gamma1.x + n2 * g.gamma2.x, n1 * g.gamma1.y + n2 * g.gamma2.y⟩

/-- What a reciprocal sum at a point depends on. -/
structure Distant (R C : Type) where
  periodicity : Periodicity
  point : Vec3 R
  wavenumber : C
  bloch : Vec2 R
  reciprocal : Reciprocal R
  splitting : R

/-- What the events of a distant sum call it. -/
def Distant.description : String := "distant lattice sum (R, k, E)"

/-- A function of the height above the lattice plane and its first derivative. -/
structure HeightProfile (C : Type) where
  value : C
  slope : C
  deriving Repr

namespace PlaneFactor
variable {R C : Type}
variable [Add R] [Sub R] [Mul R] [Div R] [OfScientific R] [LE R] [DecidableLE R] [RealFunctions R]
variable [Add C] [Sub C] [Mul C] [Div C] [Neg C] [ComplexFunctions R C] [SpecialFunctions C]

/-- `exp (Q z) erfc (Q / 2 E + E z) + exp (-Q z) erfc (Q / 2 E - E z)` and its derivative in `z`,
before overflow is removed. -/
def profile (z eta : R) (q : C) : HeightProfile C :=
  let half := ofReal 0.5 * q / ofReal eta
  let gauss : C := ofReal (twoOverRootPi * eta)
  let up := half + ofReal (z * eta)
  let plus := scaledErfc (q * ofReal z) up
  let plusSlope := q * plus - gauss * cexp (q * ofReal z - up * up)
  let down := half - ofReal (z * eta)
  let minus := scaledErfc (-q * ofReal z) down
  let minusSlope := -q * minus + gauss * cexp (-q * ofReal z - down * down)
  ⟨plus + minus, plusSlope + minusSlope⟩

/-- The profile of an order; a part that overflows counts as zero. -/
def factor (z eta : R) (q : C) : HeightProfile C :=
  let p := profile z eta q
  ⟨finiteOrZero p.value, finiteOrZero p.slope⟩

end PlaneFactor

section
variable {R C : Type}
variable [Add R] [Sub R] [Mul R] [Div R] [Neg R] [OfScientific R] [IntCast R] [NatCast R]
variable [Pow R Nat] [BEq R] [LT R] [DecidableLT R] [LE R] [DecidableLE R] [RealFunctions R]
variable [Add C] [Sub C] [Mul C] [Div C] [Neg C] [BEq C] [ComplexFunctions R C]

/-- Beside the wavenumber a propagation constant below this fraction is singular. -/
def singularThreshold : R := 1.0e-4

/-- The size of a propagation constant is singular beside the wavenumber. -/
def grazes (k : C) (size : R) : Bool := decide (size < singularThreshold * modulus k)

/-! ## Orders of a plane -/

namespace PlaneOrder

/-- The propagation constant away from the plane of the order with the vector `p` along it. -/
def propagation (k : C) (p : Vec2 R) : C :=
  csqrt (transverseSquare (p.x * p.x + p.y * p.y) k)

/-- The term of an order. -/
def term [SpecialFunctions C] (k : C) (eta : R) (point : Vec3 R) (p : Vec2 R) : Slots C :=
  let i : C := imaginaryUnit
  let q := propagation k p
  let wave := cexp (i * ofReal (p.dot point.planar)) / q
  let f := PlaneFactor.factor point.z eta q
  let value := wave * f.value
  let slope := wave * f.slope
  { value
    dx := i * ofReal p.x * value
    dy := i * ofReal p.y * value
    dz := slope
    dxdy := ofReal (-p.x * p.y) * value
    dxdz := i * ofReal p.x * slope
    dydz := i * ofReal p.y * slope
    dxdydz := ofReal (-p.x * p.y) * slope }

/-- One of the orders grazes the plane. -/
def anySingular (k : C) (ps : List (Vec2 R)) : Bool :=
  ps.any fun p => grazes k (modulus (propagation k p))

/-- All orders are looked at before one is summed. -/
def shell [SpecialFunctions C] (k : C) (eta : R) (point : Vec3 R) (ps : List (Vec2 R)) :
    Contribution C :=
  if anySingular k ps then ⟨Slots.zero, true⟩
  else ⟨Slots.sum (ps.map (term k eta point)), false⟩

end PlaneOrder

/-! ## Orders of a line -/

namespace LineOrder

/-- The squared transverse wavenumber of the order with the wavenumber `kx` along the line. -/
def transverse (k : C) (kx : R) : C := transverseSquare (kx * kx) k

/-- The order grazes the line. -/
def isSingular (k : C) (kx : R) : Bool := grazes k (sqrt (modulus (transverse k kx)))

/-- The slots of a transform that depends on the distance from the line only, at a place across the
line. On the line itself the derivatives across it vanish. -/
def slots (kx rho y z : R) (g : Radial C) : Slots C :=
  let onLine := rho == 0.0
  let y := if onLine then 0.0 else y / rho
  let z := if onLine then 0.0 else z / rho
  let mixed := if onLine then zeroC else g.second - g.first / ofReal rho
  let ikx : C := imaginaryUnit * ofReal kx
  { value := g.value
    dx := ikx * g.value
    dy := ofReal y * g.first
    dz := ofReal z * g.first
    dxdy := ikx * ofReal y * g.first
    dxdz := ikx * ofReal z * g.first
    dydz := ofReal (y * z) * mixed
    dxdydz := ikx * ofReal y * ofReal z * mixed }

/-- The phase of an order at a place along the line. -/
def phase (kx x : R) : C := cexp (imaginaryUnit * ofReal kx * ofReal x)

/-- The term of an order. -/
def term [SpecialFunctions C] (k : C) (rho eta : R) (point : Vec3 R) (kx : R) :
    Attempt R (Slots C) := do
  let g ← LineTransform.longRange (transverse k kx) rho eta
  return (slots kx rho point.y point.z g).map fun s => finiteOrZero (phase kx point.x * s)

/-- Adds the terms of orders one by one up to the first singular one. -/
def shell (k : C) (term : R → Attempt R (Slots C)) : List R → Slots C →
    Attempt R (Contribution C)
  | [], total => return ⟨total, false⟩
  | kx :: rest, total => do
    if isSingular k kx then return ⟨total, true⟩
    else shell k term rest (total + (← term kx))

end LineOrder

/-! ## Sums -/

namespace Distant

/-- One of the propagation constants is singular. -/
def isSingular (sum : Distant R C) (transverse : List C) : Bool :=
  transverse.any fun q => grazes sum.wavenumber (modulus q)

/-- The factor from cell sums to lattice sums. -/
def prefactor (sum : Distant R C) : Except (Failure R) R :=
  sum.periodicity.prefactor sum.reciprocal

/-- `P - G` for the reciprocal vector `G` of an order. -/
def shifted (sum : Distant R C) (c : Cell) : Vec2 R :=
  let g := sum.reciprocal.vector c
  ⟨sum.bloch.x - g.x, sum.bloch.y - g.y⟩

/-- The wavenumber of an order along the line. -/
def along (sum : Distant R C) (c : Cell) : R :=
  sum.bloch.x - (c.n1 : R) * sum.reciprocal.gamma1.x

/-- The contribution of a list of orders. -/
def shell [SpecialFunctions C] (sum : Distant R C) (cells : List Cell) :
    Attempt R (Contribution C) :=
  match sum.periodicity with
  | .unspecified => Attempt.fail .noTerms
  | .line =>
    LineOrder.shell sum.wavenumber
      (LineOrder.term sum.wavenumber sum.reciprocal.rho sum.splitting sum.point)
      (cells.map sum.along) Slots.zero
  | .plane =>
    pure (PlaneOrder.shell sum.wavenumber sum.splitting sum.point (cells.map sum.shifted))

/-- The sum over the reciprocal lattice. Without splitting there is nothing to add. -/
def construct [SpecialFunctions C] (sum : Distant R C) (c : Convergence R)
    (obstacles : Obstacles R := {}) : Attempt R (LatticeSum C) := do
  if sum.splitting == 0.0 then return LatticeSum.empty
  else
    let result ← accumulate sum.shell sum.periodicity.dimension c description false obstacles
    let factor ← Attempt.ofExcept sum.prefactor
    return { result with values := result.values.scale (ofReal factor) }

end Distant

end

end LatticeGreen

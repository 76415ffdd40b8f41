import LatticeGreen.Distant
import LatticeGreen.Nearby
import LatticeGreen.Workspace

/-!
# The periodic Green's function

The value at a point is the nearby sum plus the distant sum, both with one splitting parameter.
A singular distant sum is tried once more with the Bloch vector moved a little along x. Leaving out
the innermost cells takes their long-range halves off the distant sum.
-/
namespace LatticeGreen

/-- The Green's function of a lattice. Settings that cannot be read are kept as obstacles for the
sums that need them. -/
structure PeriodicGreen (R : Type) where
  lattice : Lattice R
  splitting : R
  excludeInner : Bool
  convergence : Convergence R
  obstacles : Obstacles R := {}

/-- The values at a point, with the sums they were put together from. -/
structure Evaluation (R C : Type) where
  values : Slots C
  nearby : LatticeSum C
  distant : LatticeSum C
  innerCorrection : Slots C
  splitting : R
  bloch : Vec2 R
  retried : Bool

/-- The pair of lattice sums for one Bloch vector. -/
structure Halves (R C : Type) where
  near : Nearby R C
  nearby : LatticeSum C
  distant : LatticeSum C

namespace PeriodicGreen
variable {R C : Type}

section
variable [Neg R] [OfScientific R] [BEq R] [LT R] [DecidableLT R]

/-- Asks for the splitting parameter that suits the lattice, the wavenumber and the point. -/
def automatic : R := -1.0

/-- The Green's function of a lattice. The splitting parameter is not negative, or automatic. -/
def create (lattice : Lattice R) (splitting : R) (excludeInner : Bool)
    (convergence : Convergence R) (obstacles : Obstacles R := {}) :
    Except (Failure R) (PeriodicGreen R) :=
  if decide (splitting < 0.0) && !(splitting == automatic) then
    .error (.configuration (.negativeSplitting splitting))
  else .ok ⟨lattice, splitting, excludeInner, convergence, obstacles⟩

/-- A point in space has three entries in any arrangement. -/
def readPoint (point : RealArray R) : Except (Failure R) (Vec3 R) :=
  match point.entries with
  | [x, y, z] => .ok ⟨x, y, z⟩
  | entries => .error (.configuration (.pointShape [entries.length]))

/-- A Bloch vector has two entries. On a line the second may be left out. -/
def readBloch (dimension : Nat) (bloch : RealArray R) : Except (Failure R) (Vec2 R) :=
  match bloch.entries with
  | [x, y] => .ok ⟨x, y⟩
  | [x] =>
    if dimension = 1 then .ok ⟨x, 0.0⟩ else .error (.configuration (.blochShape [1]))
  | entries => .error (.configuration (.blochShape [entries.length]))

end

variable [Add R] [Sub R] [Mul R] [Div R] [Neg R] [OfScientific R] [IntCast R] [NatCast R]
variable [Pow R Nat] [BEq R] [LT R] [DecidableLT R] [LE R] [DecidableLE R] [RealFunctions R]
variable [Add C] [Sub C] [Mul C] [Div C] [Neg C] [BEq C] [ComplexFunctions R C]

/-- The splitting parameter of a sum: the lattice's own unless one was given. -/
def splittingFor (green : PeriodicGreen R) (reciprocal : Reciprocal R) : R :=
  if green.splitting == automatic then reciprocal.optimalSplitting else green.splitting

/-- The shift along x, relative to the wavenumber, after a singular sum. -/
def singularShift : R := 1.0e-2

/-- The answer for the wavenumber zero: nothing is summed. -/
def zeroEvaluation (green : PeriodicGreen R) (bloch : Vec2 R) : Evaluation R C :=
  ⟨Slots.zero, LatticeSum.empty, LatticeSum.empty, Slots.zero, green.splitting, bloch, false⟩

variable [SpecialFunctions C]

/-- Both lattice sums for one Bloch vector, which is kept as one that sums are taken for. -/
def sumsIn (green : PeriodicGreen R) (basis : Basis R) (point : Vec3 R) (k : C) (bloch : Vec2 R)
    (eta : R) (reciprocal : Reciprocal R) : Working R (Halves R C) := do
  Workspace.noteSummed bloch
  let near : Nearby R C := ⟨point, k, bloch, basis, eta⟩
  let nearby ← (near.construct green.convergence green.excludeInner green.obstacles :
    Attempt R (LatticeSum C))
  let periodicity ← (Attempt.ofExcept (Periodicity.ofDimension (.integer basis.dimension)) :
    Attempt R Periodicity)
  let far : Distant R C := ⟨periodicity, point, k, bloch, reciprocal, eta⟩
  let distant ← (far.construct green.convergence green.obstacles : Attempt R (LatticeSum C))
  return ⟨near, nearby, distant⟩

/-- Both lattice sums for one Bloch vector, without a store. -/
def sums (green : PeriodicGreen R) (basis : Basis R) (point : Vec3 R) (k : C) (bloch : Vec2 R)
    (eta : R) (reciprocal : Reciprocal R) : Attempt R (Halves R C) :=
  Prod.fst <$> (green.sumsIn basis point k bloch eta reciprocal).run ⟨[], []⟩

/-- Both lattice sums for the Bloch vector at a place. -/
def sumsAt (green : PeriodicGreen R) (basis : Basis R) (point : Vec3 R) (k : C) (eta : R)
    (reciprocal : Reciprocal R) (place : Nat) : Working R (Halves R C) := do
  green.sumsIn basis point k (← Workspace.readVector place) eta reciprocal

/-- The values of the two sums together, without the long-range halves of the innermost cells if
these are left out. -/
def combine (green : PeriodicGreen R) (halves : Halves R C) (eta : R) (bloch : Vec2 R)
    (retried : Bool) : Logged R (Evaluation R C) := do
  let total := halves.nearby.values + halves.distant.values
  if green.excludeInner then
    let inner ← halves.near.longRange (Cell.block halves.near.basis.dimension 1)
    return ⟨total - inner, halves.nearby, halves.distant, inner, eta, bloch, retried⟩
  else return ⟨total, halves.nearby, halves.distant, Slots.zero, eta, bloch, retried⟩

/-- The value at a point for a wavenumber other than zero and the Bloch vector at a place. After a
singular sum a copy of the vector is shifted. -/
def evaluateAt (green : PeriodicGreen R) (point : Vec3 R) (k : C) (place : Nat) :
    Working R (Evaluation R C) := do
  let basis ← Attempt.ofExcept green.lattice.vectors
  let reciprocal ← Attempt.ofExcept (green.lattice.reciprocal k point)
  let eta := green.splittingFor reciprocal
  (Attempt.note .splittingChosen : Attempt R Unit)
  let halves ← green.sumsAt basis point k eta reciprocal place
  if halves.distant.singular then
    (Attempt.note .singularSum : Attempt R Unit)
    let shifted ← Workspace.keep (← Workspace.read place)
    Workspace.increase shifted 0 (singularShift * modulus k)
    let halves ← green.sumsAt basis point k eta reciprocal shifted
    if halves.distant.singular then
      (Attempt.note .stillSingular : Attempt R Unit)
    (green.combine halves eta (← Workspace.readVector shifted) true : Logged R (Evaluation R C))
  else
    (green.combine halves eta (← Workspace.readVector place) false : Logged R (Evaluation R C))

/-- The value at a point, given as an array, for the Bloch vector in the caller's array at a place.
The evaluation works on a copy of that. -/
def evaluateIn (green : PeriodicGreen R) (point : RealArray R) (k : C) (place : Nat) :
    Working R (Evaluation R C) := do
  let point ← Attempt.ofExcept (readPoint point)
  let bloch ← Attempt.ofExcept (readBloch green.lattice.dimension (← Workspace.read place))
  let copy ← Workspace.keep bloch.toArray
  if k == zeroC then return green.zeroEvaluation (← Workspace.readVector copy)
  else green.evaluateAt point k copy

/-- The value at a point, both given as arrays. -/
def evaluate (green : PeriodicGreen R) (point : RealArray R) (k : C) (bloch : RealArray R) :
    Attempt R (Evaluation R C) :=
  Prod.fst <$> (green.evaluateIn point k 0).run ⟨[bloch], []⟩

/-- The periodic Green's function on the lattice spanned by the first rows of a basis. -/
def onBasis (basis : RealArray R) (dimension : Option (Quantity R)) (splitting : R)
    (excludeInner : Bool) (convergence : Convergence R) (obstacles : Obstacles R)
    (point : RealArray R) (k : C) (bloch : RealArray R) : Attempt R (Slots C) := do
  let rows ← Attempt.ofExcept (validateBasis basis dimension)
  let lattice ← Attempt.ofExcept (Lattice.ofBasis rows.toArray)
  let green ← Attempt.ofExcept (create lattice splitting excludeInner convergence obstacles)
  return (← green.evaluate point k bloch).values

end PeriodicGreen

end LatticeGreen

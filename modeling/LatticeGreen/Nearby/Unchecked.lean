import LatticeGreen.Broadcast
import LatticeGreen.Nearby

/-!
# Nearby sums of unchecked inputs

The point, the Bloch vector and the basis of a nearby sum may come as arrays of any shape. They are
taken as far as they fit together, and refused where they do not.
-/
namespace LatticeGreen

/-- What a lattice sum at a point depends on, before its arrays have been checked. -/
structure Nearby.Unchecked (R C : Type) where
  point : RealArray R
  wavenumber : C
  bloch : RealArray R
  basis : RealArray R
  splitting : R

/-- The sources in some cells: the displacements of the point from them, and their phases. -/
structure Sources (R C : Type) where
  displacements : List (Vec3 R)
  phases : RealArray C

namespace Sources
variable {R C : Type}

/-- Phases with more than one axis make an array of the terms of each displacement, if they fit. -/
def makeArrays (s : Sources R C) : Bool :=
  let axes := s.phases.shape
  (Extents.join? (axes.take 1 ++ 1 :: axes.drop 1) [s.displacements.length, 8]).isSome

/-- A phase for each displacement. A single phase counts for all. Which terms are too close to the
point is told by displacement, so there must not be more terms than these. -/
def phaseOfEach (s : Sources R C) : Except (Failure R) (List C) :=
  let n := s.displacements.length
  match s.phases.shape, s.phases.entries with
  | [], _ => .error .missingComponent
  | [_], [phase] => .ok (List.replicate n phase)
  | [m], phases =>
    if m = n then .ok phases
    else .error (if n = 1 then .missingComponent else .shapeMismatch)
  | m :: _, _ =>
    .error (if !s.makeArrays then .shapeMismatch
      else if m = n then .arrayTerms else .missingComponent)

def toList (s : Sources R C) : Except (Failure R) (List (Source R C)) := do
  return List.zipWith Source.mk s.displacements (← s.phaseOfEach)

/-- The phases in a list, of which there may be fewer than displacements. -/
def phaseList (s : Sources R C) : Except (Failure R) (List C) :=
  match s.phases.shape with
  | [] => .error .missingComponent
  | [_] => .ok s.phases.entries
  | _ => .error .shapeMismatch

section
variable [Add R] [Sub R] [Mul R] [Div R] [Neg R] [OfScientific R] [LT R] [DecidableLT R]
variable [LE R] [DecidableLE R] [Pow R Nat] [RealFunctions R]
variable [Add C] [Sub C] [Mul C] [Div C] [Neg C] [ComplexFunctions R C] [SpecialFunctions C]

/-- The whole kernel at each source. -/
def wholeTerms (s : Sources R C) (k : C) : Except (Failure R) (List (Slots C)) := do
  FreeSpace.terms k s.displacements (← if s.displacements.isEmpty then .ok [] else s.phaseList)

/-- The short-range halves of the kernel. -/
def shortTerms (s : Sources R C) (k : C) (eta : R) : Except (Failure R) (List (Slots C)) := do
  return ShortRange.terms k eta (← s.toList)

/-- The series of the long-range halves. Here one displacement may have many phases. -/
def smallTerms (s : Sources R C) (k : C) (eta : R) : Except (Failure R) (List (Slots C)) :=
  match s.phases.shape, s.displacements with
  | [_], [d] => .ok (s.phases.entries.map fun phase => LongRange.smallTerm k eta ⟨d, phase⟩)
  | _ :: _ :: _, _ => .error (if s.makeArrays then .arrayTerms else .shapeMismatch)
  | _, _ => do return (← s.toList).map (LongRange.smallTerm k eta)

end

end Sources

namespace Nearby.Unchecked
variable {R C : Type}

section
variable [Add R] [Sub R] [Mul R] [OfScientific R] [IntCast R]

/-- The number of rows of the basis. -/
def dimension (sum : Unchecked R C) : Except (Failure R) Nat :=
  sum.basis.shape.head?.elim (.error .missingComponent) .ok

/-- The positions of the sources in some cells. -/
def latticePoints (sum : Unchecked R C) (cells : List Cell) :
    Except (Failure R) (RealArray R) := do
  let columns := min (← sum.dimension) 2
  let numbers := cells.flatMap fun c => ([c.n1, c.n2].take columns).map fun n => (n : R)
  ((RealArray.ofEntries? [cells.length, columns] numbers).bind (·.product? sum.basis)).elim
    (.error .shapeMismatch) .ok

/-- The displacements of the point from some positions. -/
def displacements (sum : Unchecked R C) (points : RealArray R) :
    Except (Failure R) (List (Vec3 R)) := do
  let rows := points.shape.headD 0
  let planar ← (sum.point.leading? 2).elim (.error .missingComponent) .ok
  let across ← ((planar.zipWith? (· - ·) points).bind (RealArray.fill? [rows, 2])).elim
    (.error .shapeMismatch) .ok
  if sum.point.shape.headD 0 ≤ 2 then throw .missingComponent
  let heights ← ((sum.point.part? 2).bind (RealArray.fill? [rows])).elim
    (.error .shapeMismatch) .ok
  return join across heights
where
  join : List R → List R → List (Vec3 R)
    | x :: y :: across, z :: heights => ⟨x, y, z⟩ :: join across heights
    | _, _ => []

variable [Mul C] [ComplexFunctions R C]

/-- The phases `exp (i P . L)` of some positions. -/
def phases (sum : Unchecked R C) (points : RealArray R) : Except (Failure R) (RealArray C) := do
  let angles ← (points.product? sum.bloch).elim (.error .shapeMismatch) .ok
  return angles.map fun angle => cexp (imaginaryUnit * ofReal angle)

/-- The sources in some cells. -/
def sources (sum : Unchecked R C) (cells : List Cell) : Except (Failure R) (Sources R C) := do
  let points ← sum.latticePoints cells
  return ⟨← sum.displacements points, ← sum.phases points⟩

end

variable [Add R] [Sub R] [Mul R] [Div R] [Neg R] [OfScientific R] [IntCast R] [BEq R]
variable [LT R] [DecidableLT R] [LE R] [DecidableLE R] [Pow R Nat] [RealFunctions R]
variable [Add C] [Sub C] [Mul C] [Div C] [Neg C] [ComplexFunctions R C] [SpecialFunctions C]

/-- The contribution of a list of cells. -/
def shell (sum : Unchecked R C) (cells : List Cell) : Except (Failure R) (Slots C) := do
  let s ← sum.sources cells
  Slots.sum <$> if sum.splitting == 0.0 then s.wholeTerms sum.wavenumber
    else s.shortTerms sum.wavenumber sum.splitting

/-- What the distant sum holds of a list of cells. -/
def longRange (sum : Unchecked R C) (cells : List Cell) : Attempt R (Slots C) := do
  if sum.splitting == 0.0 then return Slots.zero
  else
    let s ← Attempt.ofExcept (sum.sources cells)
    let _ ← Attempt.ofExcept (s.wholeTerms sum.wavenumber)
    let sources ← Attempt.ofExcept s.toList
    let rows ← (LongRange.terms sum.wavenumber sum.splitting sources : Logged R (List (Slots C)))
    return Slots.sum rows

/-- The sum over the direct lattice, with the innermost cells or without them. -/
def construct (sum : Unchecked R C) (c : Convergence R) (excludeInner : Bool)
    (obstacles : Obstacles R := {}) : Attempt R (LatticeSum C) := do
  let series (cells : List Cell) : Attempt R (Contribution C) := do
    return ⟨← Attempt.ofExcept (sum.shell cells), false⟩
  accumulate (fun cells => (series cells).summand) (← Attempt.ofExcept sum.dimension) c description
    excludeInner obstacles

end Nearby.Unchecked

end LatticeGreen

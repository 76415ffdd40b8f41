import LatticeGreen.Broadcast
import LatticeGreen.Lattice

/-!
# Reciprocal lattices

The dual vectors of a lattice, scaled by two pi, with what the sums need besides: the measure of
the zone they span, the distance of the point from a line of sources, and a splitting parameter
that balances the two lattice sums.
-/
namespace LatticeGreen

/-- The dual vectors as rows; the second is zero for a line. `rho` is the distance of the point
from the line and zero for a plane. -/
structure Reciprocal (R : Type) where
  gamma1 : Vec2 R
  gamma2 : Vec2 R
  zoneMeasure : R
  rho : R
  optimalSplitting : R
  deriving Repr

namespace Reciprocal
variable {R C : Type}
variable [Add R] [Sub R] [Mul R] [Div R] [Neg R] [OfScientific R] [BEq R] [LT R] [DecidableLT R]
variable [RealFunctions R] [ComplexFunctions R C]

/-- The splitting parameter for a line: the inverse length of the cell, within a bound that grows
with the wavenumber and one that shrinks with the distance from the line. The first bound is
looked at first. -/
def lineSplitting (length2 rho2 rho wavenumber : R) : R :=
  let eta := sqrt (pi / length2)
  let least := wavenumber / 20.0
  let greatest := if rho2 == 0.0 then 1.0e100 else 1.2 / rho
  if eta < least then least else if greatest < eta then greatest else eta

/-- The splitting parameter for a plane: the inverse length of the cell, or more when the
wavenumber or the dual vectors are long beside it. -/
def planeSplitting (area wavenumber : R) (gamma1 gamma2 : Vec2 R) : R :=
  let fromArea := sqrt (pi / RealFunctions.abs area)
  let fromWavenumber :=
    sqrt (wavenumber * wavenumber + gamma1.dot gamma1 + gamma2.dot gamma2) / 10.0
  if fromArea < fromWavenumber then fromWavenumber else fromArea

/-- The reciprocal lattice of a line of sources along x. -/
def ofLine (a : Vec2 R) (k : C) (point : Vec3 R) : Except (ConfigurationError R) (Reciprocal R) :=
  let length2 := a.dot a
  if length2 == 0.0 then .error .emptyCell
  else if !(a.y == 0.0) then .error .notAlongX
  else
    let norm := 2.0 * pi / length2
    let gamma : Vec2 R := ⟨norm * a.x, norm * a.y⟩
    let factor := point.planar.dot a / length2
    let across : Vec2 R := ⟨point.x - factor * a.x, point.y - factor * a.y⟩
    let rho2 := across.dot across + point.z * point.z
    let rho := sqrt rho2
    .ok { gamma1 := gamma
          gamma2 := ⟨0.0, 0.0⟩
          zoneMeasure := sqrt (gamma.dot gamma)
          rho
          optimalSplitting := lineSplitting length2 rho2 rho (modulus k) }

/-- The reciprocal lattice of a plane of sources. -/
def ofPlane (a1 a2 : Vec2 R) (k : C) : Except (ConfigurationError R) (Reciprocal R) :=
  let area := a1.cross a2
  if area == 0.0 then .error .emptyCell
  else
    let gamma1 : Vec2 R := ⟨2.0 * pi * a2.y / area, 2.0 * pi * -a2.x / area⟩
    let gamma2 : Vec2 R := ⟨2.0 * pi * -a1.y / area, 2.0 * pi * a1.x / area⟩
    .ok { gamma1
          gamma2
          zoneMeasure := RealFunctions.abs (gamma1.cross gamma2)
          rho := 0.0
          optimalSplitting := planeSplitting area (modulus k) gamma1 gamma2 }

/-- The reciprocal lattice at a point, for a wavenumber. -/
def construct (basis : Basis R) (k : C) (point : Vec3 R) :
    Except (ConfigurationError R) (Reciprocal R) :=
  match basis with
  | .line a => ofLine a k point
  | .plane a1 a2 => ofPlane a1 a2 k

/-! ## Arrays -/

/-- The vectors whose reciprocal lattice is asked for: one row of two components, or the first two
components of two rows. Other arrays are refused; if their cell is empty, for that. -/
def readBasis (basis : RealArray R) : Except (Failure R) (Basis R) :=
  let emptyOr (measure : R) (other : Failure R) : Except (Failure R) (Basis R) :=
    .error (if measure == 0.0 then .configuration .emptyCell else other)
  match basis.shape, basis.entries with
  | [1, 2], [x, y] => .ok (.line ⟨x, y⟩)
  | [1, _], [] => .error (.configuration .emptyCell)
  | [1, _], x :: y :: rest =>
    emptyOr (rest.foldl (fun sum z => sum + z * z) (x * x + y * y))
      (if y == 0.0 then .shapeMismatch else .configuration .notAlongX)
  | 1 :: _, [x] => emptyOr (x * x) .missingComponent
  | [2, columns], entries =>
    match entries, entries.drop columns with
    | x1 :: y1 :: _, x2 :: y2 :: _ => .ok (.plane ⟨x1, y1⟩ ⟨x2, y2⟩)
    | _, _ => .error .missingComponent
  | 2 :: columns :: _ :: _, entries =>
    if columns < 2 then .error .missingComponent
    else match entries, entries.drop columns with
      | x1 :: y1 :: _, x2 :: y2 :: rest =>
        if rest.length + 2 = columns then
          emptyOr ((⟨x1, y1⟩ : Vec2 R).cross ⟨x2, y2⟩) .shapeMismatch
        else .error .shapeMismatch
      | _, _ => .error .shapeMismatch
  | [], _ | [2], _ => .error .missingComponent
  | _, _ => .error .shapeMismatch

/-- The failure of a point with more than one axis. Its distance from a line along x would be a
product of arrays, which are formed as far as they fit together. -/
def arrayPointFailure (n : Nat) (axes : List Nat) : Failure R :=
  let components := min n 2 :: axes
  let across := if axes.getLast? == some 2 then
      (Extents.join? components.dropLast [2]).bind (Extents.join? components)
    else none
  match across.map List.reverse with
  | some (last :: before :: _) =>
    if last = before && n < 3 then .missingComponent else .shapeMismatch
  | _ => .shapeMismatch

/-- The point whose distance from a line is asked for: the first three components of a list. -/
def readPoint (point : RealArray R) : Except (Failure R) (Vec3 R) :=
  match point.shape, point.entries with
  | [_], x :: y :: z :: _ => .ok ⟨x, y, z⟩
  | [_], [_, _] => .error .missingComponent
  | [_], _ => .error .shapeMismatch
  | [], _ => .error .missingComponent
  | n :: axes, _ => .error (arrayPointFailure n axes)

/-- The reciprocal lattice of a basis at a point, both given as arrays. The point is read for a line
only, and after the basis has been found fit. -/
def constructAt (basis : RealArray R) (k : C) (point : RealArray R) :
    Except (Failure R) (Reciprocal R) := do
  let basis ← readBasis basis
  let atOrigin ← (construct basis k ⟨0.0, 0.0, 0.0⟩).mapError .configuration
  match basis with
  | .plane .. => return atOrigin
  | .line _ => (construct basis k (← readPoint point)).mapError .configuration

end Reciprocal

section
variable {R C : Type}
variable [Add R] [Sub R] [Mul R] [OfScientific R] [BEq R]

/-- The vectors that the sums run over. Rows with an array in place of a component have no
reciprocal lattice. -/
def Lattice.vectors (lattice : Lattice R) : Except (Failure R) (Basis R) :=
  Reciprocal.readBasis lattice.basis.toArray

variable [Div R] [Neg R] [LT R] [DecidableLT R] [RealFunctions R] [ComplexFunctions R C]

/-- The reciprocal lattice of a checked lattice. -/
def Lattice.reciprocal (lattice : Lattice R) (k : C) (point : Vec3 R) :
    Except (Failure R) (Reciprocal R) := do
  (Reciprocal.construct (← lattice.vectors) k point).mapError .configuration

end

end LatticeGreen

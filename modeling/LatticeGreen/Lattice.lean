import LatticeGreen.Coordinates
import LatticeGreen.Failure
import LatticeGreen.RealArray
import LatticeGreen.Scalar

/-!
# Lattices

A lattice is periodic in one or two directions of the plane. It is given by its symmetry and
lengths or by explicit basis vectors; a basis is checked once, before anything is computed from it.
-/
namespace LatticeGreen

inductive Symmetry where
  | linear | rectangular | hexagonal | oblique
  deriving Repr, DecidableEq

namespace Symmetry

def all : List Symmetry := [linear, rectangular, hexagonal, oblique]

def name : Symmetry → String
  | linear => "Linear"
  | rectangular => "Rectangular"
  | hexagonal => "Hexagonal"
  | oblique => "Oblique"

def ofName? (text : String) : Option Symmetry := all.find? (·.name == text)

end Symmetry

/-- The vectors of a lattice: one for a line of sources, two for a plane. -/
inductive Basis (R : Type) where
  | line (a : Vec2 R)
  | plane (a1 a2 : Vec2 R)
  deriving Repr, DecidableEq

namespace Basis
variable {R : Type}

def dimension : Basis R → Int
  | line _ => 1
  | plane _ _ => 2

end Basis

section
variable {R : Type} [OfScientific R] [BEq R]

/-- The quantity equals one or two. -/
def Quantity.isDimension : Quantity R → Bool
  | integer n => n == 1 || n == 2
  | real x => x == 1.0 || x == 2.0
  | flag b => b

/-- More rows are asked for than there are. -/
def Quantity.exceeds [NatCast R] [LT R] [DecidableLT R] (q : Quantity R) (rows : Nat) : Bool :=
  match q with
  | integer n => decide ((rows : Int) < n)
  | real x => decide ((rows : R) < x)
  | flag b => b && rows == 0

/-- A third component of one of the first rows is not zero. -/
def Grid.leavesPlane (g : Grid R) (rows : Nat) : Bool :=
  (List.range rows).any fun i => (g.cell i 2).any fun z => !(z == 0.0)

variable [NatCast R] [LT R] [DecidableLT R]

/-- The first `dimension` rows as vectors of the plane; all rows when no dimension is asked for.
Third components are allowed as long as they are zero. -/
def validateBasis (basis : RealArray R) (dimension : Option (Quantity R)) :
    Except (Failure R) (Grid R) :=
  let g := basis.atLeast2d
  let dimension := dimension.getD (.integer g.rows)
  if !dimension.isDimension then
    .error (.configuration (.unsupportedDimension dimension))
  else if dimension.exceeds g.rows || !(g.columns == 2 || g.columns == 3) then
    .error (.configuration (.basisShape dimension g.shape))
  else
    match dimension.toIndex? with
    | none => .error .wrongType
    | some d =>
      if h : d.toNat ≤ g.rows ∧ 2 ≤ g.columns then
        if g.columns == 3 && g.leavesPlane d.toNat then .error (.configuration .outOfPlane)
        else .ok (g.leading d.toNat 2 h.1 h.2)
      else .error (.configuration (.basisShape dimension g.shape))

end

/-- A lattice whose basis has been checked. -/
structure Lattice (R : Type) where
  symmetry : Symmetry
  basis : Grid R
  deriving Repr

namespace Lattice
variable {R : Type}

def dimension (lattice : Lattice R) : Nat := lattice.basis.rows

section
variable [Mul R] [Div R] [OfScientific R] [BEq R] [NatCast R] [LT R] [DecidableLT R]
variable [RealFunctions R]

/-- The rows that a symmetry generates from its lengths. An oblique lattice has rows of its own. -/
def generators (symmetry : Symmetry) (lengths : List R) (basis : Option (RealArray R)) :
    Except (ConfigurationError R) (RealArray R) :=
  match symmetry, lengths with
  | .oblique, _ => basis.elim (.error .obliqueWithoutBasis) .ok
  | .linear, [a] => .ok ⟨[1, 2], [a, 0.0], rfl⟩
  | .linear, _ => .error .linearLengths
  | .rectangular, [a, b] => .ok ⟨[2, 2], [a, 0.0, 0.0, b], rfl⟩
  | .rectangular, _ => .error .rectangularLengths
  | .hexagonal, [a] =>
    .ok ⟨[2, 2], [a * 1.0, a * 0.0, a * 0.5, a * (sqrt 3.0 / 2.0)], rfl⟩
  | .hexagonal, _ => .error .hexagonalLengths

/-- The lattice of a symmetry, its lengths and, if it is oblique, its vectors. -/
def ofSymmetry (symmetry : Symmetry) (lengths : List R) (basis : Option (RealArray R)) :
    Except (Failure R) (Lattice R) := do
  let rows ← (generators symmetry lengths basis).mapError .configuration
  return ⟨symmetry, ← validateBasis rows none⟩

/-- The lattice with the given vectors. -/
def ofBasis (basis : RealArray R) : Except (Failure R) (Lattice R) :=
  ofSymmetry .oblique [] (some basis)

end

/-- Length or area of the cell that the rows span. An area is formed from plain components only. -/
def cellMeasure [Add R] [Sub R] [Mul R] [OfScientific R] [RealFunctions R] (lattice : Lattice R) :
    Except (Failure R) R :=
  match lattice.basis.rows, lattice.basis.inner, lattice.basis.entries with
  | 1, _, entries => .ok (sqrt (entries.foldl (fun sum x => sum + x * x) 0.0))
  | _, [], [x1, y1, x2, y2] => .ok (RealFunctions.abs ((⟨x1, y1⟩ : Vec2 R).cross ⟨x2, y2⟩))
  | _, _, _ => .error .wrongType

end Lattice

end LatticeGreen

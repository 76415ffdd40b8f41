import LatticeGreen.Coordinates
import LatticeGreen.Failure
import LatticeGreen.Slots

/-!
# The Green's function of free space

The kernel `exp (i k r) / (4 pi r)` with its derivatives, and its Fourier transform along a line
with the derivatives in the distance from that line.
-/
namespace LatticeGreen

/-- A function of the distance from a line, with its first and second derivative. -/
structure Radial (C : Type) where
  value : C
  first : C
  second : C

namespace FreeSpace
variable {R C : Type}
variable [Add R] [Mul R] [OfScientific R] [LT R] [DecidableLT R] [RealFunctions R]
variable [Add C] [Sub C] [Mul C] [Div C] [ComplexFunctions R C]

/-- The square of the length of a displacement. -/
def lengthSquare (d : Vec3 R) : R := d.x * d.x + d.y * d.y + d.z * d.z

/-- The displacement is too short to leave the source. -/
def isSource (d : Vec3 R) : Bool := decide (sqrt (lengthSquare d) < 1e-8)

/-- The kernel times a phase at one displacement from the source. With `g` the kernel, the slots
are multiples of `Psi = (ikr - 1) g / r ^ 2`, `Zeta = (3 - 3 ikr + (ikr) ^ 2) g / r ^ 4` and
`Upsilon = (-15 + 15 ikr - 6 (ikr) ^ 2 + (ikr) ^ 3) g / r ^ 6`. The source itself, a displacement
shorter than `1e-8`, counts as zero. -/
def term (k : C) (d : Vec3 R) (phase : C) : Slots C :=
  let r2 := lengthSquare d
  let r := sqrt r2
  if isSource d then Slots.zero
  else
    let ikr := imaginaryUnit * k * ofReal r
    let phi := cexp ikr / ofReal (4.0 * pi * r)
    let psi := (ikr - ofReal (1.0 : R)) * phi / ofReal r2
    let zeta :=
      (ofReal (3.0 : R) + ikr * (ikr - ofReal (3.0 : R))) * phi / ofReal (r2 * r2)
    let upsilon :=
      (ikr * (ofReal (15.0 : R) + ikr * (ikr - ofReal (6.0 : R))) - ofReal (15.0 : R)) * phi /
        ofReal (r2 * r2 * r2)
    let x : C := ofReal d.x
    let y : C := ofReal d.y
    let z : C := ofReal d.z
    { value := phase * phi
      dx := phase * x * psi
      dy := phase * y * psi
      dz := phase * z * psi
      dxdy := phase * x * y * zeta
      dxdz := phase * x * z * zeta
      dydz := phase * y * z * zeta
      dxdydz := phase * x * y * z * upsilon }

/-- The kernel at one displacement, without a phase. -/
def green (k : C) (d : Vec3 R) : Slots C := term k d (ofReal (1.0 : R))

/-- The kernel at each displacement, times the phase at its place. The source itself needs none. -/
def terms (k : C) : List (Vec3 R) → List C → Except (Failure R) (List (Slots C))
  | [], _ => .ok []
  | d :: ds, phase :: phases => do return term k d phase :: (← terms k ds phases)
  | d :: ds, [] => do
    if isSource d then return Slots.zero :: (← terms k ds []) else throw .missingComponent

/-- A phase for each displacement is enough. -/
theorem terms_map {α : Type} (k : C) (d : α → Vec3 R) (phase : α → C) (xs : List α) :
    terms k (xs.map d) (xs.map phase) = .ok (xs.map fun x => term k (d x) (phase x)) := by
  induction xs with
  | nil => rfl
  | cons x xs ih =>
    simp only [List.map_cons, terms, ih]
    rfl

/-- Displacements from a flat list of their components. -/
def displacements? : List R → Option (List (Vec3 R))
  | [] => some []
  | x :: y :: z :: rest => do return ⟨x, y, z⟩ :: (← displacements? rest)
  | _ => none

/-- The Fourier transform of the kernel along a line for the transverse wavenumber `kt` with the
square `kt2`: `K0 (kt rho) / 4 pi ^ 2`, with its derivatives in the distance `rho`. -/
def rootTransform [Neg C] [SpecialFunctions C] (kt kt2 : C) (rho : R) : Radial C :=
  let (k0, k1, k2) := besselK (kt * ofReal rho)
  let norm : R := 4.0 * (pi * pi)
  ⟨k0 / ofReal norm, -kt * k1 / ofReal norm, kt2 * (k0 + k2) / ofReal (2.0 * norm)⟩

/-- The transform for a squared transverse wavenumber, of which the outgoing root is taken. -/
def lineTransform [Neg C] [SpecialFunctions C] (kt2 : C) (rho : R) : Radial C :=
  rootTransform (csqrt kt2) kt2 rho

end FreeSpace

end LatticeGreen

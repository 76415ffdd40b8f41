import LatticeGreen.Convergence
import LatticeGreen.FreeSpace
import LatticeGreen.Lattice
import LatticeGreen.ScaledErfc

/-!
# The nearby sum

The sum over the direct lattice of the short-range half of the kernel, which decays like a
Gaussian. What the half leaves of the whole kernel is its long range; close to a source it is
taken from a series in the distance, because the difference of the two loses its digits there.
-/
namespace LatticeGreen

/-- What a lattice sum at a point depends on. The splitting parameter moves weight between the
nearby and the distant sum. -/
structure Nearby (R C : Type) where
  point : Vec3 R
  wavenumber : C
  bloch : Vec2 R
  basis : Basis R
  splitting : R

/-- What the events of a nearby sum call it. -/
def Nearby.description : String := "nearby lattice sum (R, k, E)"

/-- A source as seen from the point: the displacement from it and its Bloch phase. -/
structure Source (R C : Type) where
  displacement : Vec3 R
  phase : C

/-- The whole kernel at each source. -/
def FreeSpace.sourceTerms {R C : Type} [Add R] [Mul R] [OfScientific R] [LT R] [DecidableLT R]
    [RealFunctions R] [Add C] [Sub C] [Mul C] [Div C] [ComplexFunctions R C] (k : C)
    (sources : List (Source R C)) : List (Slots C) :=
  match answered : terms k (sources.map (·.displacement)) (sources.map (·.phase)) with
  | .ok rows => rows
  | .error _ => nomatch (terms_map k _ _ sources).symm.trans answered

namespace ShortRange
variable {R C : Type}
variable [Add R] [Sub R] [Mul R] [Div R] [Neg R] [OfScientific R] [LE R] [DecidableLE R]
variable [RealFunctions R]
variable [Add C] [Sub C] [Mul C] [Div C] [Neg C] [ComplexFunctions R C] [SpecialFunctions C]

/-- The radial functions of the short-range kernel at one distance. With
`f± = exp (± i k r) * erfc (E r ± i k / 2 E)`, `both` is `f+ + f-`, `odd` is `f+ - f-`, and `gauss`
is `-(4 E / sqrt pi) * exp (-E ^ 2 r ^ 2 + k ^ 2 / 4 E ^ 2)`, so that the radial derivatives are
`both' = i k odd + gauss` and `odd' = i k both`. -/
structure RadialParts (C : Type) where
  both : C
  odd : C
  gauss : C

def radialParts (k : C) (eta r : R) : RadialParts C :=
  let e2 := eta * eta
  let ik := imaginaryUnit * k
  let shift := ik / ofReal (2.0 * eta)
  let plus := scaledErfc (ik * ofReal r) (ofReal (eta * r) + shift)
  let minus := scaledErfc (-imaginaryUnit * k * ofReal r) (ofReal (eta * r) - shift)
  { both := plus + minus
    odd := plus - minus
    gauss := ofReal (-2.0 * twoOverRootPi * eta) *
      cexp (ofReal (-e2 * (r * r)) + k * k / ofReal (4.0 * e2)) }

/-- The slots of `(f+ + f-) / r` for a displacement of length `r`. -/
def slots [Pow R Nat] (k : C) (eta : R) (d : Vec3 R) (r : R) : Slots C :=
  let parts := radialParts k eta r
  let (both, gauss) := (parts.both, parts.gauss)
  let e2 := eta * eta
  let e4 := e2 * e2
  let r2 : C := ofReal (r * r)
  let power (n : Nat) : C := ofReal (r ^ n)
  let slope := gauss + imaginaryUnit * k * parts.odd
  let first := -both / power 3 + slope / r2
  let second :=
    ofReal 3.0 * both / power 5 - ofReal 3.0 * slope / power 4
      - k * k * both / power 3 - ofReal (2.0 * e2) * gauss / r2
  let third :=
    ofReal (-15.0) * both / power 7 + ofReal 15.0 * slope / power 6
      + ofReal 6.0 * k * k * both / power 5 + ofReal (10.0 * e2) * gauss / power 4
      - k * k * slope / power 4 + ofReal (4.0 * e4) * gauss / r2
  { value := both / ofReal r
    dx := ofReal d.x * first
    dy := ofReal d.y * first
    dz := ofReal d.z * first
    dxdy := ofReal (d.x * d.y) * second
    dxdz := ofReal (d.x * d.z) * second
    dydz := ofReal (d.y * d.z) * second
    dxdydz := ofReal (d.x * d.y * d.z) * third }

/-- The short-range half of the kernel at one source. Sources closer than `1e-6` count as zero, and
so does a slot that overflows: its true size is negligible. -/
def term [Pow R Nat] (k : C) (eta : R) (source : Source R C) : Slots C :=
  let r := sqrt (FreeSpace.lengthSquare source.displacement)
  if (1.0e-6 : R) ≤ r then
    let phase := source.phase / ofReal (8.0 * pi)
    (slots k eta source.displacement r).map fun s => finiteOrZero (phase * s)
  else Slots.zero

/-- The short-range half of the kernel at each source. All rows are formed, at the distance one for
the sources that are too close, and the rows of those are then set to zero. -/
def terms [Pow R Nat] (k : C) (eta : R) (sources : List (Source R C)) : List (Slots C) :=
  let distances := sources.map fun source => sqrt (FreeSpace.lengthSquare source.displacement)
  let apart := distances.map fun r => decide ((1.0e-6 : R) ≤ r)
  let lengths := List.zipWith (fun apart r => if apart then r else 1.0) apart distances
  let rows := List.zipWith (fun source r =>
    let phase := source.phase / ofReal (8.0 * pi)
    (slots k eta source.displacement r).map fun s => finiteOrZero (phase * s)) sources lengths
  List.zipWith (fun apart row => if apart then row else Slots.zero) apart rows

end ShortRange

namespace LongRange
variable {R C : Type}
variable [Add R] [Mul R] [OfScientific R] [RealFunctions R]
variable [Add C] [Sub C] [Mul C] [Div C] [Neg C] [ComplexFunctions R C] [SpecialFunctions C]

/-- The long-range half of the kernel near its source is `c0 + c2 r ^ 2 + c4 r ^ 4`. -/
structure Series (C : Type) where
  c0 : C
  c2 : C
  c4 : C

def series (k : C) (eta : R) : Series C :=
  let i : C := imaginaryUnit
  let k2 := k * k
  let k3 := k2 * k
  let e2 := eta * eta
  let erfFactor := ofReal 1.0 + erf (ofParts 0.0 0.5 * k / ofReal eta)
  let expFactor := cexp (ofReal 0.25 * k2 / ofReal e2)
  { c0 := ofReal eta * expFactor / ofReal (2.0 * piThreeHalves)
      + i * k * erfFactor / ofReal (4.0 * pi)
    c2 := -expFactor * ofReal eta * (ofReal (2.0 * e2) + k2) / ofReal (12.0 * piThreeHalves)
      - i * k3 * erfFactor / ofReal (24.0 * pi)
    c4 := expFactor * ofReal eta
        * (ofReal (12.0 * e2 * e2) + ofReal (2.0 * e2) * k2 + k2 * k2)
        / ofReal (240.0 * piThreeHalves)
      + i * k3 * k2 * erfFactor / ofReal (480.0 * pi) }

/-- The slots of the series. The mixed third derivative vanishes at this order. -/
def smallTerm (k : C) (eta : R) (source : Source R C) : Slots C :=
  let s := series k eta
  let d := source.displacement
  let r2 : C := ofReal (FreeSpace.lengthSquare d)
  let radial := ofReal 2.0 * s.c2 + ofReal 4.0 * s.c4 * r2
  let mixed := ofReal 8.0 * s.c4
  Slots.map (source.phase * ·)
    { value := s.c0 + s.c2 * r2 + s.c4 * r2 * r2
      dx := radial * ofReal d.x
      dy := radial * ofReal d.y
      dz := radial * ofReal d.z
      dxdy := mixed * ofReal d.x * ofReal d.y
      dxdz := mixed * ofReal d.x * ofReal d.z
      dydz := mixed * ofReal d.y * ofReal d.z
      dxdydz := zeroC }

variable [Sub R] [Div R] [Neg R] [LT R] [DecidableLT R] [LE R] [DecidableLE R] [Pow R Nat]

/-- The series is used where the distance is small beside the splitting length and the
wavelength. -/
def isSmall (k : C) (eta : R) (source : Source R C) : Bool :=
  let r := sqrt (FreeSpace.lengthSquare source.displacement)
  decide (r * eta < 0.1) && decide (r * modulus k < 1.0)

/-- The whole kernel without its short-range half. -/
def difference (k : C) (eta : R) (source : Source R C) : Slots C :=
  FreeSpace.term k source.displacement source.phase - ShortRange.term k eta source

/-- The sizes of a difference and of what it is taken from, at a distance from the source. -/
structure Cancellation (R : Type) where
  distance : R
  whole : R
  short : R
  difference : R

namespace Cancellation

def ofRows (source : Source R C) (whole short : Slots C) : Cancellation R :=
  { distance := sqrt (FreeSpace.lengthSquare source.displacement)
    whole := modulus whole.value
    short := modulus short.value
    difference := modulus (whole - short).value }

/-- Six digits or more cancel in the difference, and what is left is not negligible. -/
def losesPrecision (c : Cancellation R) : Bool :=
  decide (c.difference < 1.0e-6 * (c.whole + c.short)) && decide ((1.0e-8 : R) < c.difference)

def event (c : Cancellation R) : Event R :=
  .precisionLost c.distance c.whole c.short c.difference

end Cancellation

/-- The difference at one source. -/
def cancellation (k : C) (eta : R) (source : Source R C) : Cancellation R :=
  .ofRows source (FreeSpace.term k source.displacement source.phase) (ShortRange.term k eta source)

/-- The long-range half of the kernel at one source. -/
def term (k : C) (eta : R) (source : Source R C) : Logged R (Slots C) := do
  if isSmall k eta source then return smallTerm k eta source
  else
    let c := cancellation k eta source
    Logged.noteIf c.losesPrecision c.event
    return difference k eta source

/-- Rows of the first list where the mask is set, and of the second elsewhere. -/
def merge (mask : List Bool) (yes no : List (Slots C)) : List (Slots C) :=
  List.zipWith (fun chosen rows => if chosen then rows.1 else rows.2) mask (yes.zip no)

/-- The long-range half of the kernel at each source. The differences are taken at all of them, and
those that lose precision are noted in order. As soon as one source is near, the series is formed
for all of them and replaces the rows of the near ones. -/
def terms (k : C) (eta : R) (sources : List (Source R C)) : Logged R (List (Slots C)) := do
  let small := sources.map (isSmall k eta)
  let whole := FreeSpace.sourceTerms k sources
  let short := ShortRange.terms k eta sources
  let long := List.zipWith (· - ·) whole short
  let sizes := List.zipWith (fun source rows => Cancellation.ofRows source rows.1 rows.2) sources
    (whole.zip short)
  let lost := (small.zip sizes).filter fun row => !row.1 && row.2.losesPrecision
  lost.forM fun row => Logged.note row.2.event
  return if small.any id then merge small (sources.map (smallTerm k eta)) long else long

end LongRange

namespace Nearby
variable {R C : Type}
variable [Add R] [Sub R] [Mul R] [OfScientific R] [IntCast R]
variable [Mul C] [ComplexFunctions R C]

/-- The position of the source in a cell. -/
def latticePoint (sum : Nearby R C) (c : Cell) : Vec2 R :=
  match sum.basis with
  | .line a => ⟨(c.n1 : R) * a.x, (c.n1 : R) * a.y⟩
  | .plane a1 a2 =>
    ⟨(c.n1 : R) * a1.x + (c.n2 : R) * a2.x, (c.n1 : R) * a1.y + (c.n2 : R) * a2.y⟩

/-- The displacement of the point from the source in a cell. -/
def displacement (sum : Nearby R C) (c : Cell) : Vec3 R :=
  let l := sum.latticePoint c
  ⟨sum.point.x - l.x, sum.point.y - l.y, sum.point.z⟩

/-- `exp (i P . L)`. -/
def phase (sum : Nearby R C) (c : Cell) : C :=
  cexp (imaginaryUnit * ofReal ((sum.latticePoint c).dot sum.bloch))

def source (sum : Nearby R C) (c : Cell) : Source R C := ⟨sum.displacement c, sum.phase c⟩

variable [Div R] [Neg R] [LT R] [DecidableLT R] [LE R] [DecidableLE R] [BEq R] [Pow R Nat]
variable [RealFunctions R]
variable [Add C] [Sub C] [Div C] [Neg C] [SpecialFunctions C]

/-- The contribution of one cell. Without splitting it is the whole kernel. -/
def term (sum : Nearby R C) (c : Cell) : Slots C :=
  let source := sum.source c
  if sum.splitting == 0.0 then FreeSpace.term sum.wavenumber source.displacement source.phase
  else ShortRange.term sum.wavenumber sum.splitting source

/-- The contribution of a list of cells. -/
def shell (sum : Nearby R C) (cells : List Cell) : Slots C :=
  let sources := cells.map sum.source
  Slots.sum (if sum.splitting == 0.0 then FreeSpace.sourceTerms sum.wavenumber sources
    else ShortRange.terms sum.wavenumber sum.splitting sources)

/-- What the distant sum holds of a list of cells: their long-range halves. -/
def longRange (sum : Nearby R C) (cells : List Cell) : Logged R (Slots C) :=
  if sum.splitting == 0.0 then pure Slots.zero
  else do
    let rows ← LongRange.terms sum.wavenumber sum.splitting (cells.map sum.source)
    return Slots.sum rows

/-- The sum over the direct lattice, with the innermost cells or without them. -/
def construct (sum : Nearby R C) (c : Convergence R) (excludeInner : Bool)
    (obstacles : Obstacles R := {}) : Attempt R (LatticeSum C) :=
  accumulate (fun cells => pure ⟨sum.shell cells, false⟩) sum.basis.dimension c description
    excludeInner obstacles

end Nearby

end LatticeGreen

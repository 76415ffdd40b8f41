import LatticeGreen.Log
import LatticeGreen.Scalar

/-!
# The exponential integral

Three expansions of `E1 z` and the choice between them. Each expansion takes a tolerance, stops at
the first term (or run of steps) below it and counts its steps; running out of steps is noted.
-/
namespace LatticeGreen.ExponentialIntegral

variable {R C : Type}
variable [Sub R] [Mul R] [Neg R] [OfScientific R] [NatCast R] [LT R] [DecidableLT R]
variable [RealFunctions R]
variable [Add C] [Sub C] [Mul C] [Div C] [Neg C] [BEq C] [ComplexFunctions R C]

/-- The value of an expansion and its number of steps. -/
structure Estimate (C : Type) where
  value : C
  steps : Nat

/-- The tolerance of the expansions unless another is asked for. -/
def defaultTolerance : R := 1e-8

/-! ## Power series -/

/-- The running quantities of the power series after some terms. -/
structure PowerSeries (R C : Type) where
  factorial : R
  power : C
  value : C
  previous : C

namespace PowerSeries

/-- `-gamma - log z`, the part before the first term. -/
def initial (z : C) : PowerSeries R C :=
  let value := ofReal (-(eulerGamma : R)) - clog z
  ⟨1.0, ofReal (1.0 : R), value, value⟩

/-- Takes away the term `(-z) ^ n / (n * n!)`. -/
def step (z : C) (n : Nat) (s : PowerSeries R C) : PowerSeries R C :=
  let factorial := s.factorial * (n : R)
  let power := s.power * -z
  ⟨factorial, power, s.value - power / ofReal (factorial * (n : R)), s.value⟩

def settled (tolerance : R) (s : PowerSeries R C) : Bool :=
  decide (modulus (s.value - s.previous) < tolerance * modulus s.value)

/-- Takes up to `budget` terms after the first `n`. The flag tells whether the last term taken was
small enough. -/
def run (tolerance : R) (z : C) : (budget n : Nat) → PowerSeries R C → Estimate C × Bool
  | 0, n, s => (⟨s.value, n⟩, false)
  | budget + 1, n, s =>
    let s := s.step z (n + 1)
    if s.settled tolerance then (⟨s.value, n + 1⟩, true) else run tolerance z budget (n + 1) s

end PowerSeries

/-- `-gamma - log z` less the sum of `(-z) ^ n / (n * n!)`. -/
def series (tolerance : R) (z : C) : Logged R (Estimate C) := do
  let (estimate, settled) := PowerSeries.run tolerance z 100 0 (PowerSeries.initial (R := R) z)
  Logged.noteIf (!settled) .powerSeriesNotConverged
  return estimate

/-! ## Continued fraction -/

/-- The running quantities of the continued fraction: the value, the ratios of successive
numerators and of successive denominators, and the length of the current run of small changes. -/
structure Lentz (C : Type) where
  value : C
  c : C
  d : C
  streak : Nat

namespace Lentz

/-- Stands in for a vanishing denominator. -/
def tiny : C := ofReal (1e-30 : R)

def initial : Lentz C := ⟨tiny (R := R), tiny (R := R), zeroC (R := R), 0⟩

/-- The partial numerators: `exp (-z)`, then 1, 1, 2, 2, 3, ... -/
def numerator (z : C) (j : Nat) : C :=
  if j = 1 then cexp (-z) else ofReal ((j / 2 : Nat) : R)

/-- The partial denominators: `z` and 1 in turn. -/
def denominator (z : C) (j : Nat) : C := if j % 2 = 1 then z else ofReal (1.0 : R)

def nonzero (z : C) : C := if z == zeroC (R := R) then tiny (R := R) else z

/-- Appends the partial fraction `j`. -/
def step (tolerance : R) (z : C) (j : Nat) (s : Lentz C) : Lentz C :=
  let a := numerator (R := R) z j
  let b := denominator (R := R) z j
  let c := nonzero (R := R) (b + a / s.c)
  let d := ofReal (1.0 : R) / nonzero (R := R) (b + a * s.d)
  let delta := c * d
  let small := modulus (delta - ofReal (1.0 : R)) < tolerance
  ⟨s.value * delta, c, d, if small then s.streak + 1 else 0⟩

/-- Appends up to `budget` partial fractions after the first `j`. The flag tells whether five small
changes in a row were seen. -/
def run (tolerance : R) (z : C) : (budget j : Nat) → Lentz C → Estimate C × Bool
  | 0, j, s => (⟨s.value, j⟩, false)
  | budget + 1, j, s =>
    let s := s.step tolerance z (j + 1)
    if s.streak = 5 then (⟨s.value, j + 1⟩, true) else run tolerance z budget (j + 1) s

end Lentz

/-- `exp (-z) / (z + 1 / (1 + 1 / (z + 2 / (1 + 2 / (z + ...)))))`, by the modified Lentz method. -/
def continuedFraction (tolerance : R) (z : C) : Logged R (Estimate C) := do
  let (estimate, settled) := Lentz.run tolerance z 999 0 (Lentz.initial (R := R))
  Logged.noteIf (!settled) .continuedFractionNotConverged
  return estimate

/-! ## Asymptotic series -/

/-- The running sum of the asymptotic series and its latest term. -/
structure Asymptotic (C : Type) where
  total : C
  term : C

namespace Asymptotic

def initial : Asymptotic C := ⟨ofReal (1.0 : R), ofReal (1.0 : R)⟩

/-- Adds the term `(-1) ^ n * n! / z ^ n`. -/
def step (z : C) (n : Nat) (s : Asymptotic C) : Asymptotic C :=
  let term := s.term * (ofReal (-(n : R)) / z)
  ⟨s.total + term, term⟩

def settled (tolerance : R) (s : Asymptotic C) : Bool :=
  decide (modulus s.term < tolerance * modulus s.total)

/-- Adds up to `budget` terms after the first `n`. -/
def run (tolerance : R) (z : C) : (budget n : Nat) → Asymptotic C → Estimate C × Bool
  | 0, n, s => (⟨s.total, n⟩, false)
  | budget + 1, n, s =>
    let s := s.step (R := R) z (n + 1)
    if s.settled tolerance then (⟨s.total, n + 1⟩, true) else run tolerance z budget (n + 1) s

end Asymptotic

/-- `exp (-z) / z` times the sum of `(-1) ^ n * n! / z ^ n`; zero beyond `|z| = 100`. -/
def asymptotic (tolerance : R) (z : C) : Logged R (Estimate C) := do
  if (100.0 : R) < modulus z then
    return ⟨zeroC, 0⟩
  let (estimate, settled) := Asymptotic.run tolerance z 100 0 (Asymptotic.initial (R := R))
  Logged.noteIf (!settled) .asymptoticSeriesNotConverged
  return ⟨estimate.value * cexp (-z) / z, estimate.steps⟩

/-! ## Choice -/

/-- The argument lies within 0.2 of the negative real axis. -/
def nearCut (z : C) : Bool :=
  decide (RealFunctions.abs (RealFunctions.abs (argument z) - pi) < (0.2 : R))

/-- `E1 z`: the power series for small arguments and near the cut, the continued fraction for
moderate and the asymptotic series for large ones. -/
def expInt (z : C) : Logged R C :=
  let r := modulus z
  let value (x : Logged R (Estimate C)) : Logged R C := return (← x).value
  if r < 5.0 then value (series defaultTolerance z)
  else if r < 30.0 then
    if nearCut z then value (series defaultTolerance z)
    else value (continuedFraction defaultTolerance z)
  else value (asymptotic defaultTolerance z)

end LatticeGreen.ExponentialIntegral

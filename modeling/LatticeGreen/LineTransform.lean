import LatticeGreen.ExponentialIntegral
import LatticeGreen.Failure
import LatticeGreen.FreeSpace

/-!
# The long-range kernel along a line

The Fourier transform of the long-range half of the kernel along a line of sources is a series of
generalised exponential integrals in the squared distance from the line. Far from the line the
short-range half is negligible and the transform of the whole kernel takes its place.
-/
namespace LatticeGreen.LineTransform

open ExponentialIntegral (expInt)

variable {R C : Type}
variable [Add R] [Sub R] [Mul R] [Div R] [Neg R] [OfScientific R] [NatCast R] [BEq R]
variable [LT R] [DecidableLT R] [RealFunctions R]
variable [Add C] [Sub C] [Mul C] [Div C] [Neg C] [BEq C] [ComplexFunctions R C]

/-- The distance, in splitting lengths, beyond which the whole kernel is transformed. -/
def crossover : R := 4.5

/-- `kt ^ 2 / 4 E ^ 2`, scaled part by part to keep the sign of a zero imaginary part. -/
def scaledArgument (kt2 : C) (eta : R) : C :=
  let scale := 0.25 / (eta * eta)
  ofParts (re kt2 * scale) (im kt2 * scale)

/-- The running quantities of the series: the integral of the current order, the weight before it,
the sum with its two derivatives and the length of the current run of small terms. -/
structure Partial (R C : Type) where
  order : C
  weight : R
  total : C
  first : C
  second : C
  streak : Nat

namespace Partial

/-- The series cut after its first term `E1`. -/
def initial (e1 : C) : Partial R C := ⟨e1, 1.0, e1, zeroC, zeroC, 0⟩

/-- Adds the term `(-rho ^ 2 E ^ 2) ^ q / q! * E (q + 1)`, with
`E (q + 1) = (exp (-x) - x * E q) / q`. -/
def step (x expFactor : C) (rho eta : R) (q : Nat) (s : Partial R C) : Partial R C :=
  let n : R := q
  let order := (expFactor - x * s.order) / ofReal n
  let weight := s.weight * (-(rho * rho * eta * eta) / n)
  let summand := ofReal weight * order
  let total := s.total + summand
  let scaled := ofReal (2.0 * n / rho) * summand
  { order
    weight
    total
    first := s.first + scaled
    second := s.second + scaled * ofReal (2.0 * n - 1.0) / ofReal rho
    streak := if modulus summand < 1.0e-8 * modulus total then s.streak + 1 else 0 }

/-- Adds up to `budget` terms after the first `q`. The flag tells whether two small terms in a row
were seen. -/
def run (x expFactor : C) (rho eta : R) : (budget q : Nat) → Partial R C → Partial R C × Bool
  | 0, _, s => (s, false)
  | budget + 1, q, s =>
    let s := s.step x expFactor rho eta (q + 1)
    if s.streak = 2 then (s, true) else run x expFactor rho eta budget (q + 1) s

end Partial

/-- The sum of `(-rho ^ 2 E ^ 2) ^ q / q! * E (q + 1) x` over `8 pi ^ 2`, with its derivatives in
the distance. Where `E1` underflows, all orders do. -/
def series (kt2 : C) (rho eta : R) : Logged R (Radial C) := do
  let x := scaledArgument kt2 eta
  let e1 ← expInt x
  let norm : C := ofReal (8.0 * (pi * pi))
  if rho == 0.0 then return ⟨e1 / norm, zeroC, zeroC⟩
  else if e1 == zeroC then return ⟨zeroC, zeroC, zeroC⟩
  else
    let (s, settled) := Partial.run x (cexp (-x)) rho eta 999 0 (Partial.initial e1)
    Logged.noteIf (!settled && decide ((1.0e-8 : R) < modulus s.total)) .transformNotConverged
    return ⟨s.total / norm, s.first / norm, s.second / norm⟩

/-- The transform for the squared transverse wavenumber `kt ^ 2` at the distance `rho`. The series
is in the inverse square of the splitting parameter, which must not vanish. -/
def longRange [SpecialFunctions C] (kt2 : C) (rho eta : R) : Attempt R (Radial C) :=
  if crossover < rho * eta then pure (FreeSpace.lineTransform kt2 rho)
  else if eta * eta == 0.0 then Attempt.fail .divisionByZero
  else (series kt2 rho eta : Logged R (Radial C))

end LatticeGreen.LineTransform

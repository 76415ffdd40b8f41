import LatticeGreen.Double.ErrorFunction

/-!
# Modified Bessel functions of machine numbers

The functions `K0`, `K1` and `K2`: on the right half plane power series near the origin, an integral
along a path of steepest descent at moderate distance, the asymptotic series beyond; on the left
half plane their continuation, with the cut along the negative real axis.
-/
namespace LatticeGreen.Double

namespace BesselK

def real (x : Float) : Complex := ⟨x, 0.0⟩

/-- The running terms of the power series of `K0` and `K1`. -/
structure Terms where
  term0 : Complex
  term1 : Complex
  sum0 : Complex
  sum1 : Complex
  harmonic : Float

/-- Takes in the terms of index `k`, with `t = (z / 2) ^ 2` and `l = log (z / 2)`. -/
def Terms.step (t l : Complex) (s : Terms) (k : Nat) : Terms :=
  let n := k.toFloat
  let term0 := if k = 0 then s.term0 else s.term0 * t * real (1.0 / (n * n))
  let term1 := if k = 0 then s.term1 else s.term1 * t * real (1.0 / (n * (n + 1.0)))
  let h := if k = 0 then 0.0 else s.harmonic + 1.0 / n
  let c0 := real (h - eulerGamma) - l
  let c1 := l + real (eulerGamma - 0.5 * (h + (h + 1.0 / (n + 1.0))))
  ⟨term0, term1, s.sum0 + term0 * c0, s.sum1 + term1 * c1, h⟩

/-- `K0` and `K1` near the origin. -/
def series (z : Complex) : Complex × Complex :=
  let half := real 0.5 * z
  let one := real 1.0
  let s := (List.range 26).foldl (Terms.step (half * half) (log half))
    ⟨one, one, real 0.0, real 0.0, 0.0⟩
  (s.sum0, one / z + half * s.sum1)

/-- `K0`, `K1` and `K2` from the first two. -/
def withSecond (z : Complex) : Complex × Complex → Complex × Complex × Complex
  | (k0, k1) => (k0, k1, k0 + real 2.0 * (k1 / z))

/-- The integrand at `u` on the path through the saddle: the weight, and the value of
`cosh t - 1`. -/
def pathPoint (angle u : Float) : Complex × Complex :=
  let a := 0.5 * u
  let b := -0.5 * (angle * Float.tanh u)
  let s : Complex := ⟨Float.sinh a * Float.cos b, Float.cosh a * Float.sin b⟩
  let c := Float.cosh u
  (⟨1.0, -angle / (c * c)⟩, real 2.0 * s * s)

/-- The trapezoidal rule along the path, up to `budget` nodes, for the three integrals. -/
def integrate (z : Complex) (angle h : Float) :
    (budget n : Nat) → Complex × Complex × Complex → Complex × Complex × Complex
  | 0, _, sums => sums
  | budget + 1, n, (s0, s1, s2) =>
    let (weight, e) := pathPoint angle (n.toFloat * h)
    let ze := z * e
    let w := exp (-ze) * weight * real (if n = 0 then 0.5 else 1.0)
    let c := real 1.0 + e
    let sums := (s0 + w, s1 + w * c, s2 + w * (real 2.0 * c * c - real 1.0))
    if ze.re > 45.0 then sums else integrate z angle h budget (n + 1) sums

/-- The three functions at moderate distance from the origin. -/
def descent (z : Complex) : Complex × Complex × Complex :=
  let h := 0.05
  let zero := real 0.0
  let (s0, s1, s2) := integrate z (Float.atan2 z.im z.re) h 400 0 (zero, zero, zero)
  let f := exp (-z) * real h
  (f * s0, f * s1, f * s2)

/-- The asymptotic series of order `nu`, up to `budget` terms, cut at its smallest term. -/
def asymptoticSum (z : Complex) (nu : Float) : (budget k : Nat) → (term sum : Complex) → Complex
  | 0, _, _, sum => sum
  | budget + 1, k, term, sum =>
    let n := k.toFloat
    let odd := 2.0 * n - 1.0
    let next := term * (real ((4.0 * nu * nu - odd * odd) / (8.0 * n)) / z)
    if k > 3 && hypot next.re next.im ≥ hypot term.re term.im then sum
    else asymptoticSum z nu budget (k + 1) next (sum + next)

/-- The three functions far from the origin, without the factor `exp (-z)`. -/
def farScaled (z : Complex) : Complex × Complex × Complex :=
  let f := root (real 1.5707963267948966 / z)
  let k nu := f * asymptoticSum z nu 50 1 (real 1.0) (real 1.0)
  (k 0.0, k 1.0, k 2.0)

/-- The three functions far from the origin. -/
def far (z : Complex) : Complex × Complex × Complex :=
  let (s0, s1, s2) := farScaled z
  let f := exp (-z)
  (f * s0, f * s1, f * s2)

/-! ## The range of values -/

/-- Sizes beyond the exponential of this number, or below that of its opposite, are out of range. -/
def greatestExponent : Float := 700.92179369444591

/-- From this real part on, values are close to the bound of underflow. -/
def closeToUnderflow : Float := 664.8719075692763

/-- The precision of machine numbers. -/
def precision : Float := 2.220446049250313e-16

/-- Below this size an argument is as good as zero. -/
def leastArgument : Float := 2.2250738585072014e-305

/-- Beyond this distance no digit of the phase is known. -/
def largestArgument : Float := 1073741823.5

def zero : Complex := real 0.0

def undefined : Complex := ⟨nan, nan⟩

/-- `exp (-z) * s`, or zero if it is too small or one of its parts has lost its digits. -/
def withUnderflow (z s : Complex) : Complex :=
  let size := hypot s.re s.im
  if Float.log size - z.re < -greatestExponent then zero
  else
    let value := exp (log s - z)
    let parts := (value.re.abs / precision, value.im.abs / precision)
    let least := if parts.1 < parts.2 then parts.1 else parts.2
    let greatest := if parts.1 < parts.2 then parts.2 else parts.1
    if least ≤ 1.0020841800044864e-289 && greatest < least / precision then zero else value

/-- The three functions on the right half plane, at some distance from the origin. -/
def right (z : Complex) : Complex × Complex × Complex :=
  let r := hypot z.re z.im
  if closeToUnderflow < z.re then
    let (s0, s1, s2) := farScaled z
    (withUnderflow z s0, withUnderflow z s1, withUnderflow z s2)
  else if r ≤ 2.0 then
    let (k0, k1, k2) := withSecond z (series z)
    (k0, k1, if r ≤ precision && greatestExponent < -2.0 * Float.log (0.5 * r) then undefined
      else k2)
  else if r < 18.0 then descent z
  else far z

/-! ## The left half plane -/

/-- The modified function of the first kind: the mean of `exp (w cos t) cos (nu t)` over half a
turn, by the trapezoidal rule. -/
def firstKind (w : Complex) (nu : Float) : Complex :=
  let count := 96
  let nodes := (List.range (count + 1)).map fun n =>
    let t := 3.141592653589793 * n.toFloat / count.toFloat
    let weight := if n = 0 || n = count then 0.5 else 1.0
    exp (w * real (Float.cos t)) * real (weight * Float.cos (nu * t) / count.toFloat)
  nodes.foldl (· + ·) zero

/-- The continuation of the three functions to the left half plane: `(-1) ^ nu K w - i pi I w` at
`z = -w` on the cut and above it, with the other sign of the second term below. -/
def left (z : Complex) : Complex × Complex × Complex :=
  let w := -z
  if greatestExponent < w.re then (undefined, undefined, undefined)
  else if 18.0 ≤ hypot z.re z.im then far ⟨z.re, if z.im == 0.0 then 0.0 else z.im⟩
  else
    let (k0, k1, k2) := right w
    let turn : Complex := ⟨0.0, if z.im < 0.0 then 3.141592653589793 else -3.141592653589793⟩
    (k0 + turn * firstKind w 0.0, turn * firstKind w 1.0 - k1, k2 + turn * firstKind w 2.0)

/-- The three functions. -/
def values (z : Complex) : Complex × Complex × Complex :=
  let r := hypot z.re z.im
  if z.re.isNaN || z.im.isNaN || largestArgument < r || r < leastArgument then
    (undefined, undefined, undefined)
  else if z.re < 0.0 then left z
  else right z

end BesselK

instance : SpecialFunctions Complex where
  erfcx := scaledErfcPlus
  erf := errorFunction
  besselK := BesselK.values

end LatticeGreen.Double

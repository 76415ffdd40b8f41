import LatticeGreen.Double.Elementary

/-!
# The error function of machine numbers

The function `w z = exp (-z ^ 2) * erfc (-i z)` is an integral of a Gaussian over a pole. The
trapezoidal rule on the real line evaluates it to full accuracy with twelve nodes once the residue
of the pole is added; nodes at integer or half-integer steps are chosen so that the pole is not
close to one.
-/
namespace LatticeGreen.Double

abbrev Complex := Cartesian Float

namespace Faddeeva

/-- The number of nodes after the first. -/
def nodes : Nat := 11

/-- The distance of two nodes. -/
def step : Float := Float.sqrt (3.141592653589793 / 12.0)

def conj (z : Complex) : Complex := ⟨z.re, -z.im⟩

/-- `z ^ 2`, the real part by factors. -/
def square (z : Complex) : Complex := ⟨(z.re - z.im) * (z.re + z.im), 2.0 * z.re * z.im⟩

/-- The sum of `exp (-t ^ 2) / (z ^ 2 - t ^ 2)` over the given nodes. -/
def gaussianSum (z2 : Complex) (ts : List Float) : Complex :=
  ts.foldl
    (fun acc t => acc + (⟨Float.exp (-(t * t)), 0.0⟩ : Complex) / (z2 - ⟨t * t, 0.0⟩)) ⟨0.0, 0.0⟩

def halfNodes : List Float := (List.range (nodes + 1)).map fun k => (k.toFloat + 0.5) * step

def wholeNodes : List Float := (List.range nodes).map fun k => (k.toFloat + 1.0) * step

/-- `2 i h z / pi`. -/
def weight (z : Complex) : Complex :=
  let f := 2.0 * step / 3.141592653589793
  ⟨-f * z.im, f * z.re⟩

/-- `exp (-2 pi i z / h)`, the size of the residue's denominator. -/
def period (z : Complex) : Complex :=
  let f := 6.283185307179586 / step
  exp ⟨f * z.im, -f * z.re⟩

def midpoint (z : Complex) : Complex := weight z * gaussianSum (square z) halfNodes

def midpointResidue (z : Complex) : Complex :=
  (⟨2.0, 0.0⟩ * exp (-square z)) / (⟨1.0, 0.0⟩ + period z)

def trapezoid (z : Complex) : Complex :=
  (⟨0.0, step / 3.141592653589793⟩ : Complex) / z + weight z * gaussianSum (square z) wholeNodes

def trapezoidResidue (z : Complex) : Complex :=
  (⟨2.0, 0.0⟩ * exp (-square z)) / (⟨1.0, 0.0⟩ - period z)

/-- Far from the origin two levels of the continued fraction are exact. -/
def far (z : Complex) : Complex :=
  (⟨0.0, 0.5641895835477563⟩ : Complex) / (z - (⟨0.5, 0.0⟩ : Complex) / z)

/-- `w` on the first quadrant. -/
def firstQuadrant (z : Complex) : Complex :=
  let x := z.re
  let y := z.im
  let fraction := x / step - Float.floor (x / step)
  if x > 1e4 || y > 1e4 then
    if x == infinity || y == infinity then ⟨0.0, 0.0⟩ else far z
  else if y ≥ 3.141592653589793 / step then midpoint z
  else if y < x && 0.25 ≤ fraction && fraction ≤ 0.75 then trapezoid z + trapezoidResidue z
  else midpoint z + midpointResidue z

/-- `w` on the upper half plane, by reflection in the imaginary axis. -/
def w (z : Complex) : Complex :=
  if isNegative z.re then conj (firstQuadrant ⟨-z.re, z.im⟩) else firstQuadrant z

end Faddeeva

open Faddeeva

/-- `exp (z ^ 2) * erfc z` on the right half plane. -/
def scaledErfcPlus (z : Complex) : Complex :=
  if z.im == 0.0 then ⟨(w ⟨0.0, z.re⟩).re, -z.im⟩ else w ⟨-z.im, z.re⟩

/-- The error function on the right half plane. -/
def errorFunctionPlus (z : Complex) : Complex :=
  let x := z.re
  let y := z.im
  if x == 0.0 then
    ⟨x, if y * y > 720.0 then withSign infinity y else Float.exp (y * y) * (w ⟨y, 0.0⟩).im⟩
  else
    let size := (y - x) * (x + y)
    let angle := -2.0 * x * y
    if size < -750.0 then ⟨1.0, 0.0⟩
    else
      let v := (⟨Float.cos angle, Float.sin angle⟩ : Complex) * w ⟨-y, x⟩
      let e := Float.exp size
      ⟨1.0 - e * v.re, -(e * v.im)⟩

/-- The error function, odd. -/
def errorFunction (z : Complex) : Complex :=
  if z.re < 0.0 then -errorFunctionPlus (-z) else errorFunctionPlus z

end LatticeGreen.Double

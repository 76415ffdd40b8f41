import LatticeGreen.Cartesian

/-!
# Elementary functions of machine numbers

The scalars the program runs on. Moduli and roots neither overflow nor underflow early, and the
exponential of a number with infinite or undefined parts follows the rules of the standard for
complex arithmetic.
-/
namespace LatticeGreen

instance natCastFloat : NatCast Float := ⟨Float.ofNat⟩
instance intCastFloat : IntCast Float := ⟨Float.ofInt⟩
instance powFloat : Pow Float Nat := ⟨fun x n => Float.pow x n.toFloat⟩

namespace Double

def nan : Float := 0.0 / 0.0
def infinity : Float := 1.0 / 0.0

/-- The sign bit is set. -/
def isNegative (x : Float) : Bool := x.toBits >>> 63 == 1

/-- The first argument with the sign of the second. -/
def withSign (x y : Float) : Float := if isNegative x == isNegative y then x else -x

instance : RealFunctions Float where
  sqrt := Float.sqrt
  abs := Float.abs
  maximum x y := if x.isNaN then x else if y.isNaN then y else if x < y then y else x
  isFinite := Float.isFinite
  pi := 3.141592653589793
  eulerGamma := 0.5772156649015329

/-- `sqrt (x ^ 2 + y ^ 2)` for `0 ≤ y ≤ x` of moderate size: the rounded root, corrected by the
residual of its square. -/
def hypotenuse (x y : Float) : Float :=
  let h := Float.sqrt (x * x + y * y)
  if h == 0.0 then h
  else if h ≤ 2.0 * y then
    let delta := h - y
    let t1 := x * (2.0 * delta - x)
    let t2 := (delta - 2.0 * (x - y)) * delta
    h - (t1 + t2) / (2.0 * h)
  else
    let delta := h - x
    let t1 := 2.0 * delta * (x - 2.0 * y)
    let t2 := (4.0 * delta - y) * y + delta * delta
    h - (t1 + t2) / (2.0 * h)

/-- Two to the power 600. -/
def huge : Float := 4.149515568880993e180

/-- Two to the power -600. -/
def tiny : Float := 2.409919865102884e-181

/-- The length of a pair, infinite as soon as one part is. A huge or tiny pair is moved by a power
of two into the range where squares are safe. -/
def hypot (a b : Float) : Float :=
  let a := a.abs
  let b := b.abs
  let x := if a < b then b else a
  let y := if a < b then a else b
  -- The bounds are two to the powers -54, 511 and -459.
  if a == infinity || b == infinity then infinity
  else if a.isNaN || b.isNaN then nan
  else if y ≤ x * 5.551115123125783e-17 then x + y
  else if x > 6.703903964971299e153 then hypotenuse (x * tiny) (y * tiny) * huge
  else if y < 6.717876107567089e-139 then hypotenuse (x * huge) (y * huge) * tiny
  else hypotenuse x y

/-- Sine and cosine scaled by the exponential of a real that may exceed the largest exponent. -/
def scaledUnit (x s c : Float) : Cartesian Float :=
  if x > 709.0 then
    let e := Float.exp 709.0
    let x1 := x - 709.0
    if x1 > 709.0 then
      let x2 := x1 - 709.0
      let big := if x2 > 709.0 then 1.7976931348623157e308 else Float.exp x2
      ⟨big * (e * (e * c)), big * (e * (e * s))⟩
    else ⟨Float.exp x1 * (e * c), Float.exp x1 * (e * s)⟩
  else
    let e := Float.exp x
    ⟨e * c, e * s⟩

def exp (z : Cartesian Float) : Cartesian Float :=
  let x := z.re
  let y := z.im
  let s := if y.abs ≤ 2.2250738585072014e-308 then y else Float.sin y
  let c := if y.abs ≤ 2.2250738585072014e-308 then 1.0 else Float.cos y
  if x.isFinite && y.isFinite then scaledUnit x s c
  else if x.isNaN then ⟨nan, if y == 0.0 then y else nan⟩
  else if x.isFinite then ⟨nan, nan⟩
  else if y.isFinite then
    let size := if x > 0.0 then infinity else 0.0
    if y == 0.0 then ⟨size, y⟩ else ⟨withSign size c, withSign size s⟩
  else if x > 0.0 then ⟨infinity, nan⟩
  else ⟨0.0, withSign 0.0 y⟩

def log (z : Cartesian Float) : Cartesian Float :=
  ⟨Float.log (hypot z.re z.im), Float.atan2 z.im z.re⟩

/-- The principal root; the sign of a zero imaginary part selects the side of the cut. -/
def root (z : Cartesian Float) : Cartesian Float :=
  let x := z.re
  let y := z.im
  if y.abs == infinity then ⟨infinity, y⟩
  else if x.isNaN then ⟨nan, nan⟩
  else if x == infinity then ⟨infinity, if y.isNaN then nan else withSign 0.0 y⟩
  else if x == -infinity then
    ⟨if y.isNaN then nan else 0.0, if y.isNaN then nan else withSign infinity y⟩
  else if y.isNaN then ⟨nan, nan⟩
  else if y == 0.0 then
    if x < 0.0 then ⟨0.0, withSign (Float.sqrt (-x)) y⟩ else ⟨Float.sqrt x, withSign 0.0 y⟩
  else if x == 0.0 then
    let r := Float.sqrt (0.5 * y.abs)
    ⟨r, withSign r y⟩
  else
    let up := if x.abs > 1e300 || y.abs > 1e300 then 0.0625
      else if x.abs < 1e-290 && y.abs < 1e-290 then 1.152921504606847e18 else 1.0
    let x := x * up
    let y := y * up
    let d := hypot x y
    let rescale := 1.0 / Float.sqrt up
    if x > 0.0 then
      let r := Float.sqrt (0.5 * (d + x))
      ⟨r * rescale, 0.5 * (y / r) * rescale⟩
    else
      let s := Float.sqrt (0.5 * (d - x))
      ⟨(0.5 * (y / s)).abs * rescale, withSign s y * rescale⟩

instance : ComplexFunctions Float (Cartesian Float) where
  ofParts := Cartesian.mk
  ofReal x := ⟨x, 0.0⟩
  re := Cartesian.re
  im := Cartesian.im
  modulus z := hypot z.re z.im
  argument z := Float.atan2 z.im z.re
  cexp := exp
  clog := log
  csqrt := root

end Double

end LatticeGreen

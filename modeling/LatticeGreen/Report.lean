import LatticeGreen.Double.Digits
import LatticeGreen.Double.ErrorFunction
import LatticeGreen.Slots

/-!
# Reported numbers

Results are reported to a number of significant digits. Beside larger numbers of the same kind the
digits that rounding noise has reached are dropped: nothing finer than two digits below those of
the scale is kept.
-/
namespace LatticeGreen.Report

open Double

/-- A number to print: a decimal, or the name of a value that has no digits. -/
inductive Figure where
  | decimal (d : Decimal)
  | named (name : String)
  deriving DecidableEq, Repr

/-- Digits of a result unless asked for otherwise. -/
def defaultPrecision : Int := 9

/-- The largest size among the finite numbers; zero if there is none. -/
def scaleOf (xs : List Float) : Float :=
  xs.foldl (fun scale x => if x.isFinite && scale < x.abs then x.abs else scale) 0.0

/-- A number to the given precision beside a scale. A scale of zero counts as none. -/
def figure (precision : Int) (scale x : Float) : Figure :=
  if !x.isFinite then .named (Double.text x)
  else
    let value := exact x
    if value.digits = 0 then .decimal ⟨false, 0, 0⟩
    else
      let scale := if scale == 0.0 then none else some (exact scale)
      let d := value.roundTo (value.lastPlace precision scale)
      .decimal (if d.digits = 0 then ⟨false, 0, 0⟩ else d)

/-- The parts of a complex number beside a scale; `none` if one of them is infinite or undefined. -/
def complexFigures (precision : Int) (scale : Float) (z : Double.Complex) :
    Option (Figure × Figure) :=
  if z.re.isFinite && z.im.isFinite then
    some (figure precision scale z.re, figure precision scale z.im)
  else none

/-- The scale of each slot: that of all slots up to its own order of derivative. -/
def slotScales (s : Slots Double.Complex) : Slots Float :=
  let upTo n := scaleOf ((s.toList.take n).flatMap fun z => [z.re, z.im])
  let value := upTo 1
  let first := upTo 4
  let second := upTo 7
  ⟨value, first, first, first, second, second, second, upTo 8⟩

end LatticeGreen.Report

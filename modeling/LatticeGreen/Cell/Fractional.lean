import LatticeGreen.Cell
import LatticeGreen.Coordinates
import LatticeGreen.Double.Elementary
import LatticeGreen.Failure

/-!
# Shells at distances that are no integers

On a line such a distance is cut to the integer before it. In the plane the shell is walked in unit
steps along the four sides of a square, each from one of its corners.
-/
namespace LatticeGreen.Cell

/-- Indices of cells lie within these bounds on both sides. -/
def indexBound : Int := 0x8000000000000000

/-- An integer that can be the index of a cell. -/
def asIndex (n : Int) : Except (Failure Float) Int :=
  if -indexBound ≤ n && n < indexBound then .ok n else .error .tooLarge

/-- A real cut to the integer before it, seen from zero. -/
def truncated (x : Float) : Except (Failure Float) Int :=
  if x.isNaN then .error .undefinedInteger
  else if x.abs < 9223372036854775808.0 then .ok x.toInt64.toInt
  else .error .tooLarge

/-- The two cells of a line at a distance. -/
def linePair : Quantity Float → Except (Failure Float) (List Cell)
  | .real x => do return [⟨← truncated x, 0⟩, ⟨← truncated (-x), 0⟩]
  | .integer n => do return [⟨← asIndex n, 0⟩, ⟨← asIndex (-n), 0⟩]
  | .flag b => .ok (shell 1 (if b then 1 else 0))

/-- The numbers from `-x` in unit steps up to but not including `x`. -/
def unitSteps (x : Float) : List Float :=
  (List.range (Float.ceil (x - -x)).toUInt64.toNat).map fun i => -x + i.toFloat

/-- The points at unit steps on the border of a square around the origin, of which `x` is half a
side. -/
def border (x : Float) : Except (Failure Float) (List (Vec2 Float)) :=
  if x.isFinite then
    let side := unitSteps x
    .ok (side.map (⟨·, x⟩) ++ side.map (⟨x, -·⟩) ++ side.map (⟨-·, -x⟩) ++ side.map (⟨-x, ·⟩))
  else .error .undefinedInteger

end LatticeGreen.Cell

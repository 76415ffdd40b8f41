import LatticeGreen.Calculation

/-!
# Sweeps of the splitting parameter

The Green's function does not depend on the splitting parameter. A sweep evaluates it with several
parameters around the one that suits the first point, and measures how far the values are from
those at that one.
-/
namespace LatticeGreen

/-- The outcome of a sweep: the parameters, the values at the one closest to the best, and for each
parameter the greatest deviation from these, relative to the greatest of them. -/
structure Sweep where
  splittings : List Float
  reference : List (Slots Double.Complex)
  deviations : List Float
  image : String

namespace Sweep

/-- The parameters of a sweep, relative to the best one. -/
def factors : List Float := (List.range 12).map fun i => 0.25 * (i.toFloat + 1.0)

/-- The position of the least number, the first if there are several. Among undefined numbers it is
the first of them. -/
def leastPosition : List Float → Nat
  | [] => 0
  | x :: xs =>
    let step (best : Float × Nat) (entry : Float × Nat) : Float × Nat :=
      if entry.1 < best.1 || (entry.1.isNaN && !best.1.isNaN) then entry else best
    ((xs.zipIdx 1).foldl step (x, 0)).2

/-- The greatest modulus in all slots. -/
def greatestModulus (rows : List (Slots Double.Complex)) : Float :=
  (rows.flatMap fun s => s.toList.map modulus).foldl maximum 0.0

/-- The greatest deviation of values from others, relative to the greatest of these. -/
def deviation (reference values : List (Slots Double.Complex)) : Float :=
  greatestModulus (List.zipWith (· - ·) values reference) / greatestModulus reference

/-- The splitting parameter that suits the first point. -/
def bestSplitting (c : Calculation) : Except (Failure Float) Float :=
  if h : 0 < c.points.rows then do
    let reciprocal ← Reciprocal.constructAt c.lattice.basis.toArray c.parameters.wavenumber
      (c.points.rowArray 0 h)
    return reciprocal.optimalSplitting
  else .error .missingComponent

/-- Sweeps the splitting parameter of a calculation. -/
def ofCalculation (c : Calculation) (image : String) : Attempt Float Sweep := do
  let best ← Attempt.ofExcept (bestSplitting c)
  let splittings := factors.map (· * best)
  let values ← splittings.mapM fun splitting => do
    c.valuesOf (← Attempt.ofExcept (c.greenWith splitting))
  let reference := values.getD (leastPosition (splittings.map fun eta => (eta - best).abs)) []
  let deviations := values.map (deviation reference)
  for _ in deviations do
    Attempt.note .deviationMeasured
  return ⟨splittings, reference, deviations, image⟩

/-- The document of a sweep unless another is named. -/
def standardPath : String := "inputs/square_lattice.toml"

/-- The directory of the images of sweeps. -/
def imageDirectory : String := "results"

/-- The level of the records that a sweep leaves. -/
def logLevel : Level := .notice

/-- Sweeps the splitting parameter of the calculation in a document. -/
def ofFile (files : Files) (path : Option String) : Attempt Float Sweep := do
  let path := Path.normalise (path.getD standardPath)
  let c ← Attempt.ofExcept (Calculation.ofFile files path)
  ofCalculation c (imageDirectory ++ "/" ++ Path.stem path ++ "_independence.png")

/-- A line for each splitting parameter. -/
def table (sweep : Sweep) : List String :=
  List.zipWith
    (fun eta d => "E = " ++ Double.text eta ++ ": maximum relative deviation " ++ Double.text d)
    sweep.splittings sweep.deviations

end Sweep

end LatticeGreen

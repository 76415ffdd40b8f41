import LatticeGreen.Broadcast
import LatticeGreen.Distant

/-!
# Distant sums of unchecked inputs

The point and the Bloch vector of a distant sum may come as arrays of any shape. They are taken as
far as they fit together, and refused where they do not.
-/
namespace LatticeGreen

/-- What a reciprocal sum at a point depends on, before its arrays have been checked. -/
structure Distant.Unchecked (R C : Type) where
  periodicity : Periodicity
  point : RealArray R
  wavenumber : C
  bloch : RealArray R
  reciprocal : Reciprocal R
  splitting : R

namespace Distant.Unchecked
variable {R C : Type}
variable [Add R] [Sub R] [Mul R] [Div R] [Neg R] [OfScientific R] [IntCast R] [NatCast R]
variable [Pow R Nat] [BEq R] [LT R] [DecidableLT R] [LE R] [DecidableLE R] [RealFunctions R]
variable [Add C] [Sub C] [Mul C] [Div C] [Neg C] [BEq C] [ComplexFunctions R C]

/-! ## Planes -/

/-- `P - G` for the reciprocal vectors `G` of some orders. -/
def shifted (sum : Unchecked R C) (cells : List Cell) : Except (Failure R) (RealArray R) :=
  let vectors := (cells.map sum.reciprocal.vector).flatMap fun g => [g.x, g.y]
  ((RealArray.ofEntries? [cells.length, 2] vectors).bind
    (sum.bloch.zipWith? (· - ·))).elim (.error .shapeMismatch) .ok

/-- Consecutive entries as vectors. -/
def pairs : List R → List (Vec2 R)
  | x :: y :: rest => ⟨x, y⟩ :: pairs rest
  | _ => []

/-- The failure of arrays of orders or points with too many axes. The terms of all orders, with
`orders` the extents of the orders, would be arrays with the extents of the phases and those of the
profiles together, which each component of an order must fit into. -/
def planeFailure (orders : List Nat) (n : Nat) (axes : List Nat) : Failure R :=
  let phases := (Extents.product? (orders ++ [2]) (min n 2 :: axes)).bind (Extents.join? · orders)
  match phases with
  | none => .shapeMismatch
  | some phases =>
    if n < 3 then .missingComponent
    else
      let terms := (Extents.join? orders axes).bind (Extents.join? phases)
      if terms.isSome && terms.bind (Extents.join? orders.reverse) == terms then .arrayTerms
      else .shapeMismatch

/-- The contribution of a list of orders of a plane. -/
def planeShell [SpecialFunctions C] (sum : Unchecked R C) (cells : List Cell) :
    Except (Failure R) (Contribution C) := do
  let shifted ← sum.shifted cells
  let ps := pairs shifted.entries
  if PlaneOrder.anySingular sum.wavenumber ps then return ⟨Slots.zero, true⟩
  match shifted.shape, sum.point.shape, sum.point.entries with
  | _, [], _ => throw .missingComponent
  | [_, _], [_], x :: y :: z :: _ =>
    return PlaneOrder.shell sum.wavenumber sum.splitting ⟨x, y, z⟩ ps
  | shape, n :: axes, _ => throw (planeFailure shape.dropLast n axes)

/-! ## Lines -/

/-- The places along the line that a point has, and its two components across. -/
structure LinePoint (R : Type) where
  along : List R
  across : Option (R × R)

/-- A point of three components; these may be arrays. -/
def linePoint (sum : Unchecked R C) : Except (Failure R) (LinePoint R) :=
  match sum.point.shape, sum.point.entries with
  | [], _ => .error .wrongType
  | [3], [x, y, z] => .ok ⟨[x], some (y, z)⟩
  | [3, n], entries => .ok ⟨entries.take n, none⟩
  | 3 :: _, _ => .ok ⟨[], none⟩
  | _, _ => .error .shapeMismatch

/-- The term of an order. A point with arrays for components has a place across the line only if it
lies on it, and eight places along it are one for each slot. -/
def lineTerm [SpecialFunctions C] (sum : Unchecked R C) (point : LinePoint R) (kx : R) :
    Attempt R (Slots C) := do
  let rho := sum.reciprocal.rho
  let g ← LineTransform.longRange (LineOrder.transverse sum.wavenumber kx) rho sum.splitting
  match point.across, Slots.ofList? (point.along.map fun x => (LineOrder.phase kx x : C)) with
  | some (y, z), some phases => return terms phases (LineOrder.slots kx rho y z g)
  | none, some phases =>
    if rho == 0.0 then return terms phases (LineOrder.slots kx rho 0.0 0.0 g)
    else Attempt.fail .shapeMismatch
  | _, none => Attempt.fail .shapeMismatch
where
  terms (phases slots : Slots C) : Slots C :=
    phases.zipWith (fun phase s => finiteOrZero (phase * s)) slots

/-- An order of a Bloch vector whose first component is an array: unless it grazes the line, its
transform is refused. -/
def arrayOrder (sum : Unchecked R C) (cell : Cell) : Attempt R (Contribution C) :=
  let shift := (cell.n1 : R) * sum.reciprocal.gamma1.x
  let first := sum.bloch.entries.take sum.bloch.stride
  if first.any fun p => LineOrder.isSingular sum.wavenumber (p - shift) then
    pure ⟨Slots.zero, true⟩
  else if LineTransform.crossover < sum.reciprocal.rho * sum.splitting then
    Attempt.fail .shapeMismatch
  else if sum.splitting * sum.splitting == 0.0 then Attempt.fail .divisionByZero
  else Attempt.fail .wrongType

/-- The contribution of a list of orders of a line. -/
def lineShell [SpecialFunctions C] (sum : Unchecked R C) (cells : List Cell) :
    Attempt R (Contribution C) := do
  let point ← Attempt.ofExcept sum.linePoint
  match cells, sum.bloch.shape, sum.bloch.entries with
  | [], _, _ => return ⟨Slots.zero, false⟩
  | cells, [_], p :: _ =>
    LineOrder.shell sum.wavenumber (sum.lineTerm point)
      (cells.map fun c => p - (c.n1 : R) * sum.reciprocal.gamma1.x) Slots.zero
  | c :: _, (_ + 1) :: _ :: _, _ => sum.arrayOrder c
  | _, _, _ => Attempt.fail .missingComponent

/-! ## Sums -/

/-- The contribution of a list of orders. -/
def shell [SpecialFunctions C] (sum : Unchecked R C) (cells : List Cell) :
    Attempt R (Contribution C) :=
  match sum.periodicity with
  | .unspecified => Attempt.fail .noTerms
  | .line => sum.lineShell cells
  | .plane => Attempt.ofExcept (sum.planeShell cells)

/-- The sum over the reciprocal lattice. Terms that are arrays do not fit into it. -/
def construct [SpecialFunctions C] (sum : Unchecked R C) (c : Convergence R)
    (obstacles : Obstacles R := {}) : Attempt R (LatticeSum C) := do
  if sum.splitting == 0.0 then return LatticeSum.empty
  else
    let result ← accumulate (fun cells => (sum.shell cells).summand)
      sum.periodicity.dimension c description false obstacles
    let factor ← Attempt.ofExcept (sum.periodicity.prefactor sum.reciprocal)
    return { result with values := result.values.scale (ofReal factor) }

end Distant.Unchecked

end LatticeGreen

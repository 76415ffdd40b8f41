import LatticeGreen.Cell
import LatticeGreen.Failure
import LatticeGreen.Slots

/-!
# Shell-by-shell summation

A lattice series is summed over a first block of cells and then shell by shell, until several
shells in a row change the running sums by little, a singular term appears or the cap on shells is
reached. The stopping rule sees magnitudes only.
-/
namespace LatticeGreen

/-- When a lattice sum may stop. Slots below `slotFloor` times the largest slot are left out of
the relative test. -/
structure Convergence (R : Type) where
  absoluteTolerance : R
  relativeTolerance : R
  slotFloor : R
  firstRound : Int
  maxShells : Int
  convergedRounds : Int
  deriving Repr

/-- The settings that a sum cannot read, each with the failure of the sum that needs it. -/
structure Obstacles (R : Type) where
  firstRound : Option (Failure R) := none
  convergedRounds : Option (Failure R) := none
  maxShells : Option (Failure R) := none
  slotFloor : Option (Failure R) := none
  absoluteTolerance : Option (Failure R) := none
  relativeTolerance : Option (Failure R) := none
  /-- The failure of the relative test when no slot is significant. -/
  relativeAtZero : Option (Failure R) := none
  deriving Repr

/-- Fails for an obstacle. -/
def Obstacles.pass {R : Type} (obstacle : Option (Failure R)) : Except (Failure R) Unit :=
  obstacle.elim (.ok ()) .error

/-- Running sums. `lastValues` are the sums before the latest shell. -/
structure SumState (R C : Type) where
  values : Slots C
  lastValues : Slots C
  convergedRounds : Int
  cellCount : Int
  shellCount : Int
  /-- The latest relative change; there is none before the first shell. -/
  maxRelativeDelta : Option R

/-- The result of a lattice sum. -/
structure LatticeSum (C : Type) where
  values : Slots C
  cellCount : Int
  shellCount : Int
  converged : Bool
  singular : Bool

/-- What a series contributes over a list of cells. A singular contribution ends the sum. -/
structure Contribution (C : Type) where
  slots : Slots C
  singular : Bool

/-- The sum over no cells, with nothing left to add. -/
def LatticeSum.empty {R C : Type} [OfScientific R] [ComplexFunctions R C] : LatticeSum C :=
  ⟨Slots.zero, 0, 0, true, false⟩

section
variable {R C : Type}

/-- The largest entry. -/
def largest [RealFunctions R] (x : R) (xs : List R) : R := xs.foldl maximum x

/-- The largest slot. -/
def Slots.largest [RealFunctions R] (s : Slots R) : R :=
  LatticeGreen.largest s.value s.toList.tail

/-- The number of shells that may follow the first block. -/
def Convergence.shellBudget (c : Convergence R) : Nat := (c.maxShells - c.firstRound).toNat

namespace SumState

/-- Sums before the first block. -/
def initial [OfScientific R] [ComplexFunctions R C] : SumState R C :=
  ⟨Slots.zero, Slots.zero, 0, 0, 0, none⟩

def add [Add C] (s : SumState R C) (contribution : Slots C) (cells : Int) : SumState R C :=
  { s with values := s.values + contribution, cellCount := s.cellCount + cells }

def snapshot (s : SumState R C) : SumState R C := { s with lastValues := s.values }

def converged (s : SumState R C) (c : Convergence R) : Bool :=
  decide (c.convergedRounds ≤ s.convergedRounds)

variable [OfScientific R] [Mul R] [Div R] [LT R] [DecidableLT R] [RealFunctions R]
variable [Sub C] [ComplexFunctions R C]

/-- The magnitudes of the changes of the slots since the last snapshot. -/
def deltas (s : SumState R C) : Slots R := (s.values - s.lastValues).map modulus

def magnitudes (s : SumState R C) : Slots R := s.values.map modulus

/-- The relative changes of the significant slots. -/
def relativeDeltas (s : SumState R C) (slotFloor : R) : List R :=
  let magnitudes := s.magnitudes
  let floor := slotFloor * magnitudes.largest
  (s.deltas.toList.zip magnitudes.toList).filterMap fun (delta, magnitude) =>
    if floor < magnitude then some (delta / magnitude) else none

/-- The largest relative change; zero when no slot is significant. -/
def relativeChange (s : SumState R C) (slotFloor : R) : R :=
  match s.relativeDeltas slotFloor with
  | [] => 0.0
  | x :: xs => LatticeGreen.largest x xs

/-- The latest shell changed the sums by less than one of the two tolerances. -/
def passes (s : SumState R C) (c : Convergence R) : Bool :=
  decide (s.deltas.largest < c.absoluteTolerance) ||
    decide (s.relativeChange c.slotFloor < c.relativeTolerance)

/-- Closes a shell: counts it, extends or breaks the run of passing shells and takes a snapshot. -/
def update (s : SumState R C) (c : Convergence R) : SumState R C :=
  snapshot { s with
    convergedRounds := if s.passes c then s.convergedRounds + 1 else 0
    shellCount := s.shellCount + 1
    maxRelativeDelta := some (s.relativeChange c.slotFloor) }

/-- The obstacles on the way of closing a shell. The relative test is not made once the absolute one
has passed. -/
def passObstacles (s : SumState R C) (c : Convergence R) (obstacles : Obstacles R) :
    Except (Failure R) Unit := do
  Obstacles.pass obstacles.slotFloor
  Obstacles.pass obstacles.absoluteTolerance
  if !decide (s.deltas.largest < c.absoluteTolerance) then
    Obstacles.pass (if (s.relativeDeltas c.slotFloor).isEmpty then obstacles.relativeAtZero
      else obstacles.relativeTolerance)

/-- Closes a shell unless an obstacle is on the way. -/
def updateOrObstacle (s : SumState R C) (c : Convergence R) (obstacles : Obstacles R) :
    Except (Failure R) (SumState R C) := do
  s.passObstacles c obstacles
  return s.update c

/-- Whether the sums have converged, unless the number of rounds cannot be read. -/
def convergedOrObstacle (s : SumState R C) (c : Convergence R) (obstacles : Obstacles R) :
    Except (Failure R) Bool := do
  Obstacles.pass obstacles.convergedRounds
  return s.converged c

end SumState

variable {m : Type → Type} [Monad m]
variable [OfScientific R] [Mul R] [Div R] [LT R] [DecidableLT R] [RealFunctions R]
variable [Add C] [Sub C] [ComplexFunctions R C]

/-- Sums up to `budget` more shells from shell `n` on. A shell is closed after `ready` has let its
sums pass. The second component is set when a singular term ended the sum. -/
def sumShells (series : List Cell → m (Contribution C)) (dimension : Int) (c : Convergence R)
    (ready : SumState R C → m Unit) :
    (budget : Nat) → (n : Int) → SumState R C → m (SumState R C × Bool)
  | 0, _, s => pure (s, false)
  | budget + 1, n, s =>
    if s.converged c then pure (s, false)
    else do
      let cells := Cell.shell dimension n
      let contribution ← series cells
      if contribution.singular then pure (s, true)
      else
        let s := s.add contribution.slots cells.length
        ready s
        sumShells series dimension c ready budget (n + 1) (s.update c)

/-- The cells of the first block, without the innermost ones if they are left out. -/
def firstBlock (dimension : Int) (c : Convergence R) (excludeInner : Bool) : List Cell :=
  let cells := Cell.block dimension c.firstRound
  if excludeInner then Cell.outer cells else cells

/-- Sums the first block and then the shells. An empty first block is passed over. -/
def sumLattice (series : List Cell → m (Contribution C)) (dimension : Int) (c : Convergence R)
    (excludeInner : Bool) (begins ready : SumState R C → m Unit) :
    m (SumState R C × Bool) := do
  let cells := firstBlock dimension c excludeInner
  let rest (s : SumState R C) := do
    begins s
    sumShells series dimension c ready c.shellBudget (c.firstRound + 1) s.snapshot
  if cells.isEmpty then rest SumState.initial
  else do
    let contribution ← series cells
    if contribution.singular then pure (SumState.initial, true)
    else rest (SumState.initial.add contribution.slots cells.length)

/-- The lattice sum a finished run stands for. -/
def SumState.result (s : SumState R C) (c : Convergence R) (singular : Bool) : LatticeSum C :=
  ⟨s.values, s.cellCount, s.shellCount, !singular && s.converged c, singular⟩

/-- The event of a run that ended at the cap on shells. -/
def SumState.shortfall (s : SumState R C) (description : String) : Event R :=
  .sumNotConverged description s.shellCount s.cellCount

/-- The obstacles on the way from the first block to the shells. The cap on shells is not looked at
when no shell is wanted. -/
def SumState.passLimits (s : SumState R C) (c : Convergence R) (obstacles : Obstacles R) :
    Except (Failure R) Unit := do
  Obstacles.pass obstacles.convergedRounds
  if !s.converged c then Obstacles.pass obstacles.maxShells

/-- Sums a lattice series until it converges. Reaching the cap is noted and leaves the estimate. The
series may do more than an attempt does, such as keep what it is asked for. -/
def accumulate [MonadLiftT (Attempt R) m] (series : List Cell → m (Contribution C))
    (dimension : Int) (c : Convergence R) (description : String) (excludeInner : Bool)
    (obstacles : Obstacles R := {}) : m (LatticeSum C) := do
  Attempt.ofExcept (Obstacles.pass obstacles.firstRound)
  if excludeInner && decide (c.firstRound < 0) then
    (Attempt.fail .emptyBlock : Attempt R Unit)
  let (s, singular) ← sumLattice series dimension c excludeInner
    (fun s => (Attempt.ofExcept (s.passLimits c obstacles) : Attempt R Unit))
    (fun s => (Attempt.ofExcept (s.passObstacles c obstacles) : Attempt R Unit))
  let result := s.result c singular
  if !singular && !result.converged then
    (Attempt.note (s.shortfall description) : Attempt R Unit)
  return result

end

namespace SumState

@[simp] theorem passLimits_none {R C : Type} (s : SumState R C) (c : Convergence R) :
    s.passLimits c {} = .ok () := by
  simp only [passLimits, Obstacles.pass, Option.elim_none]
  split <;> rfl

@[simp] theorem passObstacles_none {R C : Type} [Mul R] [Div R] [LT R] [DecidableLT R]
    [RealFunctions R] [Sub C] [ComplexFunctions R C] (s : SumState R C) (c : Convergence R) :
    s.passObstacles c {} = .ok () := by
  simp only [passObstacles, Obstacles.pass, ite_self, Option.elim_none]
  split <;> rfl

end SumState

end LatticeGreen

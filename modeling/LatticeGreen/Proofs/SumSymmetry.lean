import LatticeGreen.Distant
import LatticeGreen.Proofs.ExactScalars
import LatticeGreen.Proofs.NearbyRows
import Mathlib

/-!
# Symmetries of a lattice sum

The stopping rule of a lattice sum sees magnitudes only. A map of the slots that respects addition
and keeps all magnitudes, or in some other way both tests of the rule, therefore passes through a
sum: where it is applied to the answers of the series, it is applied to the values of the result.
The counts, the verdict, what is noted and the failures stay as they are.
-/
namespace LatticeGreen

section
variable {R C : Type}

/-- A map of slots that respects addition and real factors and keeps the magnitude of every slot. -/
structure Slots.Symmetry [OfScientific R] [ComplexFunctions R C] [Add C] [Sub C] [Mul C]
    (f : Slots C → Slots C) : Prop where
  zero : f Slots.zero = Slots.zero
  add : ∀ s t, f (s + t) = f s + f t
  sub : ∀ s t, f (s - t) = f s - f t
  scale : ∀ s (x : R), f (s.scale (ofReal x)) = (f s).scale (ofReal x)
  modulus : ∀ s, (f s).map modulus = s.map modulus

/-- The contribution with its slots mapped. -/
def Contribution.mapSlots (f : Slots C → Slots C) (x : Contribution C) : Contribution C :=
  { x with slots := f x.slots }

/-- The result with its values mapped. -/
def LatticeSum.mapValues (f : Slots C → Slots C) (result : LatticeSum C) : LatticeSum C :=
  { result with values := f result.values }

/-- The running sums mapped, those before the latest shell too. -/
def SumState.mapSlots (f : Slots C → Slots C) (s : SumState R C) : SumState R C :=
  { s with values := f s.values, lastValues := f s.lastValues }

theorem LatticeSum.mapValues_empty [OfScientific R] [ComplexFunctions R C] [Add C] [Sub C]
    [Mul C] {f : Slots C → Slots C} (symmetry : Slots.Symmetry f) :
    (LatticeSum.empty : LatticeSum C).mapValues f = LatticeSum.empty := by
  unfold LatticeSum.empty LatticeSum.mapValues
  rw [symmetry.zero]

/-- A sum of mapped rows is the mapped sum. -/
theorem Slots.Symmetry.sum_map [OfScientific R] [ComplexFunctions R C] [Add C] [Sub C]
    [Mul C] {f : Slots C → Slots C} (symmetry : Slots.Symmetry f) (rows : List (Slots C)) :
    Slots.sum (rows.map f) = f (Slots.sum rows) := by
  have folded : ∀ total, (rows.map f).foldl (· + ·) (f total) = f (rows.foldl (· + ·) total) := by
    induction rows with
    | nil => exact fun total => rfl
    | cons row rows ih =>
      intro total
      rw [List.map_cons, List.foldl_cons, List.foldl_cons, ← symmetry.add, ih]
  have summed := folded Slots.zero
  rw [symmetry.zero] at summed
  exact summed

namespace SumState
variable [OfScientific R] [ComplexFunctions R C] [Add C] [Sub C] [Mul C] {f : Slots C → Slots C}

omit [Add C] [Sub C] [Mul C] in
theorem mapSlots_initial (zero : f Slots.zero = Slots.zero) :
    (initial : SumState R C).mapSlots f = initial := by
  unfold initial mapSlots
  rw [zero]

omit [OfScientific R] [ComplexFunctions R C] [Sub C] [Mul C] in
theorem add_mapSlots (add : ∀ s t, f (s + t) = f s + f t) (s : SumState R C)
    (contribution : Slots C) (cells : Int) :
    (s.mapSlots f).add (f contribution) cells = (s.add contribution cells).mapSlots f := by
  unfold SumState.add mapSlots
  rw [add]

omit [OfScientific R] [ComplexFunctions R C] [Add C] [Sub C] [Mul C] in
theorem passLimits_mapSlots (s : SumState R C) (c : Convergence R) (obstacles : Obstacles R) :
    (s.mapSlots f).passLimits c obstacles = s.passLimits c obstacles := rfl

theorem deltas_mapSlots (symmetry : Slots.Symmetry f) (s : SumState R C) :
    (s.mapSlots f).deltas = s.deltas := by
  unfold deltas mapSlots
  rw [← symmetry.sub, symmetry.modulus]

variable [Mul R] [Div R] [LT R] [DecidableLT R] [RealFunctions R]

theorem relativeDeltas_mapSlots (symmetry : Slots.Symmetry f) (s : SumState R C) (slotFloor : R) :
    (s.mapSlots f).relativeDeltas slotFloor = s.relativeDeltas slotFloor := by
  have magnitudes : (s.mapSlots f).magnitudes = s.magnitudes := symmetry.modulus s.values
  unfold relativeDeltas
  rw [magnitudes, deltas_mapSlots symmetry]

end SumState

/-- A map of slots that respects addition and that neither test of convergence sees. -/
structure Slots.Unseen [OfScientific R] [ComplexFunctions R C] [Add C] [Sub C] [Mul R] [Div R]
    [LT R] [DecidableLT R] [RealFunctions R] (c : Convergence R) (f : Slots C → Slots C) :
    Prop where
  zero : f Slots.zero = Slots.zero
  add : ∀ s t, f (s + t) = f s + f t
  absolute : ∀ s : SumState R C, (s.mapSlots f).deltas.largest < c.absoluteTolerance ↔
    s.deltas.largest < c.absoluteTolerance
  relative : ∀ s : SumState R C,
    (s.mapSlots f).relativeDeltas c.slotFloor = s.relativeDeltas c.slotFloor

/-- The two tests see magnitudes only. -/
theorem Slots.Symmetry.unseen [OfScientific R] [ComplexFunctions R C] [Add C] [Sub C] [Mul C]
    [Mul R] [Div R] [LT R] [DecidableLT R] [RealFunctions R] {f : Slots C → Slots C}
    (symmetry : Slots.Symmetry f) (c : Convergence R) : Slots.Unseen c f where
  zero := symmetry.zero
  add := symmetry.add
  absolute s := by rw [SumState.deltas_mapSlots symmetry]
  relative s := SumState.relativeDeltas_mapSlots symmetry s c.slotFloor

namespace SumState
variable [OfScientific R] [ComplexFunctions R C] [Add C] [Sub C] [Mul R] [Div R] [LT R]
variable [DecidableLT R] [RealFunctions R] {f : Slots C → Slots C} {c : Convergence R}
variable (unseen : Slots.Unseen c f) (s : SumState R C)
include unseen

theorem passes_mapSlots : (s.mapSlots f).passes c = s.passes c := by
  unfold passes relativeChange
  simp only [unseen.relative, unseen.absolute]

theorem passObstacles_mapSlots (obstacles : Obstacles R) :
    (s.mapSlots f).passObstacles c obstacles = s.passObstacles c obstacles := by
  unfold passObstacles
  simp only [unseen.relative, unseen.absolute]

theorem update_mapSlots : (s.mapSlots f).update c = (s.update c).mapSlots f := by
  unfold update relativeChange
  rw [passes_mapSlots unseen, unseen.relative]
  rfl

end SumState

/-! ## Sums -/

variable {m : Type → Type} [Monad m] [LawfulMonad m]
variable [OfScientific R] [Mul R] [Div R] [LT R] [DecidableLT R] [RealFunctions R]
variable [Add C] [Sub C] [ComplexFunctions R C] {f : Slots C → Slots C} {c : Convergence R}
variable {series series' : List Cell → m (Contribution C)} (unseen : Slots.Unseen c f)
variable (mapped : ∀ cells, series' cells = Contribution.mapSlots f <$> series cells)
variable (dimension : Int)
include unseen mapped

/-- Shell after shell the running sums of the mapped answers are the mapped running sums. -/
theorem sumShells_mapSlots (ready : SumState R C → m Unit)
    (blind : ∀ s, ready (s.mapSlots f) = ready s) (budget : Nat) :
    ∀ (n : Int) (s : SumState R C),
      sumShells series' dimension c ready budget n (s.mapSlots f) =
        Prod.map (SumState.mapSlots f) id <$> sumShells series dimension c ready budget n s := by
  induction budget with
  | zero =>
    intro n s
    simp only [sumShells, map_pure, Prod.map_apply, id_eq]
  | succ budget ih =>
    intro n s
    have verdict : (s.mapSlots f).converged c = s.converged c := rfl
    simp only [sumShells, verdict]
    split
    · simp only [map_pure, Prod.map_apply, id_eq]
    · rw [mapped, bind_map_left, map_bind]
      refine bind_congr fun contribution => ?_
      have flag : (contribution.mapSlots f).singular = contribution.singular := rfl
      have slots : (contribution.mapSlots f).slots = f contribution.slots := rfl
      rw [flag, slots]
      split
      · simp only [map_pure, Prod.map_apply, id_eq]
      · rw [SumState.add_mapSlots unseen.add, blind, SumState.update_mapSlots unseen, map_bind]
        exact bind_congr fun _ => ih _ _

theorem sumLattice_mapSlots (excludeInner : Bool) (begins ready : SumState R C → m Unit)
    (blind : ∀ s, begins (s.mapSlots f) = begins s) (blind' : ∀ s, ready (s.mapSlots f) = ready s) :
    sumLattice series' dimension c excludeInner begins ready =
      Prod.map (SumState.mapSlots f) id <$>
        sumLattice series dimension c excludeInner begins ready := by
  have rest : ∀ s : SumState R C, (do
      begins (s.mapSlots f)
      sumShells series' dimension c ready c.shellBudget (c.firstRound + 1)
        (s.mapSlots f).snapshot) = Prod.map (SumState.mapSlots f) id <$> (do
      begins s
      sumShells series dimension c ready c.shellBudget (c.firstRound + 1) s.snapshot) := by
    intro s
    rw [blind, map_bind]
    exact bind_congr fun _ =>
      sumShells_mapSlots unseen mapped dimension ready blind' _ _ s.snapshot
  have start := SumState.mapSlots_initial (R := R) unseen.zero
  unfold sumLattice
  dsimp only
  split
  · have begun := rest SumState.initial
    rw [start] at begun
    exact begun
  · rw [mapped, bind_map_left, map_bind]
    refine bind_congr fun contribution => ?_
    have flag : (contribution.mapSlots f).singular = contribution.singular := rfl
    have slots : (contribution.mapSlots f).slots = f contribution.slots := rfl
    rw [flag, slots]
    split
    · rw [map_pure, Prod.map_apply, start, id_eq]
    · rw [← rest, ← SumState.add_mapSlots unseen.add, start]

/-- What neither test of convergence sees passes through a lattice sum. -/
theorem accumulate_mapSlots [MonadLiftT (Attempt R) m] (description : String)
    (excludeInner : Bool) (obstacles : Obstacles R) :
    accumulate series' dimension c description excludeInner obstacles =
      LatticeSum.mapValues f <$>
        accumulate series dimension c description excludeInner obstacles := by
  have whole := sumLattice_mapSlots unseen mapped dimension excludeInner
    (fun s => (Attempt.ofExcept (s.passLimits c obstacles) : Attempt R Unit))
    (fun s => (Attempt.ofExcept (s.passObstacles c obstacles) : Attempt R Unit))
    (fun s => by rw [SumState.passLimits_mapSlots])
    (fun s => by rw [SumState.passObstacles_mapSlots unseen])
  -- What is noted at the end names the counts, not the values.
  have closing : ∀ (s : SumState R C) (singular : Bool),
      (do
        let result := (s.mapSlots f).result c singular
        if !singular && !result.converged then
          (Attempt.note ((s.mapSlots f).shortfall description) : Attempt R Unit)
        return result : m (LatticeSum C)) = LatticeSum.mapValues f <$> (do
          let result := s.result c singular
          if !singular && !result.converged then
            (Attempt.note (s.shortfall description) : Attempt R Unit)
          return result : m (LatticeSum C)) := by
    intro s singular
    have result : (s.mapSlots f).result c singular = (s.result c singular).mapValues f := rfl
    have verdict : ((s.result c singular).mapValues f).converged =
      (s.result c singular).converged := rfl
    have event : (s.mapSlots f).shortfall description = s.shortfall description := rfl
    simp only [result, verdict, event]
    split
    · simp only [map_bind, map_pure]
    · simp only [map_pure]
  unfold accumulate
  simp only [whole, map_bind, bind_map_left]
  refine bind_congr fun _ => ?_
  split
  · simp only [map_bind]
    refine bind_congr fun _ => ?_
    exact bind_congr fun ended => closing ended.1 ended.2
  · simp only [map_bind]
    exact bind_congr fun ended => closing ended.1 ended.2

end

/-! ## Both lattice sums -/

section
variable {R C : Type} [Sub R] [Mul R] [Neg R] [OfScientific R] [LT R] [DecidableLT R]
variable [RealFunctions R] [Add C] [Sub C] [Mul C] [ComplexFunctions R C] {f : Slots C → Slots C}

/-- The orders of a line are added one by one, so each of them may be mapped. -/
theorem LineOrder.shell_mapSlots (symmetry : Slots.Symmetry f) (k : C)
    {term term' : R → Attempt R (Slots C)} (orders : List R)
    (mapped : ∀ kx ∈ orders, term' kx = f <$> term kx) :
    ∀ total, shell k term' orders (f total) =
      Contribution.mapSlots f <$> shell k term orders total := by
  induction orders with
  | nil => exact fun total => rfl
  | cons kx rest ih =>
    intro total
    have later := ih fun kx' member => mapped kx' (List.mem_cons_of_mem kx member)
    unfold shell
    split
    · rfl
    · rw [mapped kx List.mem_cons_self, bind_map_left, map_bind]
      refine bind_congr fun slots => ?_
      rw [← symmetry.add, later]

/-- From nothing on as well. -/
theorem LineOrder.shell_zero_mapSlots (symmetry : Slots.Symmetry f) (k : C)
    {term term' : R → Attempt R (Slots C)} (orders : List R)
    (mapped : ∀ kx ∈ orders, term' kx = f <$> term kx) :
    shell k term' orders Slots.zero =
      Contribution.mapSlots f <$> shell k term orders Slots.zero := by
  have shells := shell_mapSlots symmetry k orders mapped Slots.zero
  rw [symmetry.zero] at shells
  exact shells

variable [Add R] [Div R] [LE R] [DecidableLE R] [Div C] [Neg C] [SpecialFunctions C]

theorem PlaneOrder.shell_mapSlots (symmetry : Slots.Symmetry f) (k : C) (eta : R)
    {point point' : Vec3 R} (ps : List (Vec2 R))
    (mapped : ∀ p ∈ ps, term k eta point' p = f (term k eta point p)) :
    shell k eta point' ps = (shell k eta point ps).mapSlots f := by
  have rows : ps.map (term k eta point') = (ps.map (term k eta point)).map f := by
    rw [List.map_map]
    exact List.map_congr_left mapped
  unfold shell Contribution.mapSlots
  split
  · rw [symmetry.zero]
  · rw [rows, symmetry.sum_map]

variable [IntCast R] [BEq R]

section
variable [NatCast R] [BEq C]

/-- A symmetry under which every list of orders is mapped passes through the distant sum. -/
theorem Distant.construct_mapSlots (symmetry : Slots.Symmetry f) {sum sum' : Distant R C}
    (periodicity : sum'.periodicity = sum.periodicity) (splitting : sum'.splitting = sum.splitting)
    (reciprocal : sum'.reciprocal = sum.reciprocal)
    (mapped : ∀ cells, sum'.shell cells = Contribution.mapSlots f <$> sum.shell cells)
    (c : Convergence R) (obstacles : Obstacles R) :
    sum'.construct c obstacles = LatticeSum.mapValues f <$> sum.construct c obstacles := by
  have prefactor : sum'.prefactor = sum.prefactor := by
    unfold Distant.prefactor
    rw [periodicity, reciprocal]
  unfold construct
  rw [splitting, periodicity, prefactor, accumulate_mapSlots (symmetry.unseen c) mapped]
  split
  · rw [map_pure, LatticeSum.mapValues_empty symmetry]
  · rw [bind_map_left, map_bind]
    refine bind_congr fun result => ?_
    rw [map_bind]
    refine bind_congr fun factor => ?_
    unfold LatticeSum.mapValues
    rw [map_pure, ← symmetry.scale]

end

variable [Pow R Nat]

/-- A symmetry under which every cell is mapped passes through the nearby sum. -/
theorem Nearby.construct_mapSlots (symmetry : Slots.Symmetry f) {sum sum' : Nearby R C}
    (basis : sum'.basis = sum.basis) (mapped : ∀ cell, sum'.term cell = f (sum.term cell))
    (c : Convergence R) (excludeInner : Bool) (obstacles : Obstacles R) :
    sum'.construct c excludeInner obstacles =
      LatticeSum.mapValues f <$> sum.construct c excludeInner obstacles := by
  have shells : ∀ cells, sum'.shell cells = f (sum.shell cells) := by
    intro cells
    have rows : cells.map sum'.term = (cells.map sum.term).map f := by
      rw [List.map_map]
      exact List.map_congr_left fun cell _ => mapped cell
    rw [shell_eq_sum, shell_eq_sum, rows, symmetry.sum_map]
  unfold construct
  rw [basis]
  refine accumulate_mapSlots (symmetry.unseen c) (fun cells => ?_) _ _ _ _
  rw [shells, map_pure]
  rfl

/-- The long-range halves of a list of cells are added one by one as well. -/
theorem Nearby.longRange_mapSlots (symmetry : Slots.Symmetry f) {sum sum' : Nearby R C}
    (wavenumber : sum'.wavenumber = sum.wavenumber) (splitting : sum'.splitting = sum.splitting)
    (mapped : ∀ cell, LongRange.term sum.wavenumber sum.splitting (sum'.source cell) =
      f <$> LongRange.term sum.wavenumber sum.splitting (sum.source cell)) (cells : List Cell) :
    sum'.longRange cells = f <$> sum.longRange cells := by
  have rows : (cells.mapM fun cell =>
      LongRange.term sum.wavenumber sum.splitting (sum'.source cell)) =
      List.map f <$> cells.mapM fun cell =>
        LongRange.term sum.wavenumber sum.splitting (sum.source cell) := by
    induction cells with
    | nil => rfl
    | cons cell cells ih =>
      rw [List.mapM_cons, List.mapM_cons, mapped cell, ih]
      simp only [bind_map_left, map_bind, map_pure, List.map_cons]
  rw [longRange_eq_mapM, longRange_eq_mapM, wavenumber, splitting]
  split
  · rw [map_pure, symmetry.zero]
  · simp only [rows, bind_map_left, map_bind, map_pure, symmetry.sum_map]

end

/-! ## Exact symmetries -/

/-- A real-linear isometry in each slot makes up a symmetry. -/
theorem Slots.symmetry_zipWith (g : Slots (ℂ →ₗᵢ[ℝ] ℂ)) :
    Slots.Symmetry (Slots.zipWith (fun isometry c => isometry c) g) where
  zero := by simp only [zipWith, zero, replicate, zeroC_exact, map_zero]
  add s t := by
    change zipWith _ g (zipWith _ s t) = zipWith _ (zipWith _ g s) (zipWith _ g t)
    simp only [zipWith, map_add]
  sub s t := by
    change zipWith _ g (zipWith _ s t) = zipWith _ (zipWith _ g s) (zipWith _ g t)
    simp only [zipWith, map_sub]
  scale s x := by
    have real : ∀ (isometry : ℂ →ₗᵢ[ℝ] ℂ) c, isometry (c * x) = isometry c * x := by
      intro isometry c
      rw [mul_comm, ← Complex.real_smul, map_smul, Complex.real_smul, mul_comm]
    simp only [Slots.scale, zipWith, map, ofReal_exact, real]
  modulus s := by simp only [zipWith, map, modulus_exact, LinearIsometry.norm_map]

end LatticeGreen

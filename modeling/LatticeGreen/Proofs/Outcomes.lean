import LatticeGreen.Periodic
import LatticeGreen.Proofs.NearbyRows

/-!
# How lattice sums may end

Which causes of failure and which events an evaluation can meet on its way. A sum over readable
settings fails for nothing but a division by zero, which takes a line and a splitting parameter
whose square vanishes, and all that it notes are doubts about its numbers.
-/
namespace LatticeGreen

section
variable {R : Type}

/-- The event doubts a number: a sum, a series or a difference is less exact than wanted. -/
def Event.IsDoubt : Event R → Prop
  | sumNotConverged .. | powerSeriesNotConverged | continuedFractionNotConverged
  | asymptoticSeriesNotConverged | transformNotConverged | precisionLost .. => True
  | _ => False

theorem Event.IsDoubt.level {event : Event R} (doubt : event.IsDoubt) : event.level = .warning := by
  cases event <;> first | rfl | exact doubt.elim

theorem Event.IsDoubt.ne_stillSingular {event : Event R} (doubt : event.IsDoubt) :
    event ≠ .stillSingular := by
  rintro rfl
  exact doubt

/-- Doubts are neither notices nor the warning of a sum that is still singular. -/
theorem Event.filter_doubts {events : List (Event R)} (doubts : ∀ event ∈ events, event.IsDoubt) :
    events.filter (·.level = .notice) = [] ∧ events.filter (· = .stillSingular) = [] := by
  constructor
  · refine List.filter_eq_nil_iff.mpr fun event noted => ?_
    simp [(doubts event noted).level]
  · refine List.filter_eq_nil_iff.mpr fun event noted => ?_
    simp [(doubts event noted).ne_stillSingular]

namespace Logged
variable {α β : Type}

/-- All that is noted is a doubt. -/
def Doubts (x : Logged R α) : Prop := ∀ event ∈ x.events, event.IsDoubt

theorem doubts_pure (a : α) : Doubts (pure a : Logged R α) := fun event noted => by
  cases noted

theorem Doubts.bind {x : Logged R α} {f : α → Logged R β} (first : x.Doubts)
    (later : ∀ a, (f a).Doubts) : (x >>= f).Doubts := by
  intro event noted
  rw [events_bind, List.mem_append] at noted
  rcases noted with early | late
  · exact first event early
  · exact later _ event late

theorem doubts_noteIf (condition : Bool) (event : Event R) (doubt : event.IsDoubt) :
    (noteIf condition event).Doubts := by
  intro noted member
  unfold noteIf at member
  split at member
  · rw [List.mem_singleton.mp member]
    exact doubt
  · cases member

end Logged

end

namespace Attempt
variable {R α β : Type}

/-- An attempt that had no result, with what was noted on the way. -/
def failed (cause : Failure R) (events : List (Event R)) : Attempt R α :=
  (⟨.error cause, events⟩ : Logged R (Except (Failure R) α))

theorem done_or_failed (x : Attempt R α) :
    (∃ a events, x = done a events) ∨ ∃ cause events, x = failed cause events := by
  obtain ⟨value, events⟩ := x
  cases value with
  | ok a => exact .inl ⟨a, events, rfl⟩
  | error cause => exact .inr ⟨cause, events, rfl⟩

theorem failed_bind (cause : Failure R) (events : List (Event R)) (f : α → Attempt R β) :
    (failed cause events >>= f) = failed cause events := by
  change failed cause (events ++ []) = _
  rw [List.append_nil]

/-- What two attempts in a row did was done by the first and then by the second. -/
theorem exists_of_bind_eq_done {x : Attempt R α} {f : α → Attempt R β} {b : β}
    {events : List (Event R)} (both : (x >>= f) = done b events) :
    ∃ a early late, x = done a early ∧ f a = done b late := by
  rcases x.done_or_failed with ⟨a, early, rfl⟩ | ⟨cause, early, rfl⟩
  · rw [done_bind] at both
    rcases (f a).done_or_failed with ⟨b', late, answer⟩ | ⟨cause, late, answer⟩
    · rw [answer, after_done, done_inj] at both
      exact ⟨a, early, late, rfl, both.1 ▸ answer⟩
    · rw [answer] at both
      cases congrArg (fun x : Attempt R β => x.run.value) both
  · rw [failed_bind] at both
    cases congrArg (fun x : Attempt R β => x.run.value) both

/-- The attempt fails for one of some causes at most, and notes nothing but doubts. -/
structure Within (causes : Failure R → Prop) (x : Attempt R α) : Prop where
  doubts : x.run.Doubts
  fails : ∀ cause, x.run.value = .error cause → causes cause

variable {causes : Failure R → Prop}

theorem within_pure (a : α) : Within causes (pure a : Attempt R α) :=
  ⟨Logged.doubts_pure _, fun _ failure => nomatch failure⟩

theorem within_fail {cause : Failure R} (allowed : causes cause) :
    Within causes (fail cause : Attempt R α) :=
  ⟨Logged.doubts_pure _, fun _ failure => Except.error.inj failure ▸ allowed⟩

theorem within_lift {x : Logged R α} (doubts : x.Doubts) :
    Within causes (liftM x : Attempt R α) := by
  rw [liftM_eq_done]
  exact ⟨doubts, fun _ failure => nomatch failure⟩

theorem within_note (event : Event R) (doubt : event.IsDoubt) :
    Within causes (note event : Attempt R Unit) := by
  refine ⟨fun noted member => ?_, fun _ failure => nomatch failure⟩
  rw [List.mem_singleton.mp member]
  exact doubt

theorem Within.weaken {causes' : Failure R → Prop} {x : Attempt R α} (within : Within causes x)
    (fewer : ∀ cause, causes cause → causes' cause) : Within causes' x :=
  ⟨within.doubts, fun cause failure => fewer cause (within.fails cause failure)⟩

theorem Within.bind {x : Attempt R α} {f : α → Attempt R β} (first : Within causes x)
    (later : ∀ a, Within causes (f a)) : Within causes (x >>= f) := by
  rcases x.done_or_failed with ⟨a, events, rfl⟩ | ⟨cause, events, rfl⟩
  · rw [done_bind]
    refine ⟨fun event noted => ?_, (later a).fails⟩
    rcases List.mem_append.mp noted with early | late
    · exact first.doubts event early
    · exact (later a).doubts event late
  · rw [failed_bind]
    exact ⟨first.doubts, fun _ failure => Except.error.inj failure ▸ first.fails _ rfl⟩

/-- An attempt that cannot fail has a result. -/
theorem Within.exists_done {x : Attempt R α} (within : Within (fun _ => False) x) :
    ∃ a events, x = done a events ∧ ∀ event ∈ events, event.IsDoubt := by
  rcases x.done_or_failed with ⟨a, events, rfl⟩ | ⟨cause, events, rfl⟩
  · exact ⟨a, events, rfl, within.doubts⟩
  · exact (within.fails cause rfl).elim

end Attempt

/-! ## Shell-by-shell summation -/

section
variable {R C : Type} [OfScientific R] [Mul R] [Div R] [LT R] [DecidableLT R] [RealFunctions R]
variable [Add C] [Sub C] [ComplexFunctions R C]
open Attempt

theorem within_sumShells {causes : Failure R → Prop}
    {series : List Cell → Attempt R (Contribution C)}
    (asked : ∀ cells, Within causes (series cells))
    (dimension : Int) (c : Convergence R) (budget : Nat) :
    ∀ (n : Int) (s : SumState R C),
      Within causes (sumShells series dimension c (fun _ => pure ()) budget n s) := by
  induction budget with
  | zero => exact fun n s => within_pure _
  | succ budget ih =>
    intro n s
    unfold sumShells
    split
    · exact within_pure _
    · refine (asked _).bind fun contribution => ?_
      split
      · exact within_pure _
      · exact (within_pure ()).bind fun _ => ih _ _

theorem within_sumLattice {causes : Failure R → Prop}
    {series : List Cell → Attempt R (Contribution C)}
    (asked : ∀ cells, Within causes (series cells))
    (dimension : Int) (c : Convergence R) (excludeInner : Bool) :
    Within causes (sumLattice series dimension c excludeInner (fun _ => pure ())
      (fun _ => pure ())) := by
  have rest : ∀ s : SumState R C, Within causes (do
      (pure () : Attempt R Unit)
      sumShells series dimension c (fun _ => pure ()) c.shellBudget (c.firstRound + 1)
        s.snapshot) := fun s =>
    (within_pure ()).bind fun _ => within_sumShells asked dimension c _ _ _
  unfold sumLattice
  dsimp only
  split
  · exact rest _
  · refine (asked _).bind fun contribution => ?_
    split
    · exact within_pure _
    · exact rest _

/-- A sum fails for what its series fails for, and adds one doubt to those of the series. -/
theorem within_accumulate {causes : Failure R → Prop}
    {series : List Cell → Attempt R (Contribution C)}
    (asked : ∀ cells, Within causes (series cells))
    (dimension : Int) (c : Convergence R) (description : String) (excludeInner : Bool)
    (begins : excludeInner = true → 0 ≤ c.firstRound) :
    Within causes (accumulate series dimension c description excludeInner) := by
  have inside : (excludeInner && decide (c.firstRound < 0)) = false := by
    rw [Bool.and_eq_false_imp, decide_eq_false_iff_not, Int.not_lt]
    exact begins
  unfold accumulate
  simp only [inside, Obstacles.pass, Option.elim_none, SumState.passLimits_none,
    SumState.passObstacles_none, ofExcept_ok, Bool.false_eq_true, if_false, pure_bind,
    monadLift_self]
  refine (within_sumLattice asked dimension c excludeInner).bind fun ended => ?_
  split
  · exact (within_note (ended.1.shortfall description) trivial).bind fun _ =>
      within_pure _
  · exact within_pure _

end

/-! ## The distant sum -/

open Attempt Logged

section
variable {R C : Type} [Sub R] [Mul R] [Neg R] [OfScientific R] [NatCast R] [LT R] [DecidableLT R]
variable [RealFunctions R] [Add C] [Sub C] [Mul C] [Div C] [Neg C] [BEq C] [ComplexFunctions R C]

theorem ExponentialIntegral.doubts_expInt (z : C) : (expInt z).Doubts := by
  have by_series : ∀ tolerance, (series tolerance z).Doubts := fun tolerance =>
    (doubts_noteIf _ .powerSeriesNotConverged trivial).bind fun _ => doubts_pure _
  have by_fraction : ∀ tolerance, (continuedFraction tolerance z).Doubts := fun tolerance =>
    (doubts_noteIf _ .continuedFractionNotConverged trivial).bind fun _ => doubts_pure _
  have by_asymptotic : ∀ tolerance, (asymptotic tolerance z).Doubts := by
    intro tolerance
    unfold asymptotic
    split
    · exact doubts_pure _
    · exact (doubts_noteIf _ .asymptoticSeriesNotConverged trivial).bind fun _ => doubts_pure _
  unfold expInt
  dsimp only
  split
  · exact (by_series _).bind fun _ => doubts_pure _
  · split
    · split
      · exact (by_series _).bind fun _ => doubts_pure _
      · exact (by_fraction _).bind fun _ => doubts_pure _
    · exact (by_asymptotic _).bind fun _ => doubts_pure _

variable [Div R] [BEq R]

theorem LineTransform.doubts_series (kt2 : C) (rho eta : R) : (series kt2 rho eta).Doubts := by
  unfold series
  refine (ExponentialIntegral.doubts_expInt _).bind fun e1 => ?_
  dsimp only
  split
  · exact doubts_pure _
  · split
    · exact doubts_pure _
    · exact (doubts_noteIf _ .transformNotConverged trivial).bind fun _ => doubts_pure _

/-- The transform of an order divides by the square of the splitting parameter. -/
theorem LineTransform.within_longRange [Add R] [SpecialFunctions C] (kt2 : C) (rho eta : R) :
    Within (fun cause => cause = .divisionByZero ∧ (eta * eta == 0.0) = true)
      (longRange kt2 rho eta) := by
  unfold longRange
  split
  · exact within_pure _
  · split
    · rename_i vanishes
      exact within_fail ⟨rfl, vanishes⟩
    · exact within_lift (doubts_series kt2 rho eta)

end

section
variable {R C : Type} [Sub R] [Mul R] [Neg R] [OfScientific R] [LT R] [DecidableLT R]
variable [RealFunctions R] [Add C] [Mul C] [ComplexFunctions R C]

theorem LineOrder.within_shell {causes : Failure R → Prop} (k : C)
    {term : R → Attempt R (Slots C)} (answers : ∀ kx, Within causes (term kx)) (orders : List R) :
    ∀ total, Within causes (shell k term orders total) := by
  induction orders with
  | nil => exact fun total => within_pure _
  | cons kx rest ih =>
    intro total
    unfold shell
    split
    · exact within_pure _
    · exact (answers kx).bind fun slots => ih _

end

section
variable {R C : Type} [Add R] [Sub R] [Mul R] [Div R] [Neg R] [OfScientific R] [IntCast R]
variable [NatCast R] [BEq R] [LT R] [DecidableLT R] [LE R] [DecidableLE R] [RealFunctions R]
variable [Add C] [Sub C] [Mul C] [Div C] [Neg C] [BEq C] [ComplexFunctions R C]
variable [SpecialFunctions C]

namespace Distant

theorem within_shell (sum : Distant R C) (periodic : sum.periodicity ≠ .unspecified)
    (cells : List Cell) :
    Within (fun cause => cause = .divisionByZero ∧ sum.periodicity = .line ∧
      (sum.splitting * sum.splitting == 0.0) = true) (sum.shell cells) := by
  unfold shell
  cases kind : sum.periodicity with
  | unspecified => exact absurd kind periodic
  | line =>
    refine LineOrder.within_shell _ (fun kx => ?_) _ _
    have transformed := LineTransform.within_longRange
      (LineOrder.transverse sum.wavenumber kx) sum.reciprocal.rho sum.splitting
    refine Within.bind ⟨transformed.doubts, fun cause failure => ?_⟩ fun g => within_pure _
    obtain ⟨rfl, vanishes⟩ := transformed.fails cause failure
    exact ⟨rfl, rfl, vanishes⟩
  | plane => exact within_pure _

theorem within_construct (sum : Distant R C) (periodic : sum.periodicity ≠ .unspecified)
    (c : Convergence R) :
    Within (fun cause => cause = .divisionByZero ∧ sum.periodicity = .line ∧
      (sum.splitting == 0.0) = false ∧ (sum.splitting * sum.splitting == 0.0) = true)
      (sum.construct c) := by
  unfold construct
  split
  · exact within_pure _
  · rename_i divided
    have summed := within_accumulate (sum.within_shell periodic) sum.periodicity.dimension c
      description false (fun excluded => nomatch excluded)
    refine Within.bind ⟨summed.doubts, fun cause failure => ?_⟩ fun result => ?_
    · obtain ⟨rfl, line, vanishes⟩ := summed.fails cause failure
      exact ⟨rfl, line, Bool.eq_false_iff.mpr divided, vanishes⟩
    · have factor : ∃ x, sum.prefactor = .ok x := by
        unfold prefactor Periodicity.prefactor
        cases kind : sum.periodicity with
        | unspecified => exact absurd kind periodic
        | line => exact ⟨_, rfl⟩
        | plane => exact ⟨_, rfl⟩
      obtain ⟨x, known⟩ := factor
      rw [known]
      exact (within_pure x).bind fun _ => within_pure _

end Distant

end

/-! ## The nearby sum -/

section
variable {R C : Type} [Add R] [Sub R] [Mul R] [Div R] [Neg R] [OfScientific R] [IntCast R]
variable [BEq R] [LT R] [DecidableLT R] [LE R] [DecidableLE R] [Pow R Nat] [RealFunctions R]
variable [Add C] [Sub C] [Mul C] [Div C] [Neg C] [ComplexFunctions R C] [SpecialFunctions C]

namespace Nearby

theorem within_construct {causes : Failure R → Prop} (sum : Nearby R C) (c : Convergence R)
    (excludeInner : Bool) (begins : excludeInner = true → 0 ≤ c.firstRound) :
    Within causes (sum.construct c excludeInner) :=
  within_accumulate (fun _ => within_pure _) _ c description excludeInner begins

theorem doubts_longRange (sum : Nearby R C) (cells : List Cell) : (sum.longRange cells).Doubts := by
  have each : ∀ source : Source R C,
      (LongRange.term sum.wavenumber sum.splitting source).Doubts := by
    intro source
    unfold LongRange.term
    split
    · exact doubts_pure _
    · have doubt : (LongRange.cancellation sum.wavenumber sum.splitting source).event.IsDoubt :=
        trivial
      exact (doubts_noteIf _ _ doubt).bind fun _ => doubts_pure _
  have all : (cells.mapM fun c =>
      LongRange.term sum.wavenumber sum.splitting (sum.source c)).Doubts := by
    induction cells with
    | nil => exact doubts_pure _
    | cons c cells ih =>
      rw [List.mapM_cons]
      exact (each _).bind fun _ => ih.bind fun _ => doubts_pure _
  rw [longRange_eq_mapM]
  split
  · exact doubts_pure _
  · exact all.bind fun _ => doubts_pure _

end Nearby

theorem PeriodicGreen.doubts_combine (green : PeriodicGreen R) (halves : Halves R C) (eta : R)
    (bloch : Vec2 R) (retried : Bool) : (green.combine halves eta bloch retried).Doubts := by
  unfold combine
  split
  · exact (Nearby.doubts_longRange _ _).bind fun _ => doubts_pure _
  · exact doubts_pure _

end

/-! ## Both sums -/

section
variable {R : Type} [OfScientific R] [BEq R]

/-- The directions that the cells of a basis are repeated in. -/
def Basis.periodicity : Basis R → Periodicity
  | .line _ => .line
  | .plane .. => .plane

/-- Every basis has as many vectors as some distant sum has directions. -/
theorem Basis.ofDimension_dimension (basis : Basis R) :
    Periodicity.ofDimension (R := R) (.integer basis.dimension) = .ok basis.periodicity := by
  cases basis with
  | line a => rfl
  | plane a1 a2 => rfl

end

/-- A lattice has the reciprocal lattice of its vectors. -/
theorem Lattice.reciprocal_eq {R C : Type} [Add R] [Sub R] [Mul R] [Div R] [Neg R] [OfScientific R]
    [BEq R] [LT R] [DecidableLT R] [RealFunctions R] [ComplexFunctions R C] {lattice : Lattice R}
    {basis : Basis R} (vectors : lattice.vectors = .ok basis) (k : C) (point : Vec3 R) :
    lattice.reciprocal k point =
      (Reciprocal.construct basis k point).mapError Failure.configuration := by
  unfold reciprocal
  rw [vectors]
  rfl

section
variable {R C : Type} [Add R] [Sub R] [Mul R] [Div R] [Neg R] [OfScientific R] [IntCast R]
variable [NatCast R] [Pow R Nat] [BEq R] [LT R] [DecidableLT R] [LE R] [DecidableLE R]
variable [RealFunctions R]
variable [Add C] [Sub C] [Mul C] [Div C] [Neg C] [BEq C] [ComplexFunctions R C]
variable [SpecialFunctions C]

/-- The square of a splitting parameter that a line is summed with vanishes, though the parameter
does not. -/
def Basis.Underflows (basis : Basis R) (eta : R) : Prop :=
  basis.dimension = 1 ∧ (eta == 0.0) = false ∧ (eta * eta == 0.0) = true

namespace PeriodicGreen

/-- Each series is summed once, and the Bloch vector is kept once. -/
theorem run_sumsIn_eq (green : PeriodicGreen R) (basis : Basis R) (point : Vec3 R) (k : C)
    (bloch : Vec2 R) (eta : R) (reciprocal : Reciprocal R) (w : Workspace R) :
    (green.sumsIn basis point k bloch eta reciprocal).run w = (do
      let near : Nearby R C := ⟨point, k, bloch, basis, eta⟩
      let nearby ← near.construct green.convergence green.excludeInner green.obstacles
      let far : Distant R C := ⟨basis.periodicity, point, k, bloch, reciprocal, eta⟩
      let distant ← far.construct green.convergence green.obstacles
      return (⟨near, nearby, distant⟩, { w with summed := w.summed ++ [bloch] })) := by
  unfold sumsIn
  simp only [basis.ofDimension_dimension, ofExcept_ok, StateT.run_bind, Workspace.run_noteSummed,
    Workspace.run_lift, StateT.run_pure, bind_assoc, pure_bind]

/-- The pair of sums on its own. -/
theorem sums_eq (green : PeriodicGreen R) (basis : Basis R) (point : Vec3 R) (k : C)
    (bloch : Vec2 R) (eta : R) (reciprocal : Reciprocal R) :
    green.sums basis point k bloch eta reciprocal = (do
      let near : Nearby R C := ⟨point, k, bloch, basis, eta⟩
      let nearby ← near.construct green.convergence green.excludeInner green.obstacles
      let far : Distant R C := ⟨basis.periodicity, point, k, bloch, reciprocal, eta⟩
      let distant ← far.construct green.convergence green.obstacles
      return ⟨near, nearby, distant⟩) := by
  unfold sums
  rw [run_sumsIn_eq]
  simp only [map_bind, map_pure]

/-- Whatever the store holds, the pair of sums is what it is on its own. -/
theorem run_sumsIn (green : PeriodicGreen R) (basis : Basis R) (point : Vec3 R) (k : C)
    (bloch : Vec2 R) (eta : R) (reciprocal : Reciprocal R) (w : Workspace R) :
    (green.sumsIn basis point k bloch eta reciprocal).run w = (do
      let halves ← green.sums basis point k bloch eta reciprocal
      pure (halves, { w with summed := w.summed ++ [bloch] })) := by
  rw [run_sumsIn_eq, sums_eq]
  simp only [bind_assoc, pure_bind]

theorem within_sums (green : PeriodicGreen R) (readable : green.obstacles = {})
    (begins : green.excludeInner = true → 0 ≤ green.convergence.firstRound) (basis : Basis R)
    (point : Vec3 R) (k : C) (bloch : Vec2 R) (eta : R) (reciprocal : Reciprocal R) :
    Within (fun cause => cause = .divisionByZero ∧ basis.Underflows eta)
      (green.sums basis point k bloch eta reciprocal) := by
  have periodic : basis.periodicity ≠ .unspecified := by
    cases basis <;> exact fun unspecified => nomatch unspecified
  have line : basis.periodicity = .line → basis.dimension = 1 := by
    cases basis with
    | line a => exact fun _ => rfl
    | plane a1 a2 => exact fun line => nomatch line
  rw [sums_eq, readable]
  refine (Nearby.within_construct _ _ _ begins).bind fun nearby => ?_
  let far : Distant R C := ⟨basis.periodicity, point, k, bloch, reciprocal, eta⟩
  have summed := far.within_construct periodic green.convergence
  refine Within.bind ⟨summed.doubts, fun cause failure => ?_⟩ fun distant => within_pure _
  obtain ⟨rfl, along, divided, vanishes⟩ := summed.fails cause failure
  exact ⟨rfl, line along, divided, vanishes⟩

end PeriodicGreen

end

end LatticeGreen

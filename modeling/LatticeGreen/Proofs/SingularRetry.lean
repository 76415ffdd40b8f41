import LatticeGreen.Double.BesselK
import LatticeGreen.Proofs.NonFinite
import LatticeGreen.Proofs.SingularSums

/-!
# The second try after a singular sum

An evaluation takes the pair of lattice sums once, or, after a singular distant sum, exactly twice:
the second time for a shifted copy of the Bloch vector, and never again. All parts of the result
belong to the Bloch vector that the last pair was taken for and to the splitting parameter that was
chosen before the first.

First the store is eliminated: what is read from the copies is what was written to them. The rest
is a case analysis over the outcomes of the two pairs of sums.
-/
namespace LatticeGreen

section
variable {R C : Type} [Add R] [Mul R] [OfScientific R] [ComplexFunctions R C]

/-- A Bloch vector moved along x by a hundredth of the wavenumber. -/
def shiftedBloch (k : C) (bloch : Vec2 R) : Vec2 R :=
  ⟨bloch.x + PeriodicGreen.singularShift * modulus k, bloch.y⟩

/-- A copy is made of the last array and shifted. The array that it was made of stays as it is. -/
theorem Workspace.run_shift {α : Type} (k : C) (arrays : List (RealArray R)) (bloch : Vec2 R)
    (summed : List (Vec2 R)) (next : Nat → Working R α) :
    ((do
      let shifted ← Workspace.keep (← Workspace.read arrays.length)
      Workspace.increase shifted 0 (PeriodicGreen.singularShift * modulus k)
      next shifted : Working R α)).run ⟨arrays ++ [bloch.toArray], summed⟩ =
    (next (arrays.length + 1)).run
      ⟨arrays ++ [bloch.toArray, (shiftedBloch k bloch).toArray], summed⟩ := by
  have copied : (⟨arrays ++ [bloch.toArray], summed⟩ : Workspace R).arrays[arrays.length]? =
      some bloch.toArray := by
    simp
  have places : (arrays ++ [bloch.toArray]).length = arrays.length + 1 := by simp
  simp only [StateT.run_bind, run_read copied, run_keep, run_increase, modify_copy, pure_bind]
  rw [places, List.append_assoc]
  rfl

end

/-- What an evaluation reads off its arguments. -/
structure Reading (R : Type) where
  point : Vec3 R
  bloch : Vec2 R
  basis : Basis R
  reciprocal : Reciprocal R

namespace PeriodicGreen
open Attempt

section
variable {R C : Type} [Add R] [Sub R] [Mul R] [Div R] [Neg R] [OfScientific R] [BEq R] [LT R]
variable [DecidableLT R] [RealFunctions R] [BEq C] [ComplexFunctions R C]

/-- The arguments are well-formed, the wavenumber is not zero, and the sums can begin. -/
structure Accepts (green : PeriodicGreen R) (point : RealArray R) (k : C) (bloch : RealArray R)
    (reading : Reading R) : Prop where
  place : readPoint point = .ok reading.point
  phase : readBloch green.lattice.dimension bloch = .ok reading.bloch
  vectors : green.lattice.vectors = .ok reading.basis
  reciprocal : green.lattice.reciprocal k reading.point = .ok reading.reciprocal
  wave : (k == zeroC) = false
  readable : green.obstacles = {}
  begins : green.excludeInner = true → 0 ≤ green.convergence.firstRound

/-- What was read for one Bloch vector is read for any other, given as a plain array. -/
theorem Accepts.withBloch {green : PeriodicGreen R} {point : RealArray R} {k : C}
    {bloch : RealArray R} {reading : Reading R} (accepted : green.Accepts point k bloch reading)
    (bloch : Vec2 R) : green.Accepts point k bloch.toArray { reading with bloch } :=
  { accepted with phase := rfl }

end

section
variable {R C : Type} [Add R] [Sub R] [Mul R] [Div R] [Neg R] [OfScientific R] [IntCast R]
variable [Pow R Nat] [BEq R] [LT R] [DecidableLT R] [LE R] [DecidableLE R] [RealFunctions R]
variable [Add C] [Sub C] [Mul C] [Div C] [Neg C] [ComplexFunctions R C] [SpecialFunctions C]
variable {green : PeriodicGreen R}

theorem run_combine (halves : Halves R C) (eta : R) (retried : Bool) {w : Workspace R}
    {place : Nat} {bloch : Vec2 R} (held : w.arrays[place]? = some bloch.toArray) :
    ((do
      let bloch ← Workspace.readVector place
      (green.combine halves eta bloch retried : Logged R (Evaluation R C)) :
        Working R (Evaluation R C))).run w = (do
      let result ← (green.combine halves eta bloch retried : Logged R (Evaluation R C))
      (pure (result, w) : Attempt R _)) := by
  rw [StateT.run_bind, Workspace.run_readVector held, pure_bind]
  rfl

/-- The long-range halves of the innermost cells, if these are left out. -/
def correction (green : PeriodicGreen R) (near : Nearby R C) : Slots C :=
  if green.excludeInner then (near.longRange (Cell.block near.basis.dimension 1)).value
  else Slots.zero

/-- The two sums are combined alike with and without the innermost cells, where zero can be taken
away without effect. -/
theorem value_combine (unchanged : ∀ c : C, c - zeroC = c) (halves : Halves R C) (eta : R)
    (bloch : Vec2 R) (retried : Bool) :
    (green.combine halves eta bloch retried).value =
      ⟨halves.nearby.values + halves.distant.values - green.correction halves.near, halves.nearby,
        halves.distant, green.correction halves.near, eta, bloch, retried⟩ := by
  have nothing : ∀ slots : Slots C, slots - Slots.zero = slots := by
    intro slots
    change Slots.zipWith (· - ·) slots Slots.zero = slots
    simp only [Slots.zipWith, Slots.zero, Slots.replicate, unchanged]
  unfold combine correction
  split
  · rfl
  · rw [nothing]
    rfl

variable [NatCast R] [BEq C]

/-- Both lattice sums for what was read, with some Bloch vector. -/
def sumsFor (green : PeriodicGreen R) (k : C) (reading : Reading R) (bloch : Vec2 R) :
    Attempt R (Halves R C) :=
  green.sums reading.basis reading.point k bloch (green.splittingFor reading.reciprocal)
    reading.reciprocal

variable {point : RealArray R} {k : C} {bloch : RealArray R} {reading : Reading R}

theorem run_sumsAt (basis : Basis R) (point : Vec3 R) (eta : R) (reciprocal : Reciprocal R)
    {w : Workspace R} {place : Nat} {bloch : Vec2 R}
    (held : w.arrays[place]? = some bloch.toArray) :
    (green.sumsAt basis point k eta reciprocal place).run w = (do
      let halves ← green.sums basis point k bloch eta reciprocal
      pure (halves, { w with summed := w.summed ++ [bloch] })) := by
  unfold sumsAt
  rw [StateT.run_bind, Workspace.run_readVector held, pure_bind, run_sumsIn]

/-- What an evaluation does when the store is left aside. -/
theorem run_evaluateIn (accepted : green.Accepts point k bloch reading) {w : Workspace R}
    {place : Nat} (held : w.arrays[place]? = some bloch) :
    (green.evaluateIn point k place).run w = (do
      Attempt.note .splittingChosen
      let halves ← green.sumsFor k reading reading.bloch
      if halves.distant.singular then
        Attempt.note .singularSum
        let shifted := shiftedBloch k reading.bloch
        let halves ← green.sumsFor k reading shifted
        if halves.distant.singular then Attempt.note .stillSingular
        let result ← (green.combine halves (green.splittingFor reading.reciprocal) shifted true :
          Logged R (Evaluation R C))
        return (result, ⟨w.arrays ++ [reading.bloch.toArray, shifted.toArray],
          w.summed ++ [reading.bloch] ++ [shifted]⟩)
      else
        let result ← (green.combine halves (green.splittingFor reading.reciprocal) reading.bloch
          false : Logged R (Evaluation R C))
        return (result, ⟨w.arrays ++ [reading.bloch.toArray], w.summed ++ [reading.bloch]⟩)) := by
  have copied : (w.arrays ++ [reading.bloch.toArray])[w.arrays.length]? =
      some reading.bloch.toArray := by simp
  have moved : (w.arrays ++ [reading.bloch.toArray, (shiftedBloch k reading.bloch).toArray])[
      w.arrays.length + 1]? = some (shiftedBloch k reading.bloch).toArray := by simp
  unfold evaluateIn evaluateAt
  simp only [StateT.run_bind, ofExcept_ok, liftM_pure, StateT.run_pure, pure_bind, accepted.place,
    accepted.phase, accepted.vectors, accepted.reciprocal, accepted.wave, Workspace.run_read held,
    Workspace.run_keep, Bool.false_eq_true, if_false]
  rw [Workspace.run_lift, bind_assoc]
  refine bind_congr fun _ => ?_
  rw [pure_bind, run_sumsAt _ _ _ _ copied, bind_assoc]
  refine bind_congr fun halves => ?_
  rw [pure_bind]
  split
  · rw [StateT.run_bind, Workspace.run_lift, bind_assoc]
    refine bind_congr fun _ => ?_
    rw [pure_bind, Workspace.run_shift, StateT.run_bind, run_sumsAt _ _ _ _ moved, bind_assoc]
    refine bind_congr fun halves => ?_
    rw [pure_bind]
    split
    · rw [StateT.run_bind, Workspace.run_lift, bind_assoc]
      refine bind_congr fun _ => ?_
      rw [pure_bind, run_combine _ _ _ moved]
    · rw [run_combine _ _ _ moved]
  · rw [run_combine _ _ _ copied]

/-! ## The two outcomes -/

/-- A regular distant sum ends the evaluation. -/
theorem run_regular (accepted : green.Accepts point k bloch reading) {w : Workspace R}
    {place : Nat} (held : w.arrays[place]? = some bloch) {halves : Halves R C}
    {events : List (Event R)} (first : green.sumsFor k reading reading.bloch = done halves events)
    (regular : halves.distant.singular = false) :
    let combined := green.combine halves (green.splittingFor reading.reciprocal) reading.bloch false
    (green.evaluateIn point k place).run w =
      done (combined.value, ⟨w.arrays ++ [reading.bloch.toArray], w.summed ++ [reading.bloch]⟩)
        ([.splittingChosen] ++ (events ++ combined.events)) := by
  rw [run_evaluateIn accepted held, note_eq_done, done_bind, first, done_bind]
  simp only [regular, Bool.false_eq_true, if_false, liftM_eq_done, done_bind, pure_eq_done,
    after_done, List.append_nil]

theorem evaluate_regular (accepted : green.Accepts point k bloch reading) {halves : Halves R C}
    {events : List (Event R)} (first : green.sumsFor k reading reading.bloch = done halves events)
    (regular : halves.distant.singular = false) :
    ∃ noted, green.evaluate point k bloch = done (green.combine halves
      (green.splittingFor reading.reciprocal) reading.bloch false).value noted := by
  have held : [bloch][0]? = some bloch := rfl
  have once := run_regular accepted (w := ⟨[bloch], []⟩) held first regular
  exact ⟨_, (congrArg (Prod.fst <$> ·) once).trans (map_done _ _ _)⟩

/-- After a singular distant sum the outcome is that of the second pair. -/
theorem run_singular (accepted : green.Accepts point k bloch reading) {w : Workspace R}
    {place : Nat} (held : w.arrays[place]? = some bloch) {halves : Halves R C}
    {events : List (Event R)} (first : green.sumsFor k reading reading.bloch = done halves events)
    (singular : halves.distant.singular = true) {again : Halves R C} {later : List (Event R)}
    (second : green.sumsFor k reading (shiftedBloch k reading.bloch) = done again later) :
    let shifted := shiftedBloch k reading.bloch
    let combined := green.combine again (green.splittingFor reading.reciprocal) shifted true
    (green.evaluateIn point k place).run w =
      done (combined.value, ⟨w.arrays ++ [reading.bloch.toArray, shifted.toArray],
          w.summed ++ [reading.bloch] ++ [shifted]⟩)
        ([.splittingChosen] ++ (events ++ ([.singularSum] ++ (later ++
          ((if again.distant.singular then [.stillSingular] else []) ++ combined.events))))) := by
  rw [run_evaluateIn accepted held, note_eq_done, done_bind, first, done_bind]
  simp only [singular, if_true, note_eq_done, second, done_bind]
  split <;>
    simp only [liftM_eq_done, done_bind, pure_eq_done, after_done, List.append_nil,
      List.nil_append]

/-- A sum that failed is not tried again, nor is the evaluation. -/
theorem run_failing (accepted : green.Accepts point k bloch reading) {w : Workspace R}
    {place : Nat} (held : w.arrays[place]? = some bloch) {cause : Failure R}
    {events : List (Event R)}
    (fails : green.sumsFor (C := C) k reading reading.bloch = failed cause events) :
    ∃ noted, (green.evaluateIn point k place).run w = failed cause noted := by
  rw [run_evaluateIn accepted held, note_eq_done, done_bind, fails, failed_bind]
  exact ⟨_, rfl⟩

theorem run_failing_again (accepted : green.Accepts point k bloch reading) {w : Workspace R}
    {place : Nat} (held : w.arrays[place]? = some bloch) {halves : Halves R C}
    {events : List (Event R)} (first : green.sumsFor k reading reading.bloch = done halves events)
    (singular : halves.distant.singular = true) {cause : Failure R} {later : List (Event R)}
    (fails : green.sumsFor (C := C) k reading (shiftedBloch k reading.bloch) =
      failed cause later) :
    ∃ noted, (green.evaluateIn point k place).run w = failed cause noted := by
  rw [run_evaluateIn accepted held, note_eq_done, done_bind, first, done_bind]
  simp only [singular, if_true, note_eq_done, done_bind, fails, failed_bind]
  exact ⟨_, rfl⟩

/-! ## The result -/

theorem near_of_sumsFor {bloch : Vec2 R} {halves : Halves R C} {events : List (Event R)}
    (summed : green.sumsFor k reading bloch = done halves events) :
    halves.near = ⟨reading.point, k, bloch, reading.basis,
      green.splittingFor reading.reciprocal⟩ := by
  rw [sumsFor, sums_eq] at summed
  obtain ⟨nearby, _, _, _, rest⟩ := exists_of_bind_eq_done summed
  obtain ⟨distant, _, _, _, rest⟩ := exists_of_bind_eq_done rest
  exact congrArg Halves.near (done_inj.mp rest).1.symm

theorem doubts_of_sumsFor (accepted : green.Accepts point k bloch reading) {bloch : Vec2 R}
    {halves : Halves R C} {events : List (Event R)}
    (summed : green.sumsFor k reading bloch = done halves events) :
    ∀ event ∈ events, event.IsDoubt := by
  have within := green.within_sums accepted.readable accepted.begins reading.basis reading.point k
    bloch (green.splittingFor reading.reciprocal) reading.reciprocal
  rw [← sumsFor, summed] at within
  exact within.doubts

/-- The course of an evaluation, told by its result, by the store before and after it, and by what
it noted. -/
structure Course (green : PeriodicGreen R) (point : RealArray R) (k : C) (reading : Reading R)
    (before after : Workspace R) (result : Evaluation R C) (events : List (Event R)) : Prop where
  /-- The first distant sum decides on the second pair. -/
  retried : ∃ halves noted, green.sumsFor k reading reading.bloch = done halves noted ∧
    result.retried = halves.distant.singular
  bloch : result.bloch =
    if result.retried then shiftedBloch k reading.bloch else reading.bloch
  splitting : result.splitting = green.splittingFor reading.reciprocal
  /-- Both sums belong to the Bloch vector and the splitting parameter of the result. -/
  sums : ∃ halves noted, green.sums reading.basis reading.point k result.bloch result.splitting
    reading.reciprocal = done halves noted ∧
    result.nearby = halves.nearby ∧ result.distant = halves.distant
  /-- So does what is taken off them. -/
  inner : result.innerCorrection =
    green.correction ⟨reading.point, k, result.bloch, reading.basis, result.splitting⟩
  values : result.values = result.nearby.values + result.distant.values - result.innerCorrection
  /-- The Bloch vectors that pairs of sums were taken for. -/
  summed : after.summed =
    before.summed ++ if result.retried then [reading.bloch, result.bloch] else [reading.bloch]
  /-- What was in the store is in its place, as it was. -/
  kept : before.arrays <+: after.arrays
  notices : events.filter (·.level = .notice) = if result.retried then [.singularSum] else []
  warnings : events.filter (· = .stillSingular) =
    if result.retried && result.distant.singular then [.stillSingular] else []
  /-- A second try that was regular is what an evaluation for its Bloch vector gives at once. -/
  reproduced : result.retried = true → result.distant.singular = false →
    ∃ noted, green.evaluate point k result.bloch.toArray =
      done { result with retried := false } noted

/-- A first pair of sums whose distant half is singular is taken again. -/
theorem Course.retried_of_singular {before after : Workspace R} {result : Evaluation R C}
    {events : List (Event R)} (course : green.Course point k reading before after result events)
    (singular : Ensures (·.distant.singular = true)
      (green.sumsFor (C := C) k reading reading.bloch)) : result.retried = true := by
  obtain ⟨halves, noted, first, same⟩ := course.retried
  rw [same]
  exact singular halves noted first

variable (unchanged : ∀ c : C, c - zeroC = c)
include unchanged

theorem course_of_regular (accepted : green.Accepts point k bloch reading) {w : Workspace R}
    {place : Nat} (held : w.arrays[place]? = some bloch) {halves : Halves R C}
    {events : List (Event R)} (first : green.sumsFor k reading reading.bloch = done halves events)
    (regular : halves.distant.singular = false) :
    ∃ result after noted, (green.evaluateIn point k place).run w = done (result, after) noted ∧
      green.Course point k reading w after result noted := by
  have near := near_of_sumsFor first
  refine ⟨_, _, _, run_regular accepted held first regular, ?_⟩
  have doubts : ∀ event ∈ events ++ (green.combine halves
      (green.splittingFor reading.reciprocal) reading.bloch false).events, event.IsDoubt := by
    intro event noted
    rcases List.mem_append.mp noted with early | late
    · exact doubts_of_sumsFor accepted first event early
    · exact doubts_combine green halves _ _ _ event late
  obtain ⟨no_notice, no_warning⟩ := Event.filter_doubts doubts
  rw [value_combine unchanged]
  exact {
    retried := ⟨halves, events, first, regular.symm⟩
    bloch := rfl
    splitting := rfl
    sums := ⟨halves, events, first, rfl, rfl⟩
    inner := congrArg green.correction near
    values := rfl
    summed := rfl
    kept := List.prefix_append _ _
    notices := by rw [List.filter_append, no_notice]; rfl
    warnings := by rw [List.filter_append, no_warning]; rfl
    reproduced := fun retried => nomatch retried }

theorem course_of_singular (accepted : green.Accepts point k bloch reading) {w : Workspace R}
    {place : Nat} (held : w.arrays[place]? = some bloch) {halves : Halves R C}
    {events : List (Event R)} (first : green.sumsFor k reading reading.bloch = done halves events)
    (singular : halves.distant.singular = true) {again : Halves R C} {later : List (Event R)}
    (second : green.sumsFor k reading (shiftedBloch k reading.bloch) = done again later) :
    ∃ result after noted, (green.evaluateIn point k place).run w = done (result, after) noted ∧
      green.Course point k reading w after result noted := by
  have near := near_of_sumsFor second
  refine ⟨_, _, _, run_singular accepted held first singular second, ?_⟩
  obtain ⟨early_notice, early_warning⟩ :=
    Event.filter_doubts (doubts_of_sumsFor accepted first)
  obtain ⟨late_notice, late_warning⟩ := Event.filter_doubts (doubts_of_sumsFor accepted second)
  obtain ⟨last_notice, last_warning⟩ := Event.filter_doubts (doubts_combine green again
    (green.splittingFor reading.reciprocal) (shiftedBloch k reading.bloch) true)
  rw [value_combine unchanged]
  exact {
    retried := ⟨halves, events, first, singular.symm⟩
    bloch := rfl
    splitting := rfl
    sums := ⟨again, later, second, rfl, rfl⟩
    inner := congrArg green.correction near
    values := rfl
    summed := List.append_assoc _ _ _
    kept := List.prefix_append _ _
    notices := by
      simp only [List.filter_append, early_notice, late_notice, last_notice]
      cases again.distant.singular <;> rfl
    warnings := by
      simp only [List.filter_append, early_warning, late_warning, last_warning]
      cases again.distant.singular <;> rfl
    reproduced := by
      intro _ regular
      obtain ⟨noted, once⟩ :=
        evaluate_regular (accepted.withBloch (shiftedBloch k reading.bloch)) second regular
      rw [value_combine unchanged] at once
      exact ⟨noted, once⟩ }

/-- An evaluation that is accepted takes its course. Only on a line, and only for a splitting
parameter whose square vanishes, it may divide by zero. -/
theorem course_or_underflow (accepted : green.Accepts point k bloch reading) {w : Workspace R}
    {place : Nat} (held : w.arrays[place]? = some bloch) :
    (∃ result after events,
      (green.evaluateIn point k place).run w = done (result, after) events ∧
      green.Course point k reading w after result events) ∨
    ((∃ events, (green.evaluateIn point k place).run w = failed .divisionByZero events) ∧
      reading.basis.Underflows (green.splittingFor reading.reciprocal)) := by
  have within : ∀ bloch, Within (fun cause => cause = .divisionByZero ∧
      reading.basis.Underflows (green.splittingFor reading.reciprocal))
      (green.sumsFor (C := C) k reading bloch) := fun bloch =>
    green.within_sums accepted.readable accepted.begins _ _ _ bloch _ _
  rcases (green.sumsFor (C := C) k reading reading.bloch).done_or_failed with
    ⟨halves, events, first⟩ | ⟨cause, events, fails⟩
  · cases singular : halves.distant.singular with
    | false => exact .inl (course_of_regular unchanged accepted held first singular)
    | true =>
      rcases (green.sumsFor (C := C) k reading
        (shiftedBloch k reading.bloch)).done_or_failed with
        ⟨again, later, second⟩ | ⟨cause, later, fails⟩
      · exact .inl (course_of_singular unchanged accepted held first singular second)
      · obtain ⟨rfl, underflows⟩ := (within _).fails cause (by rw [fails]; rfl)
        exact .inr ⟨run_failing_again accepted held first singular fails, underflows⟩
  · obtain ⟨rfl, underflows⟩ := (within _).fails cause (by rw [fails]; rfl)
    exact .inr ⟨run_failing accepted held fails, underflows⟩

end

/-! ## Machine numbers -/

theorem sub_zeroC_machine (c : Cartesian Float) : c - zeroC = c := by
  change (⟨c.re - 0.0, c.im - 0.0⟩ : Cartesian Float) = c
  rw [Double.sub_zero, Double.sub_zero]

/-- An evaluation in machine arithmetic takes its course, unless it divides by zero, whatever its
special functions give. -/
theorem evaluateIn_retries_once [SpecialFunctions (Cartesian Float)] {green : PeriodicGreen Float}
    {point bloch : RealArray Float} {k : Cartesian Float} {reading : Reading Float}
    (accepted : green.Accepts point k bloch reading) {w : Workspace Float} {place : Nat}
    (held : w.arrays[place]? = some bloch) :
    (∃ result after events,
      (green.evaluateIn point k place).run w = done (result, after) events ∧
      green.Course point k reading w after result events) ∨
    ((∃ events, (green.evaluateIn point k place).run w = failed .divisionByZero events) ∧
      reading.basis.Underflows (green.splittingFor reading.reciprocal)) :=
  course_or_underflow sub_zeroC_machine accepted held

/-- A line of sources of unit distance without its innermost cells. -/
def lineWithoutCenter : PeriodicGreen Float where
  lattice := ⟨.linear, ⟨1, 2, [], [1.0, 0.0], rfl⟩⟩
  splitting := 1.0
  excludeInner := true
  convergence :=
    { absoluteTolerance := 0.0, relativeTolerance := 1.0e-8, slotFloor := 1.0e-10
      firstRound := 1, maxShells := 5, convergedRounds := 3 }

/-- On the light line the Bloch vector, of which the second entry is left out, is as long as the
wavenumber, so that the order zero grazes the line and the sums are taken again. -/
theorem evaluateIn_on_light_line :
    ∃ reading : Reading Float,
      lineWithoutCenter.Accepts (.ofList [0.1, 0.2, 0.3]) (⟨1.0, 0.0⟩ : Cartesian Float)
        (.ofList [1.0]) reading ∧
      ∃ result after events, (lineWithoutCenter.evaluateIn (.ofList [0.1, 0.2, 0.3])
          (⟨1.0, 0.0⟩ : Cartesian Float) 0).run ⟨[.ofList [1.0]], []⟩ =
          done (result, after) events ∧
        result.retried = true ∧
        lineWithoutCenter.Course (.ofList [0.1, 0.2, 0.3]) ⟨1.0, 0.0⟩ reading
          ⟨[.ofList [1.0]], []⟩ after result events := by
  obtain ⟨reciprocal, found, grazing⟩ : ∃ r, lineWithoutCenter.lattice.reciprocal
      (⟨1.0, 0.0⟩ : Cartesian Float) ⟨0.1, 0.2, 0.3⟩ = .ok r ∧ LineOrder.isSingular
        (⟨1.0, 0.0⟩ : Cartesian Float) (1.0 - ((0 : Int) : Float) * r.gamma1.x) = true := by
    refine ⟨_, rfl, ?_⟩
    decide +kernel
  let reading : Reading Float := ⟨⟨0.1, 0.2, 0.3⟩, ⟨1.0, 0.0⟩, .line ⟨1.0, 0.0⟩, reciprocal⟩
  have accepted : lineWithoutCenter.Accepts (.ofList [0.1, 0.2, 0.3])
      (⟨1.0, 0.0⟩ : Cartesian Float) (.ofList [1.0]) reading :=
    ⟨rfl, rfl, rfl, found, by decide, rfl, fun _ => by decide⟩
  have divided : ((1.0 : Float) == 0.0) = false := by decide
  have singular : Ensures (·.distant.singular = true)
      (lineWithoutCenter.sumsFor (⟨1.0, 0.0⟩ : Cartesian Float) reading reading.bloch) :=
    lineWithoutCenter.singular_sums ⟨1.0, 0.0⟩ _ divided ⟨0, 0⟩ (by decide) grazing
  have held : [RealArray.ofList [1.0]][0]? = some (.ofList [(1.0 : Float)]) := rfl
  refine ⟨reading, accepted, ?_⟩
  rcases evaluateIn_retries_once accepted (w := ⟨[.ofList [1.0]], []⟩) held with
    ⟨result, after, events, ran, course⟩ | ⟨_, _, _, vanishes⟩
  · exact ⟨result, after, events, ran, course.retried_of_singular singular, course⟩
  · have kept : ((1.0 : Float) * 1.0 == 0.0) = false := by decide
    exact absurd (vanishes.symm.trans kept) Bool.noConfusion

end PeriodicGreen

end LatticeGreen

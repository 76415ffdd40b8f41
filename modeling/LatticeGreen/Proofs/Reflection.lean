import LatticeGreen.Proofs.InnerCorrection
import LatticeGreen.Proofs.MirroredKernels

/-!
# Reflection in the lattice plane

An evaluation at a point mirrored in the lattice plane takes the same course as at the point itself:
the same sums stop at the same shells, a singular sum is retried alike, and what is noted or fails
is the same. The values, those of both sums and the correction change the sign of the derivatives in
the direction across the plane. On a line of sources this holds across the line as well.
-/
namespace LatticeGreen

section
variable {R α β : Type}

/-- Attempts that go on alike after the answer of a first one are alike. -/
theorem Attempt.bind_congr_of_done {x : Attempt R α} {f g : α → Attempt R β}
    (alike : ∀ a events, x = done a events → f a = g a) : x >>= f = x >>= g := by
  rcases x.done_or_failed with ⟨a, events, rfl⟩ | ⟨cause, events, rfl⟩
  · rw [done_bind, done_bind, alike a events rfl]
  · rw [failed_bind, failed_bind]

theorem Attempt.ofExcept_map (f : α → β) (e : Except (Failure R) α) :
    ofExcept (f <$> e) = f <$> ofExcept e := by
  cases e <;> rfl

/-- Work on shared arrays that goes on alike after the answer of a first part is alike. -/
theorem Workspace.bind_congr_of_done {x : Working R α} {f g : α → Working R β}
    (alike : ∀ w a after events, x.run w = Attempt.done (a, after) events → f a = g a) :
    x >>= f = x >>= g := by
  funext w
  refine Attempt.bind_congr_of_done fun answer events ran => ?_
  exact congrFun (alike w answer.1 answer.2 events ran) answer.2

theorem Workspace.bind_ofExcept_congr {e : Except (Failure R) α} {f g : α → Working R β}
    (alike : ∀ a, e = .ok a → f a = g a) :
    (liftM (Attempt.ofExcept e) : Working R α) >>= f = liftM (Attempt.ofExcept e) >>= g := by
  cases e with
  | ok a => exact alike a rfl
  | error cause => rfl

end

/-- The evaluation with its slots mapped, those of its sums too. -/
def Evaluation.mapSlots {R C : Type} (f : Slots C → Slots C) (result : Evaluation R C) :
    Evaluation R C :=
  { result with
    values := f result.values
    nearby := result.nearby.mapValues f
    distant := result.distant.mapValues f
    innerCorrection := f result.innerCorrection }

/-- The pair of sums at the mirrored point. -/
noncomputable def Halves.mirror (s : Mirror) (halves : Halves ℝ ℂ) : Halves ℝ ℂ :=
  ⟨halves.near.mirror s, halves.nearby.mapValues s.slots, halves.distant.mapValues s.slots⟩

/-! ## The reciprocal lattice -/

/-- A line is as far from the mirrored point. -/
theorem Reciprocal.construct_mirror (s : Mirror) (basis : Basis ℝ) (k : ℂ) (point : Vec3 ℝ) :
    construct basis k (s.point point) = construct basis k point := by
  cases basis with
  | line a =>
    refine ofLine_congr a k fun _ => ?_
    simp only [Mirror.point]
    linear_combination point.y * point.y * s.y_square + point.z * point.z * s.z_square
  | plane a1 a2 => rfl

theorem Lattice.reciprocal_mirror (s : Mirror) (lattice : Lattice ℝ) (k : ℂ) (point : Vec3 ℝ) :
    lattice.reciprocal k (s.point point) = lattice.reciprocal k point := by
  unfold reciprocal
  refine bind_congr fun basis => ?_
  rw [Reciprocal.construct_mirror]

/-- One row is read as a line. -/
theorem Reciprocal.exists_line_of_readBasis {array : RealArray ℝ} {columns : List Nat}
    (row : array.shape = 1 :: columns) {basis : Basis ℝ} (read : readBasis array = .ok basis) :
    ∃ a, basis = .line a := by
  unfold readBasis at read
  rw [row] at read
  split at read
  · exact ⟨_, (Except.ok.inj read).symm⟩
  all_goals simp_all

/-- Where a lattice has a reciprocal lattice, its sources are mirrored onto themselves. -/
theorem Lattice.fits_of_reciprocal {s : Mirror} {lattice : Lattice ℝ}
    (across : s.y = 1 ∨ lattice.dimension = 1) {basis : Basis ℝ}
    (vectors : lattice.vectors = .ok basis) {k : ℂ} {point : Vec3 ℝ} {r : Reciprocal ℝ}
    (accepted : lattice.reciprocal k point = .ok r) : s.Fits basis := by
  rcases across with level | line
  · exact .inl level
  have row : lattice.basis.toArray.shape = 1 :: (lattice.basis.columns :: lattice.basis.inner) :=
    congrArg (· :: _) line
  obtain ⟨a, rfl⟩ := Reciprocal.exists_line_of_readBasis row vectors
  have built : Reciprocal.construct (.line a) k point = .ok r := by
    unfold reciprocal at accepted
    rw [vectors] at accepted
    change (Reciprocal.construct (.line a) k point).mapError Failure.configuration = _ at accepted
    cases built : Reciprocal.construct (.line a) k point with
    | ok r' =>
      rw [built] at accepted
      exact congrArg Except.ok (Except.ok.inj accepted)
    | error cause =>
      rw [built] at accepted
      cases accepted
  exact .inr ⟨a, rfl, (Reciprocal.spans_of_construct built).2⟩

section
variable [SpecialFunctions ℂ]

namespace PeriodicGreen
open Attempt

theorem sums_mirror (green : PeriodicGreen ℝ) {s : Mirror} {basis : Basis ℝ}
    (fits : s.Fits basis) (point : Vec3 ℝ) (k : ℂ) (bloch : Vec2 ℝ) (eta : ℝ) (r : Reciprocal ℝ) :
    green.sums basis (s.point point) k bloch eta r =
      Halves.mirror s <$> green.sums basis point k bloch eta r := by
  let near : Nearby ℝ ℂ := ⟨point, k, bloch, basis, eta⟩
  let far : Distant ℝ ℂ := ⟨basis.periodicity, point, k, bloch, r, eta⟩
  have onto : s.Fits near.basis := fits
  have nearby := Nearby.construct_mirror onto green.convergence green.excludeInner green.obstacles
  have level : far.periodicity = .plane → s.y = 1 := by
    intro plane
    rcases fits with level | ⟨a, rfl, -⟩
    · exact level
    · cases plane
  have distant := Distant.construct_mirror level green.convergence green.obstacles
  rw [sums_eq, sums_eq]
  simp only [map_bind, map_pure]
  change (near.mirror s).construct _ _ _ >>= _ = _
  rw [nearby, bind_map_left]
  refine bind_congr fun sum => ?_
  change (far.mirror s).construct _ _ >>= _ = _
  rw [distant, bind_map_left]
  rfl

theorem basis_of_sums {green : PeriodicGreen ℝ} {basis : Basis ℝ} {point : Vec3 ℝ} {k : ℂ}
    {bloch : Vec2 ℝ} {eta : ℝ} {r : Reciprocal ℝ} {halves : Halves ℝ ℂ} {events : List (Event ℝ)}
    (summed : green.sums basis point k bloch eta r = done halves events) :
    halves.near.basis = basis := by
  rw [sums_eq] at summed
  obtain ⟨nearby, _, _, _, rest⟩ := exists_of_bind_eq_done summed
  obtain ⟨distant, _, _, _, rest⟩ := exists_of_bind_eq_done rest
  exact congrArg (·.near.basis) (done_inj.mp rest).1.symm

theorem sumsAt_mirror (green : PeriodicGreen ℝ) {s : Mirror} {basis : Basis ℝ}
    (fits : s.Fits basis) (point : Vec3 ℝ) (k : ℂ) (eta : ℝ) (r : Reciprocal ℝ) (place : Nat) :
    green.sumsAt basis (s.point point) k eta r place =
      Halves.mirror s <$> green.sumsAt basis point k eta r place := by
  unfold sumsAt
  rw [map_bind]
  refine bind_congr fun bloch => ?_
  funext w
  change (green.sumsIn basis (s.point point) k bloch eta r).run w =
    (Halves.mirror s <$> green.sumsIn basis point k bloch eta r).run w
  rw [StateT.run_map, run_sumsIn, run_sumsIn, sums_mirror green fits, map_bind, bind_map_left]
  rfl

theorem basis_of_sumsAt {green : PeriodicGreen ℝ} {basis : Basis ℝ} {point : Vec3 ℝ} {k : ℂ}
    {eta : ℝ} {r : Reciprocal ℝ} {place : Nat} {w after : Workspace ℝ} {halves : Halves ℝ ℂ}
    {events : List (Event ℝ)} (summed : (green.sumsAt basis point k eta r place).run w =
      done (halves, after) events) : halves.near.basis = basis := by
  obtain ⟨⟨bloch, w⟩, _, _, _, rest⟩ := exists_of_bind_eq_done summed
  change (green.sumsIn basis point k bloch eta r).run w = _ at rest
  rw [run_sumsIn] at rest
  obtain ⟨halves', _, _, asked, rest⟩ := exists_of_bind_eq_done rest
  obtain rfl : halves' = halves := congrArg Prod.fst (done_inj.mp rest).1
  exact basis_of_sums asked

theorem combine_mirror (green : PeriodicGreen ℝ) {s : Mirror} {halves : Halves ℝ ℂ}
    (fits : s.Fits halves.near.basis) (eta : ℝ) (bloch : Vec2 ℝ) (retried : Bool) :
    green.combine (halves.mirror s) eta bloch retried =
      Evaluation.mapSlots s.slots <$> green.combine halves eta bloch retried := by
  have total : (halves.mirror s).nearby.values + (halves.mirror s).distant.values =
      s.slots (halves.nearby.values + halves.distant.values) := (s.symmetry.add _ _).symm
  unfold combine
  rw [total]
  split
  · change (halves.near.mirror s).longRange _ >>= _ = _
    rw [Nearby.longRange_mirror fits, bind_map_left, map_bind]
    refine bind_congr fun inner => ?_
    rw [map_pure, ← s.symmetry.sub]
    rfl
  · rw [map_pure]
    refine congrArg pure ?_
    simp only [Evaluation.mapSlots, s.slots_zero]
    rfl

theorem liftM_combine_mirror (green : PeriodicGreen ℝ) {s : Mirror} {halves : Halves ℝ ℂ}
    (fits : s.Fits halves.near.basis) (eta : ℝ) (bloch : Vec2 ℝ) (retried : Bool) :
    (liftM (green.combine (halves.mirror s) eta bloch retried) : Working ℝ (Evaluation ℝ ℂ)) =
      Evaluation.mapSlots s.slots <$> liftM (green.combine halves eta bloch retried) := by
  rw [combine_mirror green fits, liftM_map]

/-- The first sums at the mirrored point decide alike on the second ones, which mirror alike. -/
theorem evaluateAt_mirror (green : PeriodicGreen ℝ) {s : Mirror}
    (across : s.y = 1 ∨ green.lattice.dimension = 1) (point : Vec3 ℝ) (k : ℂ) (place : Nat) :
    green.evaluateAt (s.point point) k place =
      Evaluation.mapSlots s.slots <$> green.evaluateAt point k place := by
  unfold evaluateAt
  rw [map_bind]
  refine Workspace.bind_ofExcept_congr fun basis vectors => ?_
  rw [map_bind, Lattice.reciprocal_mirror]
  refine Workspace.bind_ofExcept_congr fun r accepted => ?_
  have fits := Lattice.fits_of_reciprocal across vectors accepted
  -- From here on the splitting parameter is the same number.
  dsimp only
  rw [map_bind]
  refine bind_congr fun _ => ?_
  rw [sumsAt_mirror green fits, bind_map_left, map_bind]
  -- The correction is taken with the basis that the sums hand on, so it has to be the same one.
  refine Workspace.bind_congr_of_done fun w halves after events summed => ?_
  have same := basis_of_sumsAt summed
  have singular : (halves.mirror s).distant.singular = halves.distant.singular := rfl
  rw [singular]
  split
  · simp only [map_bind]
    refine bind_congr fun _ => bind_congr fun _ => bind_congr fun _ => bind_congr fun _ => ?_
    rw [sumsAt_mirror green fits, bind_map_left]
    refine Workspace.bind_congr_of_done fun w again after events summed => ?_
    have same := basis_of_sumsAt summed
    have singular : (again.mirror s).distant.singular = again.distant.singular := rfl
    rw [singular]
    split
    · simp only [map_bind]
      refine bind_congr fun _ => ?_
      exact bind_congr fun bloch => liftM_combine_mirror green (same ▸ fits) _ bloch true
    · rw [map_bind]
      exact bind_congr fun bloch => liftM_combine_mirror green (same ▸ fits) _ bloch true
  · rw [map_bind]
    exact bind_congr fun bloch => liftM_combine_mirror green (same ▸ fits) _ bloch false

/-- An array that is read as the mirrored point is evaluated like the array of the point. -/
theorem evaluate_mirror (green : PeriodicGreen ℝ) {s : Mirror}
    (across : s.y = 1 ∨ green.lattice.dimension = 1) {point point' : RealArray ℝ}
    (mirrored : readPoint point' = s.point <$> readPoint point) (k : ℂ) (bloch : RealArray ℝ) :
    green.evaluate point' k bloch =
      Evaluation.mapSlots s.slots <$> green.evaluate point k bloch := by
  have inside : green.evaluateIn point' k 0 =
      Evaluation.mapSlots s.slots <$> green.evaluateIn point k 0 := by
    unfold evaluateIn
    rw [mirrored, ofExcept_map, liftM_map, bind_map_left, map_bind]
    refine bind_congr fun p => ?_
    simp only [map_bind]
    refine bind_congr fun array => bind_congr fun phase => bind_congr fun copy => ?_
    split
    · rw [map_bind]
      refine bind_congr fun copied => ?_
      rw [map_pure]
      refine congrArg pure ?_
      unfold Evaluation.mapSlots zeroEvaluation
      rw [LatticeSum.mapValues_empty s.symmetry, s.slots_zero]
    · exact evaluateAt_mirror green across p k copy
  unfold evaluate
  rw [inside, StateT.run_map, Functor.map_map, Functor.map_map]

end PeriodicGreen

end

/-! ## Both reflections -/

/-- The reflection in the lattice plane. -/
def Mirror.inPlane : Mirror := ⟨1, -1, by norm_num, by norm_num⟩

/-- The reflection across a line along x. -/
def Mirror.acrossLine : Mirror := ⟨-1, 1, by norm_num, by norm_num⟩

/-- The derivatives in the height have the other sign. -/
def Slots.reflectHeight (t : Slots ℂ) : Slots ℂ :=
  { t with dz := -t.dz, dxdz := -t.dxdz, dydz := -t.dydz, dxdydz := -t.dxdydz }

/-- The derivatives across the line, along the plane, have the other sign. -/
def Slots.reflectAcross (t : Slots ℂ) : Slots ℂ :=
  { t with dy := -t.dy, dxdy := -t.dxdy, dydz := -t.dydz, dxdydz := -t.dxdydz }

theorem Mirror.slots_inPlane : inPlane.slots = Slots.reflectHeight := by
  funext t
  simp [slots, inPlane, Slots.reflectHeight]

theorem Mirror.slots_acrossLine : acrossLine.slots = Slots.reflectAcross := by
  funext t
  simp [slots, acrossLine, Slots.reflectAcross]

namespace PeriodicGreen

/-- A point of another length is refused with the same words. -/
theorem readPoint_modify_height (point : RealArray ℝ) :
    readPoint (point.modify 2 (- ·)) = Mirror.inPlane.point <$> readPoint point := by
  obtain ⟨shape, entries, size⟩ := point
  match entries with
  | [] | [_] | [_, _] => rfl
  | [x, y, z] =>
    change Except.ok (⟨x, y, -z⟩ : Vec3 ℝ) = .ok ⟨x, 1 * y, -1 * z⟩
    rw [one_mul, neg_one_mul]
  | _ :: _ :: _ :: _ :: _ => rfl

theorem readPoint_modify_across (point : RealArray ℝ) :
    readPoint (point.modify 1 (- ·)) = Mirror.acrossLine.point <$> readPoint point := by
  obtain ⟨shape, entries, size⟩ := point
  match entries with
  | [] | [_] | [_, _] => rfl
  | [x, y, z] =>
    change Except.ok (⟨x, -y, z⟩ : Vec3 ℝ) = .ok ⟨x, -1 * y, 1 * z⟩
    rw [one_mul, neg_one_mul]
  | _ :: _ :: _ :: _ :: _ => rfl

section
variable [SpecialFunctions ℂ]

/-- At the point mirrored in the lattice plane an evaluation ends as at the point itself, with the
same counts, verdicts and events, and with the other sign of the derivatives in the height. On a
line the same holds across the line. Arguments that are accepted have a result. -/
theorem evaluate_reflected (green : PeriodicGreen ℝ) (point : RealArray ℝ) (k : ℂ)
    (bloch : RealArray ℝ) :
    green.evaluate (point.modify 2 (- ·)) k bloch =
        Evaluation.mapSlots Slots.reflectHeight <$> green.evaluate point k bloch ∧
      (green.lattice.dimension = 1 → green.evaluate (point.modify 1 (- ·)) k bloch =
        Evaluation.mapSlots Slots.reflectAcross <$> green.evaluate point k bloch) ∧
      ∀ reading, green.Accepts point k bloch reading →
        ∃ result events, green.evaluate point k bloch = Attempt.done result events := by
  refine ⟨?_, fun line => ?_, fun reading accepted => ?_⟩
  · rw [← Mirror.slots_inPlane]
    exact evaluate_mirror green (.inl rfl) (readPoint_modify_height point) k bloch
  · rw [← Mirror.slots_acrossLine]
    exact evaluate_mirror green (.inr line) (readPoint_modify_across point) k bloch
  · obtain ⟨result, _, _, noted, ran, _⟩ := evaluate_course accepted
    exact ⟨result, noted, ran⟩

end

/-- The unit line of sources without its innermost cells, for the splitting parameter that suits the
point. -/
noncomputable def outerUnitLine : PeriodicGreen ℝ where
  lattice := ⟨.linear, ⟨1, 2, [], [1, 0], rfl⟩⟩
  splitting := automatic
  excludeInner := true
  convergence :=
    { absoluteTolerance := 0, relativeTolerance := 1e-8, slotFloor := 1e-10
      firstRound := 1, maxShells := 5, convergedRounds := 3 }

/-- The unit line accepts every wavenumber but zero and every Bloch vector along it, and chooses a
splitting parameter that splits. -/
theorem exists_accepts_outerUnitLine {k : ℂ} (wave : k ≠ 0) (x : ℝ) :
    ∃ r : Reciprocal ℝ, outerUnitLine.Accepts (.ofList [0.1, 0.2, 0.3]) k (.ofList [x])
      ⟨⟨0.1, 0.2, 0.3⟩, ⟨x, 0.0⟩, .line ⟨1, 0⟩, r⟩ ∧ outerUnitLine.splittingFor r ≠ 0 := by
  have spans : (Basis.line ⟨1, 0⟩).Spans := by norm_num [Basis.Spans]
  have vectors : outerUnitLine.lattice.vectors = .ok (.line ⟨1, 0⟩) := rfl
  have place : readPoint (.ofList [0.1, 0.2, 0.3]) =
    .ok (⟨0.1, 0.2, 0.3⟩ : Vec3 ℝ) := rfl
  have phase : readBloch outerUnitLine.lattice.dimension (.ofList [x]) =
    .ok (⟨x, 0.0⟩ : Vec2 ℝ) := rfl
  obtain ⟨r, built, accepted⟩ := exists_accepts vectors spans place phase wave
    outerUnitLine.splitting (c := outerUnitLine.convergence) (by decide)
  have chosen : outerUnitLine.splittingFor r = r.optimalSplitting := if_pos (beq_self_eq_true _)
  refine ⟨r, accepted true, ?_⟩
  rw [chosen]
  exact (Reciprocal.optimalSplitting_bounds built).1.ne'

/-- On the light line the order zero grazes the unit line. -/
theorem retried_outerUnitLine {result : Evaluation ℝ ℂ} {events : List (Event ℝ)}
    (ran : outerUnitLine.evaluate (.ofList [0.1, 0.2, 0.3]) (1 : ℂ) (.ofList [1]) =
      Attempt.done result events) : result.retried = true := by
  obtain ⟨r, accepted, split⟩ := exists_accepts_outerUnitLine one_ne_zero 1
  refine retried_of_grazing accepted rfl split ⟨0, 0⟩ (by decide) ?_ ran
  have vanishes : LineOrder.transverse (1 : ℂ) (1 - ((0 : Int) : ℝ) * r.gamma1.x) = 0 := by
    apply Complex.ext <;> norm_num [LineOrder.transverse, transverseSquare]
  change grazes (1 : ℂ) (√‖LineOrder.transverse (1 : ℂ) (1 - ((0 : Int) : ℝ) * r.gamma1.x)‖) = true
  rw [vanishes, norm_zero, Real.sqrt_zero]
  norm_num [grazes, singularThreshold]

/-- On the light line, where the sums are taken again, both reflections are seen at one point. -/
theorem evaluate_reflected_on_light_line :
    ∃ result : Evaluation ℝ ℂ, ∃ events,
      outerUnitLine.evaluate (.ofList [0.1, 0.2, 0.3]) (1 : ℂ) (.ofList [1]) =
        Attempt.done result events ∧ result.retried = true ∧
      outerUnitLine.evaluate (.ofList [0.1, 0.2, -0.3]) (1 : ℂ) (.ofList [1]) =
        Attempt.done (result.mapSlots Slots.reflectHeight) events ∧
      outerUnitLine.evaluate (.ofList [0.1, -0.2, 0.3]) (1 : ℂ) (.ofList [1]) =
        Attempt.done (result.mapSlots Slots.reflectAcross) events := by
  obtain ⟨r, accepted, -⟩ := exists_accepts_outerUnitLine one_ne_zero 1
  obtain ⟨height, across, ends⟩ := evaluate_reflected outerUnitLine
    (.ofList [0.1, 0.2, 0.3]) 1 (.ofList [1])
  obtain ⟨result, events, ran⟩ := ends _ accepted
  have across := across rfl
  rw [ran, Attempt.map_done] at height across
  exact ⟨result, events, ran, retried_outerUnitLine ran, height, across⟩

end PeriodicGreen

end LatticeGreen

import LatticeGreen.Proofs.InnerCorrection
import LatticeGreen.Proofs.ReciprocalDuality
import LatticeGreen.Proofs.SumSymmetry

/-!
# Steps along the lattice and along its reciprocal lattice

In exact arithmetic a step of the point along the lattice turns the distant sum and the cells of the
nearby sum by the Bloch phase of the step. A step of the Bloch vector along the reciprocal lattice
keeps the phases of all cells and renames the orders.
-/
namespace LatticeGreen
open Complex (I exp)

/-- The factor of a phase. -/
noncomputable def turn (angle : ℝ) (c : ℂ) : ℂ := exp (I * angle) * c

theorem Slots.symmetry_turn (angle : ℝ) : Slots.Symmetry (Slots.map (turn angle)) := by
  have rotated := Slots.symmetry_zipWith
    (Slots.replicate (rotation (Circle.exp angle)).toLinearIsometry)
  have factor : ∀ c, (rotation (Circle.exp angle)).toLinearIsometry c = turn angle c := by
    intro c
    rw [LinearIsometryEquiv.coe_toLinearIsometry, rotation_apply, Circle.coe_exp, mul_comm _ I,
      turn]
  have same : Slots.map (turn angle) = Slots.zipWith (fun isometry c => isometry c)
      (Slots.replicate (rotation (Circle.exp angle)).toLinearIsometry) := by
    funext s
    simp only [Slots.map, Slots.zipWith, Slots.replicate, factor]
  rw [same]
  exact rotated

/-- Angles that are whole turns apart make one factor. -/
theorem turn_congr {x y : ℝ} {turns : ℤ} (turned : y = x + turns * (2 * Real.pi)) :
    turn y = turn x := by
  funext c
  unfold turn
  rw [exp_turns turned]

/-- What a nearby sum depends on, with the point moved to another cell. -/
def Nearby.translate (near : Nearby ℝ ℂ) (n : Cell) : Nearby ℝ ℂ :=
  { near with point := near.point.translate (near.latticePoint n) }

/-- The distant sum that goes with a nearby sum. -/
def Nearby.distant (near : Nearby ℝ ℂ) (r : Reciprocal ℝ) : Distant ℝ ℂ :=
  ⟨near.basis.periodicity, near.point, near.wavenumber, near.bloch, r, near.splitting⟩

section
variable [SpecialFunctions ℂ]

/-! ## Orders at a point that is moved -/

theorem PlaneOrder.term_translate (k : ℂ) (eta : ℝ) (point : Vec3 ℝ) (l p : Vec2 ℝ) :
    term k eta (point.translate l) p = (term k eta point p).map (turn (p.dot l)) := by
  have angle : p.dot (point.translate l).planar = p.dot l + p.dot point.planar := by
    simp only [Vec2.dot, Vec3.planar, Vec3.translate]
    ring
  have height : (point.translate l).z = point.z := rfl
  simp only [term, Slots.map, turn, cexp_exact, ofReal_exact, imaginaryUnit_exact, angle,
    exp_add_angle, height, Slots.mk.injEq]
  refine ⟨?_, ?_, ?_, ?_, ?_, ?_, ?_, ?_⟩ <;> ring

omit [SpecialFunctions ℂ] in
theorem LineOrder.phase_eq (kx x : ℝ) : phase kx x = exp (I * (kx * x : ℝ)) := by
  simp only [phase, cexp_exact, imaginaryUnit_exact, ofReal_exact, Complex.ofReal_mul, mul_assoc]

/-- Along the line a step changes the phase of an order alone. -/
theorem LineOrder.term_translate (k : ℂ) (rho eta : ℝ) (point : Vec3 ℝ) {l : Vec2 ℝ}
    (straight : l.y = 0) (kx : ℝ) :
    term k rho eta (point.translate l) kx =
      Slots.map (turn (kx * l.x)) <$> term k rho eta point kx := by
  have moved : phase kx (point.translate l).x = exp (I * (kx * l.x : ℝ)) * phase kx point.x := by
    rw [phase_eq, phase_eq, Vec3.translate, mul_add, add_comm, exp_add_angle]
  have across : (point.translate l).y = point.y := by
    simp only [Vec3.translate, straight, add_zero]
  have height : (point.translate l).z = point.z := rfl
  unfold term
  rw [moved, across, height, map_bind]
  refine bind_congr fun g => ?_
  simp only [map_pure, Slots.map, finiteOrZero_exact, turn, mul_assoc]

omit [SpecialFunctions ℂ] in
/-- The vector of an order makes the Bloch phase of a step, up to whole turns. -/
theorem Distant.dot_shifted (near : Nearby ℝ ℂ) {r : Reciprocal ℝ}
    (accepted : Reciprocal.construct near.basis near.wavenumber near.point = .ok r)
    (n cell : Cell) :
    ∃ turns : ℤ, ((near.distant r).shifted cell).dot (near.latticePoint n) =
      (near.latticePoint n).dot near.bloch + turns * (2 * Real.pi) := by
  obtain ⟨turns, whole⟩ := Reciprocal.dot_latticePoint_vector near accepted n cell
  refine ⟨-turns, ?_⟩
  simp only [Vec2.dot] at whole
  simp only [Distant.shifted, Nearby.distant, Vec2.dot]
  push_cast
  linear_combination -whole

omit [SpecialFunctions ℂ] in
theorem Distant.along_eq_x_shifted (near : Nearby ℝ ℂ) {r : Reciprocal ℝ}
    (none : r.gamma2 = ⟨0, 0⟩) (cell : Cell) :
    (near.distant r).along cell = ((near.distant r).shifted cell).x := by
  simp only [along, shifted, Nearby.distant, Reciprocal.vector, none, mul_zero, add_zero]

/-- A step along the lattice turns every order by the Bloch phase of the step. -/
theorem Distant.shell_translate (near : Nearby ℝ ℂ) {r : Reciprocal ℝ}
    (accepted : Reciprocal.construct near.basis near.wavenumber near.point = .ok r) (n : Cell)
    (cells : List Cell) :
    ((near.translate n).distant r).shell cells =
      Contribution.mapSlots (Slots.map (turn ((near.latticePoint n).dot near.bloch))) <$>
        (near.distant r).shell cells := by
  have angle := Distant.dot_shifted near accepted n
  have symmetry := Slots.symmetry_turn ((near.latticePoint n).dot near.bloch)
  obtain ⟨point, k, bloch, basis, eta⟩ := near
  cases basis with
  | line a =>
    obtain ⟨-, -, none⟩ := Reciprocal.gamma_ofLine accepted
    have straight : a.y = 0 := (Reciprocal.spans_of_construct accepted).2
    let near : Nearby ℝ ℂ := ⟨point, k, bloch, .line a, eta⟩
    have flat : (near.latticePoint n).y = 0 := by
      simp only [near, Nearby.latticePoint, straight, mul_zero]
    have mapped : ∀ kx ∈ cells.map (near.distant r).along,
        LineOrder.term k r.rho eta (point.translate (near.latticePoint n)) kx =
          Slots.map (turn ((near.latticePoint n).dot bloch)) <$>
            LineOrder.term k r.rho eta point kx := by
      intro kx member
      obtain ⟨cell, -, rfl⟩ := List.mem_map.mp member
      obtain ⟨turns, turned⟩ := angle cell
      -- The step has no component across the line, so the wavenumber along it is enough.
      have product : (near.distant r).along cell * (near.latticePoint n).x =
          (near.latticePoint n).dot bloch + turns * (2 * Real.pi) := by
        rw [← turned, along_eq_x_shifted _ none, Vec2.dot, flat, mul_zero, add_zero]
      rw [LineOrder.term_translate k r.rho eta point flat, turn_congr product]
    exact LineOrder.shell_zero_mapSlots symmetry k _ mapped
  | plane a1 a2 =>
    refine congrArg pure (PlaneOrder.shell_mapSlots symmetry k eta _ fun p member => ?_)
    obtain ⟨cell, -, rfl⟩ := List.mem_map.mp member
    obtain ⟨turns, turned⟩ := angle cell
    rw [← turn_congr turned]
    exact PlaneOrder.term_translate k eta point _ _

theorem Distant.construct_translate (near : Nearby ℝ ℂ) {r : Reciprocal ℝ}
    (accepted : Reciprocal.construct near.basis near.wavenumber near.point = .ok r) (n : Cell)
    (c : Convergence ℝ) (obstacles : Obstacles ℝ) :
    ((near.translate n).distant r).construct c obstacles =
      LatticeSum.mapValues (Slots.map (turn ((near.latticePoint n).dot near.bloch))) <$>
        (near.distant r).construct c obstacles := by
  have symmetry := Slots.symmetry_turn ((near.latticePoint n).dot near.bloch)
  have periodicity : ((near.translate n).distant r).periodicity = (near.distant r).periodicity :=
    rfl
  have splitting : ((near.translate n).distant r).splitting = (near.distant r).splitting := rfl
  have reciprocal : ((near.translate n).distant r).reciprocal = (near.distant r).reciprocal := rfl
  exact Distant.construct_mapSlots symmetry periodicity splitting reciprocal
    (Distant.shell_translate near accepted n) c obstacles

/-! ## Cells at a point that is moved -/

/-- A phase is a factor of the short-range half. -/
theorem ShortRange.term_turn (k : ℂ) (eta : ℝ) (d : Vec3 ℝ) (angle : ℝ) (phase : ℂ) :
    term k eta ⟨d, turn angle phase⟩ = (term k eta ⟨d, phase⟩).map (turn angle) := by
  unfold term
  dsimp only
  split
  · simp only [Slots.map, finiteOrZero_exact, turn, mul_div_assoc, mul_assoc]
  · simp only [Slots.map, Slots.zero, Slots.replicate, zeroC_exact, turn, mul_zero]

omit [SpecialFunctions ℂ] in
theorem FreeSpace.term_turn (k : ℂ) (d : Vec3 ℝ) (angle : ℝ) (phase : ℂ) :
    term k d (turn angle phase) = (term k d phase).map (turn angle) := by
  rw [term_eq_map_green, term_eq_map_green k d phase]
  simp only [Slots.map, turn, mul_assoc]

namespace Nearby

omit [SpecialFunctions ℂ] in
theorem latticePoint_eq_add (near : Nearby ℝ ℂ) (n cell : Cell) :
    near.latticePoint cell = near.latticePoint (cell - n) + near.latticePoint n := by
  unfold latticePoint
  cases near.basis with
  | line a =>
    refine congrArg₂ Vec2.mk ?_ ?_ <;>
    · simp only [Cell.n1_sub]
      push_cast
      ring
  | plane a1 a2 =>
    refine congrArg₂ Vec2.mk ?_ ?_ <;>
    · simp only [Cell.n1_sub, Cell.n2_sub]
      push_cast
      ring

omit [SpecialFunctions ℂ] in
/-- Seen from the moved point a cell is where the cell before the step was, with one more phase. -/
theorem source_translate (near : Nearby ℝ ℂ) (n cell : Cell) :
    (near.translate n).source cell = ⟨near.displacement (cell - n),
      turn ((near.latticePoint n).dot near.bloch) (near.phase (cell - n))⟩ := by
  have stepped := near.latticePoint_eq_add n cell
  have same : (near.translate n).latticePoint cell = near.latticePoint cell := rfl
  have place : (near.translate n).displacement cell = near.displacement (cell - n) := by
    unfold displacement
    rw [same, stepped]
    simp only [translate, Vec3.translate, Vec2.x_add, Vec2.y_add, add_sub_add_right_eq_sub]
  have angle : (near.latticePoint cell).dot near.bloch =
      (near.latticePoint n).dot near.bloch + (near.latticePoint (cell - n)).dot near.bloch := by
    rw [stepped]
    simp only [Vec2.dot, Vec2.x_add, Vec2.y_add]
    ring
  have turned : (near.translate n).phase cell =
      turn ((near.latticePoint n).dot near.bloch) (near.phase (cell - n)) := by
    simp only [phase, turn, same, cexp_exact, imaginaryUnit_exact, ofReal_exact]
    rw [← exp_add_angle, ← angle]
    rfl
  unfold source
  rw [place, turned]

theorem term_translate (near : Nearby ℝ ℂ) (n cell : Cell) :
    (near.translate n).term cell =
      (near.term (cell - n)).map (turn ((near.latticePoint n).dot near.bloch)) := by
  unfold term
  simp only [near.source_translate n cell]
  rw [FreeSpace.term_turn, ShortRange.term_turn]
  have whole : (near.translate n).splitting = near.splitting := rfl
  rw [whole]
  split
  · rfl
  · rfl

/-- In exact arithmetic a distant sum has a result for every splitting parameter. -/
theorem exists_distant (near : Nearby ℝ ℂ) (r : Reciprocal ℝ) (c : Convergence ℝ) :
    ∃ result events, (near.distant r).construct c = Attempt.done result events := by
  have periodic : (near.distant r).periodicity ≠ .unspecified := by
    unfold distant Basis.periodicity
    cases near.basis <;> simp
  have certain : Attempt.Within (fun _ => False) ((near.distant r).construct c) := by
    refine ((near.distant r).within_construct periodic c).weaken ?_
    rintro _ ⟨-, -, divided, vanishes⟩
    rw [beq_zero_exact] at divided vanishes
    simp_all
  obtain ⟨result, events, summed, -⟩ := certain.exists_done
  exact ⟨result, events, summed⟩

end Nearby

/-! ## A Bloch vector that is moved -/

omit [SpecialFunctions ℂ] in
theorem Reciprocal.vector_add (r : Reciprocal ℝ) (cell m : Cell) :
    r.vector (cell + m) = r.vector cell + r.vector m := by
  refine congrArg₂ Vec2.mk ?_ ?_ <;>
  · simp only [vector, Cell.n1_add, Cell.n2_add]
    push_cast
    ring

/-- What a nearby sum depends on, with the Bloch vector moved along the reciprocal lattice. -/
def Nearby.moveBloch (near : Nearby ℝ ℂ) (r : Reciprocal ℝ) (m : Cell) : Nearby ℝ ℂ :=
  { near with bloch := near.bloch + r.vector m }

namespace Nearby

omit [SpecialFunctions ℂ] in
/-- The phases of the cells are the same. -/
theorem source_moveBloch (near : Nearby ℝ ℂ) {r : Reciprocal ℝ}
    (accepted : Reciprocal.construct near.basis near.wavenumber near.point = .ok r) (m : Cell) :
    (near.moveBloch r m).source = near.source := by
  funext cell
  obtain ⟨turns, whole⟩ := Reciprocal.dot_latticePoint_vector near accepted cell m
  have angle : (near.latticePoint cell).dot (near.bloch + r.vector m) =
      (near.latticePoint cell).dot near.bloch + turns * (2 * Real.pi) := by
    rw [← whole]
    simp only [Vec2.dot, Vec2.x_add, Vec2.y_add]
    ring
  have same : (near.moveBloch r m).phase cell = near.phase cell := by
    unfold phase
    simp only [cexp_exact, imaginaryUnit_exact, ofReal_exact]
    exact exp_turns angle
  exact congrArg (Source.mk _) same

theorem construct_moveBloch (near : Nearby ℝ ℂ) {r : Reciprocal ℝ}
    (accepted : Reciprocal.construct near.basis near.wavenumber near.point = .ok r) (m : Cell)
    (c : Convergence ℝ) (excludeInner : Bool) (obstacles : Obstacles ℝ) :
    (near.moveBloch r m).construct c excludeInner obstacles =
      near.construct c excludeInner obstacles := by
  unfold construct shell
  rw [near.source_moveBloch accepted m]
  rfl

theorem longRange_moveBloch (near : Nearby ℝ ℂ) {r : Reciprocal ℝ}
    (accepted : Reciprocal.construct near.basis near.wavenumber near.point = .ok r) (m : Cell)
    (cells : List Cell) : (near.moveBloch r m).longRange cells = near.longRange cells := by
  unfold longRange
  rw [near.source_moveBloch accepted m]
  rfl

end Nearby

namespace Distant

/-- Whether an order is singular, and its term. -/
noncomputable def order (sum : Distant ℝ ℂ) (cell : Cell) : Bool × Attempt ℝ (Slots ℂ) :=
  match sum.periodicity with
  | .unspecified => (false, Attempt.fail .noTerms)
  | .line =>
    (LineOrder.isSingular sum.wavenumber (sum.along cell),
      LineOrder.term sum.wavenumber sum.reciprocal.rho sum.splitting sum.point (sum.along cell))
  | .plane =>
    (grazes sum.wavenumber (modulus (PlaneOrder.propagation sum.wavenumber (sum.shifted cell))),
      pure (PlaneOrder.term sum.wavenumber sum.splitting sum.point (sum.shifted cell)))

/-- Asked for one order, a sum looks whether it is singular before it takes its term. -/
theorem shell_singleton (sum : Distant ℝ ℂ) (cell : Cell) :
    sum.shell [cell] =
      if (sum.order cell).1 then pure ⟨Slots.zero, true⟩
      else (fun slots => ⟨slots, false⟩) <$> (sum.order cell).2 := by
  have alone : ∀ slots : Slots ℂ, Slots.zero + slots = slots := zero_add
  unfold shell order
  cases sum.periodicity with
  | unspecified => rfl
  | line =>
    simp only [List.map_cons, List.map_nil, LineOrder.shell]
    split
    · rfl
    · simp only [alone, map_eq_pure_bind]
  | plane =>
    simp only [List.map_cons, List.map_nil, PlaneOrder.shell, PlaneOrder.anySingular, List.any_cons,
      List.any_nil, Bool.or_false, map_pure]
    split
    · rfl
    · simp only [Slots.sum, List.foldl_cons, List.foldl_nil, alone]

omit [SpecialFunctions ℂ] in
theorem shifted_moveBloch (near : Nearby ℝ ℂ) (r : Reciprocal ℝ) (cell m : Cell) :
    ((near.moveBloch r m).distant r).shifted (cell + m) = (near.distant r).shifted cell := by
  unfold shifted
  simp only [Nearby.distant, Nearby.moveBloch, r.vector_add, Vec2.x_add, Vec2.y_add,
    add_sub_add_right_eq_sub]

/-- Each order takes the place of another. -/
theorem order_moveBloch (near : Nearby ℝ ℂ) {r : Reciprocal ℝ}
    (accepted : Reciprocal.construct near.basis near.wavenumber near.point = .ok r)
    (m cell : Cell) :
    ((near.moveBloch r m).distant r).order (cell + m) = (near.distant r).order cell := by
  have shifted := shifted_moveBloch near r cell m
  obtain ⟨point, k, bloch, basis, eta⟩ := near
  cases basis with
  | line a =>
    obtain ⟨-, -, none⟩ := Reciprocal.gamma_ofLine accepted
    have along := congrArg Vec2.x shifted
    rw [← along_eq_x_shifted _ none, ← along_eq_x_shifted _ none] at along
    change (LineOrder.isSingular k _, LineOrder.term k r.rho eta point _) = _
    rw [along]
    rfl
  | plane a1 a2 =>
    change (grazes k (modulus (PlaneOrder.propagation k _)),
      pure (PlaneOrder.term k eta point _)) = _
    rw [shifted]
    rfl

theorem shell_moveBloch (near : Nearby ℝ ℂ) {r : Reciprocal ℝ}
    (accepted : Reciprocal.construct near.basis near.wavenumber near.point = .ok r) (m : Cell)
    (cells : List Cell) :
    ((near.moveBloch r m).distant r).shell (cells.map (· + m)) = (near.distant r).shell cells := by
  have shifted := fun cell => shifted_moveBloch near r cell m
  obtain ⟨point, k, bloch, basis, eta⟩ := near
  cases basis with
  | line a =>
    obtain ⟨-, -, none⟩ := Reciprocal.gamma_ofLine accepted
    have orders : (cells.map (· + m)).map
        ((Nearby.moveBloch ⟨point, k, bloch, .line a, eta⟩ r m).distant r).along =
        cells.map (Nearby.distant ⟨point, k, bloch, .line a, eta⟩ r).along := by
      rw [List.map_map]
      refine List.map_congr_left fun cell _ => ?_
      rw [Function.comp_apply, along_eq_x_shifted _ none, along_eq_x_shifted _ none, shifted]
    exact congrArg (LineOrder.shell k (LineOrder.term k r.rho eta point) · Slots.zero) orders
  | plane a1 a2 =>
    have orders : (cells.map (· + m)).map
        ((Nearby.moveBloch ⟨point, k, bloch, .plane a1 a2, eta⟩ r m).distant r).shifted =
        cells.map (Nearby.distant ⟨point, k, bloch, .plane a1 a2, eta⟩ r).shifted := by
      rw [List.map_map]
      exact List.map_congr_left fun cell _ => shifted cell
    exact congrArg (fun ps => pure (PlaneOrder.shell k eta point ps)) orders

end Distant

/-! ## Both sums -/

/-- At a point that is moved along the lattice the reciprocal lattice is the same, with the
splitting parameter that it would choose. The distant sum takes the same course, with its values
turned by the Bloch phase of the step, and so does each cell of the nearby sum. -/
theorem lattice_step_turns_sums (near : Nearby ℝ ℂ) (spans : near.basis.Spans) (n : Cell)
    (c : Convergence ℝ) :
    let angle := (near.latticePoint n).dot near.bloch
    ∃ r, Reciprocal.construct near.basis near.wavenumber near.point = .ok r ∧
      Reciprocal.construct near.basis near.wavenumber (near.translate n).point = .ok r ∧
      (∃ result events, (near.distant r).construct c = Attempt.done result events ∧
        ((near.translate n).distant r).construct c =
          Attempt.done { result with values := result.values.map (turn angle) } events) ∧
      ∀ cell, (near.translate n).term cell = (near.term (cell - n)).map (turn angle) := by
  intro angle
  obtain ⟨r, accepted⟩ := Reciprocal.exists_construct spans near.wavenumber near.point
  have moved := Reciprocal.construct_translate near near.wavenumber near.point n
  obtain ⟨result, events, summed⟩ := near.exists_distant r c
  have turned := Distant.construct_translate near accepted n c {}
  rw [summed, Attempt.map_done] at turned
  exact ⟨r, accepted, moved.trans accepted, ⟨result, events, summed, turned⟩, near.term_translate n⟩

end

/-- A point over a left-handed oblique lattice. -/
noncomputable def overObliquePlane : Nearby ℝ ℂ where
  point := ⟨0.1, 0.2, 0.3⟩
  wavenumber := 1
  bloch := ⟨0.5, 1⟩
  basis := .plane ⟨0, 1⟩ ⟨1, 0.5⟩
  splitting := 1

theorem spans_overObliquePlane : overObliquePlane.basis.Spans := by
  norm_num [overObliquePlane, Basis.Spans, Vec2.cross]

/-- Settings under which some shells are looked at. -/
noncomputable def fiveShells : Convergence ℝ where
  absoluteTolerance := 1e-8
  relativeTolerance := 1e-6
  slotFloor := 1e-10
  firstRound := 1
  maxShells := 5
  convergedRounds := 2

/-- Two vectors of the one kind less one of the other turn the sum by the angle one. -/
theorem lattice_step_turns_overObliquePlane :
    overObliquePlane.basis.Spans ∧
      ∃ r result events,
        Reciprocal.construct overObliquePlane.basis overObliquePlane.wavenumber
            overObliquePlane.point = .ok r ∧
        (overObliquePlane.distant r).construct fiveShells = Attempt.done result events ∧
        ((overObliquePlane.translate ⟨2, -1⟩).distant r).construct fiveShells =
          Attempt.done { result with values := result.values.map (turn 1) } events := by
  obtain ⟨r, accepted, -, ⟨result, events, summed, turned⟩, -⟩ :=
    lattice_step_turns_sums overObliquePlane spans_overObliquePlane ⟨2, -1⟩ fiveShells
  have angle : (overObliquePlane.latticePoint ⟨2, -1⟩).dot overObliquePlane.bloch = 1 := by
    norm_num [overObliquePlane, Nearby.latticePoint, Vec2.dot]
  rw [angle] at turned
  exact ⟨spans_overObliquePlane, r, result, events, accepted, summed, turned⟩

section
variable [SpecialFunctions ℂ]

/-- A Bloch vector that is moved along the reciprocal lattice leaves the nearby sum and the
correction for any cells as they are. In the distant sum each order takes the place of another. -/
theorem reciprocal_step_renames_orders (near : Nearby ℝ ℂ) (spans : near.basis.Spans) (m : Cell)
    (c : Convergence ℝ) (excludeInner : Bool) :
    ∃ r, Reciprocal.construct near.basis near.wavenumber near.point = .ok r ∧
      (near.moveBloch r m).construct c excludeInner = near.construct c excludeInner ∧
      (∀ cells, (near.moveBloch r m).longRange cells = near.longRange cells) ∧
      (∀ cell, ((near.moveBloch r m).distant r).order (cell + m) = (near.distant r).order cell) ∧
      ∀ cells, ((near.moveBloch r m).distant r).shell (cells.map (· + m)) =
        (near.distant r).shell cells := by
  obtain ⟨r, accepted⟩ := Reciprocal.exists_construct spans near.wavenumber near.point
  exact ⟨r, accepted, near.construct_moveBloch accepted m c excludeInner {},
    near.longRange_moveBloch accepted m, Distant.order_moveBloch near accepted m,
    Distant.shell_moveBloch near accepted m⟩

end

theorem reciprocal_step_renames_overObliquePlane :
    overObliquePlane.basis.Spans ∧
      ∃ r, Reciprocal.construct overObliquePlane.basis overObliquePlane.wavenumber
            overObliquePlane.point = .ok r ∧
        (overObliquePlane.moveBloch r ⟨1, -3⟩).construct fiveShells true =
          overObliquePlane.construct fiveShells true ∧
        ∀ cell, ((overObliquePlane.moveBloch r ⟨1, -3⟩).distant r).order (cell + ⟨1, -3⟩) =
          (overObliquePlane.distant r).order cell := by
  obtain ⟨r, accepted, nearby, -, orders, -⟩ := reciprocal_step_renames_orders overObliquePlane
    spans_overObliquePlane ⟨1, -3⟩ fiveShells true
  exact ⟨spans_overObliquePlane, r, accepted, nearby, orders⟩

end LatticeGreen

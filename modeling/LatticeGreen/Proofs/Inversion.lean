import LatticeGreen.Proofs.EvanescentOrders

/-!
# Inversion

An evaluation at the inverted point, for the inverted Bloch vector, has at every cell the
contribution that the evaluation itself has at the opposite cell. Blocks and shells hold the
opposite of each of their cells, so both evaluations stop at the same shells, and the derivatives of
odd order have the other sign. A second try moves both Bloch vectors the same way, so this holds of
an evaluation that is not retried.
-/
namespace LatticeGreen
open Attempt

instance : Neg Cell := ⟨fun cell => ⟨-cell.n1, -cell.n2⟩⟩

@[simp] theorem Cell.n1_neg (cell : Cell) : (-cell).n1 = -cell.n1 := rfl
@[simp] theorem Cell.n2_neg (cell : Cell) : (-cell).n2 = -cell.n2 := rfl

section
variable {R : Type} [Neg R]

instance : Neg (Vec2 R) := ⟨fun v => ⟨-v.x, -v.y⟩⟩
instance : Neg (Vec3 R) := ⟨fun v => ⟨-v.x, -v.y, -v.z⟩⟩

@[simp] theorem Vec2.x_neg (v : Vec2 R) : (-v).x = -v.x := rfl
@[simp] theorem Vec2.y_neg (v : Vec2 R) : (-v).y = -v.y := rfl
@[simp] theorem Vec3.x_neg (v : Vec3 R) : (-v).x = -v.x := rfl
@[simp] theorem Vec3.y_neg (v : Vec3 R) : (-v).y = -v.y := rfl
@[simp] theorem Vec3.z_neg (v : Vec3 R) : (-v).z = -v.z := rfl

end

theorem Vec2.dot_neg_neg (u v : Vec2 ℝ) : (-u).dot (-v) = u.dot v := by
  simp only [dot, x_neg, y_neg, neg_mul_neg]

/-- Every cell is renamed to its opposite. -/
def Cell.Renaming.opposite (dimension : Int) : Cell.Renaming dimension where
  toFun := (- ·)
  injective cell cell' same := by
    obtain ⟨first, second⟩ := Cell.mk.inj same
    exact congrArg₂ Cell.mk (neg_inj.mp first) (neg_inj.mp second)
  radius_eq cell := by simp only [radius, n1_neg, n2_neg, Int.natAbs_neg]
  onLattice cell onLattice line := by rw [n2_neg, onLattice line, neg_zero]

/-- The derivatives of odd order have the other sign. -/
def Slots.invert (t : Slots ℂ) : Slots ℂ :=
  { t with dx := -t.dx, dy := -t.dy, dz := -t.dz, dxdydz := -t.dxdydz }

theorem Slots.invert_zero : invert zero = zero := by
  simp only [invert, zero, replicate, zeroC_exact, neg_zero]

theorem Slots.symmetry_invert : Slots.Symmetry Slots.invert where
  zero := invert_zero
  add s t := by
    change invert (zipWith (· + ·) s t) = zipWith (· + ·) (invert s) (invert t)
    simp only [invert, zipWith, neg_add]
  sub s t := by
    change invert (zipWith (· - ·) s t) = zipWith (· - ·) (invert s) (invert t)
    simp only [invert, zipWith, neg_sub_neg, neg_sub]
  scale s x := by simp only [invert, Slots.scale, map, neg_mul]
  modulus s := by simp only [invert, map, modulus_exact, norm_neg]

/-! ## Sources -/

theorem FreeSpace.lengthSquare_neg (d : Vec3 ℝ) : lengthSquare (-d) = lengthSquare d := by
  simp only [lengthSquare, Vec3.x_neg, Vec3.y_neg, Vec3.z_neg, neg_mul_neg]

theorem FreeSpace.term_neg (k : ℂ) (d : Vec3 ℝ) (phase : ℂ) :
    term k (-d) phase = (term k d phase).invert := by
  unfold term isSource
  rw [lengthSquare_neg]
  split
  · exact Slots.invert_zero.symm
  · simp only [Slots.invert, Vec3.x_neg, Vec3.y_neg, Vec3.z_neg, ofReal_exact, Complex.ofReal_neg,
      mul_neg, neg_mul, neg_neg]

section
variable [SpecialFunctions ℂ]

theorem ShortRange.term_neg (k : ℂ) (eta : ℝ) (d : Vec3 ℝ) (phase : ℂ) :
    term k eta ⟨-d, phase⟩ = (term k eta ⟨d, phase⟩).invert := by
  unfold term
  dsimp only
  rw [FreeSpace.lengthSquare_neg]
  split
  · simp only [Slots.invert, slots, Slots.map, finiteOrZero_exact, Vec3.x_neg, Vec3.y_neg,
      Vec3.z_neg, ofReal_exact, Complex.ofReal_neg, mul_neg, neg_mul, neg_neg]
  · exact Slots.invert_zero.symm

theorem LongRange.smallTerm_neg (k : ℂ) (eta : ℝ) (d : Vec3 ℝ) (phase : ℂ) :
    smallTerm k eta ⟨-d, phase⟩ = (smallTerm k eta ⟨d, phase⟩).invert := by
  unfold smallTerm
  simp only [FreeSpace.lengthSquare_neg, Slots.invert, Slots.map, Vec3.x_neg, Vec3.y_neg,
    Vec3.z_neg, ofReal_exact, zeroC_exact, Complex.ofReal_neg, mul_neg, neg_mul, neg_neg, mul_zero,
    neg_zero]

/-- Whether the series is used depends on the distance only. -/
theorem Source.isMapped_neg (k : ℂ) (eta : ℝ) (d : Vec3 ℝ) (phase : ℂ) :
    IsMapped Slots.invert k k eta ⟨d, phase⟩ ⟨-d, phase⟩ where
  small := by
    unfold LongRange.isSmall
    rw [FreeSpace.lengthSquare_neg]
  whole := FreeSpace.term_neg k d phase
  short := ShortRange.term_neg k eta d phase
  series := LongRange.smallTerm_neg k eta d phase

/-! ## Orders -/

omit [SpecialFunctions ℂ] in
theorem PlaneOrder.propagation_neg (k : ℂ) (p : Vec2 ℝ) : propagation k (-p) = propagation k p := by
  unfold propagation
  rw [Vec2.x_neg, Vec2.y_neg, neg_mul_neg, neg_mul_neg]

theorem PlaneOrder.term_neg (k : ℂ) (eta : ℝ) (point : Vec3 ℝ) (p : Vec2 ℝ) :
    term k eta (-point) (-p) = (term k eta point p).invert := by
  have angle : (-p).dot (-point).planar = p.dot point.planar := Vec2.dot_neg_neg p point.planar
  have height : PlaneFactor.factor (-point.z) eta (propagation k p) =
      ⟨(PlaneFactor.factor point.z eta (propagation k p)).value,
        -(PlaneFactor.factor point.z eta (propagation k p)).slope⟩ := by
    simp only [PlaneFactor.factor, PlaneFactor.profile_neg, finiteOrZero_exact]
  simp only [term, angle, propagation_neg, Vec3.z_neg, height, Slots.invert, Vec2.x_neg, Vec2.y_neg,
    ofReal_exact, Complex.ofReal_neg, mul_neg, neg_mul, neg_neg]

omit [SpecialFunctions ℂ] in
theorem LineOrder.isSingular_neg (k : ℂ) (kx : ℝ) : isSingular k (-kx) = isSingular k kx := by
  unfold isSingular transverse
  rw [neg_mul_neg]

omit [SpecialFunctions ℂ] in
theorem LineOrder.slots_neg (kx rho y z : ℝ) (g : Radial ℂ) :
    slots (-kx) rho (-y) (-z) g = (slots kx rho y z g).invert := by
  have zero : (0.0 : ℝ) = 0 := by norm_num
  unfold slots Slots.invert
  dsimp only
  split
  · simp only [zero, ofReal_exact, Complex.ofReal_neg, Complex.ofReal_zero, mul_neg, neg_mul,
      mul_zero, zero_mul, neg_zero]
  · simp only [neg_div, ofReal_exact, Complex.ofReal_neg, mul_neg, neg_mul, neg_neg]

theorem LineOrder.term_neg (k : ℂ) (rho eta : ℝ) (point : Vec3 ℝ) (kx : ℝ) :
    term k rho eta (-point) (-kx) = Slots.invert <$> term k rho eta point kx := by
  have wave : (phase (-kx) (-point).x : ℂ) = phase kx point.x := by
    rw [phase_eq, phase_eq, Vec3.x_neg, neg_mul_neg]
  have across : transverse k (-kx) = transverse k kx := by
    unfold transverse
    rw [neg_mul_neg]
  unfold term
  rw [wave, across, map_bind]
  refine bind_congr fun g => ?_
  rw [map_pure, Vec3.y_neg, Vec3.z_neg, slots_neg]
  simp only [Slots.map, Slots.invert, finiteOrZero_exact, mul_neg]

end

/-! ## Both sums -/

/-- What a nearby sum depends on, at the inverted point and for the inverted Bloch vector. -/
def Nearby.invert (near : Nearby ℝ ℂ) : Nearby ℝ ℂ :=
  { near with point := -near.point, bloch := -near.bloch }

namespace Nearby
variable (near : Nearby ℝ ℂ)

theorem latticePoint_neg (cell : Cell) : near.latticePoint (-cell) = -near.latticePoint cell := by
  unfold latticePoint
  cases near.basis with
  | line a =>
    refine congrArg₂ Vec2.mk ?_ ?_ <;>
    · rw [Cell.n1_neg]
      push_cast
      ring
  | plane a1 a2 =>
    refine congrArg₂ Vec2.mk ?_ ?_ <;>
    · rw [Cell.n1_neg, Cell.n2_neg]
      push_cast
      ring

/-- The opposite cell is seen in the opposite direction, with the same phase. -/
theorem source_invert (cell : Cell) :
    near.invert.source (-cell) = ⟨-near.displacement cell, near.phase cell⟩ := by
  have opposite : near.invert.latticePoint (-cell) = -near.latticePoint cell :=
    near.latticePoint_neg cell
  have place : near.invert.displacement (-cell) = -near.displacement cell := by
    unfold displacement
    rw [opposite]
    refine Vec3.mk.injEq .. |>.mpr ⟨?_, ?_, rfl⟩ <;>
    · simp only [invert, Vec3.x_neg, Vec3.y_neg, Vec2.x_neg, Vec2.y_neg]
      ring
  have angle : (near.invert.latticePoint (-cell)).dot near.invert.bloch =
      (near.latticePoint cell).dot near.bloch := by
    rw [opposite]
    exact Vec2.dot_neg_neg _ _
  unfold source phase
  rw [place, angle]

variable [SpecialFunctions ℂ]

theorem isRenamed_invert :
    near.IsRenamed Slots.invert (Cell.Renaming.opposite near.basis.dimension) near.invert := by
  refine isRenamed_of_mapped Slots.symmetry_invert rfl rfl fun cell => ?_
  have source : near.invert.source ((Cell.Renaming.opposite near.basis.dimension) cell) =
    ⟨-near.displacement cell, near.phase cell⟩ := near.source_invert cell
  rw [source]
  exact Source.isMapped_neg near.wavenumber near.splitting _ _

end Nearby

namespace Distant
variable [SpecialFunctions ℂ] (near : Nearby ℝ ℂ) (r : Reciprocal ℝ)

omit [SpecialFunctions ℂ] in
theorem shifted_invert (cell : Cell) :
    (near.invert.distant r).shifted (-cell) = -(near.distant r).shifted cell := by
  refine congrArg₂ Vec2.mk ?_ ?_ <;>
  · simp only [shifted, Nearby.distant, Nearby.invert, Reciprocal.vector, Cell.n1_neg,
      Cell.n2_neg, Vec2.x_neg, Vec2.y_neg]
    push_cast
    ring

omit [SpecialFunctions ℂ] in
theorem along_invert (cell : Cell) :
    (near.invert.distant r).along (-cell) = -(near.distant r).along cell := by
  simp only [along, Nearby.distant, Nearby.invert, Cell.n1_neg, Vec2.x_neg]
  push_cast
  ring

/-- The opposite order travels in the opposite direction, as steeply. -/
theorem order_invert (cell : Cell) :
    (near.invert.distant r).order (-cell) =
      ((near.distant r).order cell).map id (Slots.invert <$> ·) := by
  have shifted := shifted_invert near r cell
  have along := along_invert near r cell
  obtain ⟨point, k, bloch, basis, eta⟩ := near
  cases basis with
  | line a =>
    change (LineOrder.isSingular k _, LineOrder.term k r.rho eta (-point) _) = _
    rw [along, LineOrder.isSingular_neg, LineOrder.term_neg]
    rfl
  | plane a1 a2 =>
    change (grazes k (modulus (PlaneOrder.propagation k _)),
      pure (PlaneOrder.term k eta (-point) _)) = _
    rw [shifted, PlaneOrder.propagation_neg, PlaneOrder.term_neg]
    rfl

theorem isRenamed_invert :
    (near.distant r).IsRenamed Slots.invert (Cell.Renaming.opposite near.basis.dimension)
      (near.invert.distant r) :=
  isRenamed_of_order rfl rfl rfl (order_invert near r)

end Distant

/-! ## Evaluations -/

/-- A line is as far from the inverted point. -/
theorem Reciprocal.construct_neg (basis : Basis ℝ) (k : ℂ) (point : Vec3 ℝ) :
    construct basis k (-point) = construct basis k point := by
  cases basis with
  | line a =>
    refine ofLine_congr a k fun _ => ?_
    rw [Vec3.y_neg, Vec3.z_neg, neg_mul_neg, neg_mul_neg]
  | plane a1 a2 => rfl

theorem Lattice.reciprocal_neg (lattice : Lattice ℝ) (k : ℂ) (point : Vec3 ℝ) :
    lattice.reciprocal k (-point) = lattice.reciprocal k point := by
  unfold reciprocal
  refine bind_congr fun basis => ?_
  rw [Reciprocal.construct_neg]

namespace PeriodicGreen

theorem readPoint_neg {point : RealArray ℝ} {p : Vec3 ℝ} (place : readPoint point = .ok p) :
    readPoint (point.map (- ·)) = .ok (-p) := by
  obtain ⟨shape, entries, size⟩ := point
  match entries with
  | [] | [_] | [_, _] | _ :: _ :: _ :: _ :: _ => cases place
  | [x, y, z] =>
    cases place
    rfl

/-- An entry that is left out is zero either way. -/
theorem readBloch_neg {dimension : Nat} {bloch : RealArray ℝ} {b : Vec2 ℝ}
    (phase : readBloch dimension bloch = .ok b) :
    readBloch dimension (bloch.map (- ·)) = .ok (-b) := by
  have zero : (0.0 : ℝ) = 0 := by norm_num
  obtain ⟨shape, entries, size⟩ := bloch
  match entries with
  | [] | _ :: _ :: _ :: _ => cases phase
  | [x, y] =>
    cases phase
    rfl
  | [x] =>
    change (if dimension = 1 then Except.ok (⟨x, 0.0⟩ : Vec2 ℝ) else _) = _ at phase
    change (if dimension = 1 then Except.ok (⟨-x, 0.0⟩ : Vec2 ℝ) else _) = _
    split at phase
    · rename_i line
      cases phase
      rw [if_pos line]
      refine congrArg (fun y => Except.ok (⟨-x, y⟩ : Vec2 ℝ)) ?_
      rw [zero, neg_zero]
    · cases phase

section
variable [SpecialFunctions ℂ]

/-- The first pair of sums at the inverted point. -/
theorem trial_invert (green : PeriodicGreen ℝ) (first : 0 ≤ green.convergence.firstRound)
    (near : Nearby ℝ ℂ) (r : Reciprocal ℝ) (retried : Bool) :
    green.trial near.invert r retried =
      (fun result => { result.mapSlots Slots.invert with bloch := -near.bloch }) <$>
        green.trial near r retried :=
  green.trial_renamed first Slots.symmetry_invert near.isRenamed_invert
    (Distant.isRenamed_invert near r) retried

/-- An evaluation that ends without a second pair of sums is inverted. -/
theorem EndsAtOnce.invert {green : PeriodicGreen ℝ} (first : 0 ≤ green.convergence.firstRound)
    {point bloch : RealArray ℝ} {k : ℂ} {result : Evaluation ℝ ℂ}
    (ends : green.EndsAtOnce point k bloch result) :
    green.EndsAtOnce (point.map (- ·)) k (bloch.map (- ·))
      { result.mapSlots Slots.invert with bloch := -result.bloch } := by
  cases ends with
  | waveless p b place phase wave =>
    have answer : { (green.zeroEvaluation b : Evaluation ℝ ℂ).mapSlots Slots.invert with
        bloch := -b } = (green.zeroEvaluation (-b) : Evaluation ℝ ℂ) := by
      unfold Evaluation.mapSlots zeroEvaluation
      rw [LatticeSum.mapValues_empty Slots.symmetry_invert, Slots.invert_zero]
    change green.EndsAtOnce _ k _
      { (green.zeroEvaluation b).mapSlots Slots.invert with bloch := -b }
    rw [answer]
    exact .waveless (-p) (-b) (readPoint_neg place) (readBloch_neg phase) wave
  | regular p b basis r result place phase wave vectors reciprocal tried unbroken =>
    have opposite : green.lattice.reciprocal k (-p) = .ok r := by
      rw [Lattice.reciprocal_neg, reciprocal]
    have inverted := green.trial_invert first (green.nearFor p k b basis r) r false
    rw [tried] at inverted
    rw [bloch_trial tried]
    exact .regular (-p) (-b) basis r _ (readPoint_neg place) (readBloch_neg phase) wave vectors
      opposite inverted unbroken

/-- At the inverted point and for the inverted Bloch vector, an evaluation that is not retried ends
alike, with the same counts and verdicts of both sums and the other sign of the derivatives of odd
order. Arguments that are accepted have a result. -/
theorem evaluate_inverted (green : PeriodicGreen ℝ) (first : 0 ≤ green.convergence.firstRound)
    (point : RealArray ℝ) (k : ℂ) (bloch : RealArray ℝ) :
    (∀ result events, green.evaluate point k bloch = done result events →
      result.retried = false →
        ∃ later, green.evaluate (point.map (- ·)) k (bloch.map (- ·)) =
          done { result.mapSlots Slots.invert with bloch := -result.bloch } later) ∧
      ∀ reading, green.Accepts point k bloch reading →
        ∃ result events, green.evaluate point k bloch = done result events := by
  refine ⟨fun result events ran once => ?_, fun reading accepted => ?_⟩
  · exact ((endsAtOnce_of_done ran once).invert first).exists_done
  · obtain ⟨result, _, _, noted, ran, _⟩ := evaluate_course accepted
    exact ⟨result, noted, ran⟩

end

/-- An evanescent wave over the unit line, without the innermost cells. -/
theorem evaluate_inverted_evanescent :
    ∃ result : Evaluation ℝ ℂ, ∃ events later,
      outerUnitLine.evaluate (.ofList [0.1, 0.2, 0.3]) Complex.I (.ofList [1]) =
        done result events ∧ result.retried = false ∧
      outerUnitLine.evaluate (.ofList [-0.1, -0.2, -0.3]) Complex.I (.ofList [-1]) =
        done { result.mapSlots Slots.invert with bloch := -result.bloch } later := by
  obtain ⟨r, accepted, -⟩ := exists_accepts_outerUnitLine Complex.I_ne_zero 1
  obtain ⟨inverted, ends⟩ := evaluate_inverted outerUnitLine (by decide) (.ofList [0.1, 0.2, 0.3])
    Complex.I (.ofList [1])
  obtain ⟨result, events, ran⟩ := ends _ accepted
  have once : result.retried = false :=
    once_of_damped (by norm_num) (answer_eq_ok_iff.mpr ⟨events, ran⟩)
  obtain ⟨later, ran'⟩ := inverted result events ran once
  exact ⟨result, events, later, ran, once, ran'⟩

end PeriodicGreen

end LatticeGreen

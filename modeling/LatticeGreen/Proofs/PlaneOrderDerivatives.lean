import LatticeGreen.Proofs.PartialDerivatives
import LatticeGreen.Proofs.ReciprocalDuality
import LatticeGreen.Proofs.ShiftedOrders

/-!
# The derivatives of the orders of a plane

An order of a plane is a plane wave along the plane with a profile across it. Along the plane its
derivatives are multiples of it; across the plane the program carries the slope of the profile
along. So the slots of the orders, and of a sum of them, are partial derivatives in the point.
-/
namespace LatticeGreen
open Complex (I exp)

/-! ## Plane waves -/

/-- The component of a vector of the plane along an axis of space. -/
def Vec2.component (p : Vec2 ℝ) : Axis → ℝ
  | .x => p.x
  | .y => p.y
  | .z => 0

namespace Slots

/-- A plane wave along the plane with a profile across it, by the slots that an order has. -/
noncomputable def planeWave (p : Vec2 ℝ) (profile : ℝ → HeightProfile ℂ) (d : Vec3 ℝ) : Slots ℂ :=
  let wave := exp (I * p.dot d.planar)
  let value := wave * (profile d.z).value
  let slope := wave * (profile d.z).slope
  { value
    dx := I * p.x * value
    dy := I * p.y * value
    dz := slope
    dxdy := -p.x * p.y * value
    dxdz := I * p.x * slope
    dydz := I * p.y * slope
    dxdydz := -p.x * p.y * slope }

/-- What the wave is multiplied by in the slots without an axis. -/
def waveRow (p : Vec2 ℝ) (h : HeightProfile ℂ) : Axis → Fin 4 → ℂ
  | .x => ![h.value, I * p.y * h.value, h.slope, I * p.y * h.slope]
  | .y => ![h.value, I * p.x * h.value, h.slope, I * p.x * h.slope]
  | .z => h.value • ![1, I * p.x, I * p.y, -p.x * p.y]

section
variable (p : Vec2 ℝ) (profile : ℝ → HeightProfile ℂ) (d : Vec3 ℝ)

theorem without_planeWave (a : Axis) :
    (planeWave p profile d).without a = exp (I * p.dot d.planar) • waveRow p (profile d.z) a := by
  funext i
  cases a <;> fin_cases i <;> simp [without, planeWave, waveRow] <;> ring

theorem along_planeWave {a : Axis} (inPlane : a ≠ .z) : (planeWave p profile d).along a =
    (I * p.component a * exp (I * p.dot d.planar)) • waveRow p (profile d.z) a := by
  have square : I * I = -1 := Complex.I_mul_I
  funext i
  cases a with
  | x => fin_cases i <;> simp [along, planeWave, waveRow, Vec2.component] <;> grind
  | y => fin_cases i <;> simp [along, planeWave, waveRow, Vec2.component] <;> grind
  | z => exact absurd rfl inPlane

theorem along_planeWave_z : (planeWave p profile d).along .z =
    exp (I * p.dot d.planar) • (profile d.z).slope • ![1, I * p.x, I * p.y, -p.x * p.y] := by
  funext i
  fin_cases i <;> simp [along, planeWave] <;> ring

/-- Along an axis of the plane the angle of the wave changes with the component along it. -/
theorem hasDerivAt_angle (a : Axis) :
    HasDerivAt (fun t => p.dot (d.place a t).planar) (p.component a) (d.coordinate a) := by
  cases a with
  | x =>
    refine (((hasDerivAt_id d.x).const_mul p.x).add_const (p.y * d.y)).congr_deriv ?_
    exact mul_one p.x
  | y =>
    refine (((hasDerivAt_id d.y).const_mul p.y).const_add (p.x * d.x)).congr_deriv ?_
    exact mul_one p.y
  | z => exact hasDerivAt_const d.z (p.dot d.planar)

end

/-- A wave whose angle changes is turned in proportion to itself. -/
theorem hasDerivAt_wave {angle : ℝ → ℝ} {rate t : ℝ} (turning : HasDerivAt angle rate t) :
    HasDerivAt (fun t => exp (I * angle t)) (I * rate * exp (I * angle t)) t := by
  refine (turning.ofReal_comp.const_mul I).cexp.congr_deriv ?_
  ring

/-- If the slope of the profile is its derivative, the slots derive from each other. -/
theorem DeriveAt.planeWave {p : Vec2 ℝ} {profile : ℝ → HeightProfile ℂ} {d : Vec3 ℝ}
    (slope : HasDerivAt (fun z => (profile z).value) (profile d.z).slope d.z) :
    DeriveAt (planeWave p profile) d := by
  intro a
  simp only [without_planeWave]
  -- Across the plane only the profile changes; along it the height is the same and the wave turns.
  by_cases across : a = .z
  · subst across
    rw [along_planeWave_z]
    exact (slope.smul_const _).const_smul (exp (I * p.dot d.planar))
  · have height : ∀ t, (d.place a t).z = d.z := by
      intro t
      cases a with
      | x => rfl
      | y => rfl
      | z => exact absurd rfl across
    simp only [height, along_planeWave p profile d across]
    refine ((hasDerivAt_wave (hasDerivAt_angle p d a)).smul_const _).congr_deriv ?_
    rw [d.place_coordinate]

end Slots

/-! ## Orders -/

theorem PlaneFactor.factor_eq_profile [SpecialFunctions ℂ] (z E : ℝ) (q : ℂ) :
    factor z E q = profile z E q := by
  simp only [factor, finiteOrZero_exact]

theorem PlaneOrder.term_eq_planeWave [SpecialFunctions ℂ] (k : ℂ) (E : ℝ) (point : Vec3 ℝ)
    (p : Vec2 ℝ) :
    let q := propagation k p
    term k E point p = Slots.planeWave p (fun z =>
      ⟨(PlaneFactor.profile z E q).value / q, (PlaneFactor.profile z E q).slope / q⟩) point := by
  simp only [term, PlaneFactor.factor_eq_profile, Slots.planeWave, cexp_exact, imaginaryUnit_exact,
    ofReal_exact]
  push_cast
  congr 1 <;> ring

section
variable [SpecialFunctions ℂ] {erfc : ℂ → ℂ} (error : IsErfc erfc) (scaled : Scales erfc)
include error scaled

/-- The slots of an order derive from each other. -/
theorem PlaneOrder.deriveAt_term (k : ℂ) {E : ℝ} (positive : 0 < E) (p : Vec2 ℝ) (d : Vec3 ℝ) :
    Slots.DeriveAt (fun point => term k E point p) d := by
  simp only [term_eq_planeWave]
  exact Slots.DeriveAt.planeWave
    ((hasDerivAt_profile error scaled (propagation k p) positive d.z).1.div_const _)

/-- The slope that goes with the profile of an order is its derivative. The slots of a list of
orders of which none grazes the plane are a function of the point with its partial derivatives; none
of the orders is divided by zero. -/
theorem Distant.planeShell_eq_partials (far : Distant ℝ ℂ) (plane : far.periodicity = .plane)
    (wave : far.wavenumber ≠ 0) (positive : 0 < far.splitting) (cells : List Cell)
    (regular : PlaneOrder.anySingular far.wavenumber (cells.map far.shifted) = false) :
    (∀ (q : ℂ) (z : ℝ), HasDerivAt (fun z => (PlaneFactor.factor z far.splitting q).value)
      (PlaneFactor.factor z far.splitting q).slope z) ∧
    (∀ cell ∈ cells, PlaneOrder.propagation far.wavenumber (far.shifted cell) ≠ 0) ∧
    ∃ f : Vec3 ℝ → Slots ℂ,
      (∀ point, ({ far with point } : Distant ℝ ℂ).shell cells =
        Attempt.done ⟨f point, false⟩ []) ∧
      ∀ point, f point = Slots.partials (fun d => (f d).value) point ∧ Slots.DeriveAt f point := by
  let orders := cells.map far.shifted
  let f (point : Vec3 ℝ) : Slots ℂ :=
    Slots.sum (orders.map fun p => PlaneOrder.term far.wavenumber far.splitting point p)
  have derive : ∀ point, Slots.DeriveAt f point := fun point => Slots.DeriveAt.sum fun p _ =>
    PlaneOrder.deriveAt_term error scaled far.wavenumber positive p point
  refine ⟨fun q z => ?_, fun cell listed => ?_, f, fun point => ?_, fun point => ⟨?_, derive point⟩⟩
  · simp only [PlaneFactor.factor_eq_profile]
    exact (hasDerivAt_profile error scaled q positive z).1
  · refine propagation_ne_zero wave ?_
    unfold PlaneOrder.anySingular at regular ⊢
    rw [List.any_eq_false] at regular
    simpa using regular _ (List.mem_map_of_mem listed)
  · unfold Distant.shell PlaneOrder.shell
    simp only [plane]
    exact congrArg pure (if_neg (Bool.eq_false_iff.mp regular))
  · exact Slots.eq_partials Slots.isRegion_everywhere (fun d _ => derive d) (fun _ _ => rfl) point
      trivial

end

/-- Two orders of the unit square, for a Bloch vector of length three. -/
theorem planeShell_eq_partials_unit :
    ∃ g : Reciprocal ℝ, Reciprocal.construct (.plane ⟨1, 0⟩ ⟨0, 1⟩) (1 : ℂ) ⟨0, 0, 0⟩ = .ok g ∧
      let far := Distant.overUnitSquare g ⟨3, 0⟩
      ∃ f : Vec3 ℝ → Slots ℂ,
        (∀ point, ({ far with point } : Distant ℝ ℂ).shell [⟨0, 0⟩, ⟨0, 1⟩] =
          Attempt.done ⟨f point, false⟩ []) ∧
        ∀ point, f point = Slots.partials (fun d => (f d).value) point ∧
          Slots.DeriveAt f point := by
  have square : (Basis.plane ⟨1, 0⟩ ⟨0, 1⟩).Spans := by norm_num [Basis.Spans, Vec2.cross]
  obtain ⟨g, built⟩ := Reciprocal.exists_construct square 1 ⟨0, 0, 0⟩
  let far := Distant.overUnitSquare g ⟨3, 0⟩
  obtain ⟨-, -, straight, -⟩ := Reciprocal.gamma_ofPlane built
  have sideways : g.gamma2.x = 0 := by
    simpa [Vec2.dot] using straight
  have across : ∀ cell ∈ [(⟨0, 0⟩ : Cell), ⟨0, 1⟩], (far.shifted cell).x = 3 := by
    simp [far, Distant.overUnitSquare, Distant.shifted, Reciprocal.vector, sideways]
  have regular : PlaneOrder.anySingular far.wavenumber
      ([⟨0, 0⟩, ⟨0, 1⟩].map far.shifted) = false := by
    unfold PlaneOrder.anySingular
    rw [List.any_map, List.any_eq_false]
    intro cell listed grazing
    rw [Function.comp_apply, PlaneOrder.grazes_propagation_iff, Grazing, Vec2.dot,
      across cell listed] at grazing
    have one : far.wavenumber = 1 := rfl
    generalize (far.shifted cell).y = y at grazing
    have long := (Complex.re_le_norm _).trans_lt grazing
    norm_num [one] at long
    linarith [mul_self_nonneg y]
  obtain ⟨-, -, partials⟩ := Distant.planeShell_eq_partials isErfc_exactErfc scales_exactErfc far
    rfl one_ne_zero one_pos [⟨0, 0⟩, ⟨0, 1⟩] regular
  exact ⟨g, built, partials⟩

end LatticeGreen

import LatticeGreen.Proofs.BesselIntegral
import LatticeGreen.Proofs.PlaneOrderDerivatives
import LatticeGreen.Proofs.RenamedSums

/-!
# The derivatives of the orders of a line

An order of a line is a wave along the line times a function of the distance from it. Where the
transform of the order is such a function with its first two derivatives, the slots of the order are
its partial derivatives in the point; so are those of a sum of orders.
-/
namespace LatticeGreen
open Complex (I exp)

/-- The distance of a place from the line of sources. -/
noncomputable def Vec3.offLine (d : Vec3 ℝ) : ℝ := √(d.y ^ 2 + d.z ^ 2)

/-- The other axis across the line. -/
def Axis.beside : Axis → Axis
  | .x => .x
  | .y => .z
  | .z => .y

namespace Slots

/-- The places off the line. -/
theorem isRegion_offLine : IsRegion fun d => 0 < d.offLine := by
  refine isRegion_lt (fun d a => ?_) 0
  cases a <;>
  · simp only [Vec3.offLine, Vec3.place]
    fun_prop

/-! ## Waves along the line -/

/-- A wave along the line times a function of the distance from it, by the slots that an order
has. -/
noncomputable def lineWave (kx : ℝ) (g : ℝ → ℂ) (d : Vec3 ℝ) : Slots ℂ :=
  let r := d.offLine
  let mixed := deriv (deriv g) r - deriv g r / r
  Slots.map (exp (I * (kx * d.x : ℝ)) * ·)
    { value := g r
      dx := I * kx * g r
      dy := (d.y / r : ℝ) * deriv g r
      dz := (d.z / r : ℝ) * deriv g r
      dxdy := I * kx * (d.y / r : ℝ) * deriv g r
      dxdz := I * kx * (d.z / r : ℝ) * deriv g r
      dydz := (d.y / r * (d.z / r) : ℝ) * mixed
      dxdydz := I * kx * (d.y / r : ℝ) * (d.z / r : ℝ) * mixed }

/-- The distance from the line grows with a coordinate across it like the cosine of the angle to
its axis. -/
theorem hasDerivAt_offLine {d : Vec3 ℝ} (off : 0 < d.offLine) {a : Axis} (across : a ≠ .x) :
    HasDerivAt (fun t => (d.place a t).offLine) (d.coordinate a / d.offLine) (d.coordinate a) := by
  have square : d.y ^ 2 + d.z ^ 2 ≠ 0 := (Real.sqrt_pos.mp off).ne'
  have half : ∀ t : ℝ,
      ((2 : ℕ) : ℝ) * t ^ (2 - 1) / (2 * √(d.y ^ 2 + d.z ^ 2)) = t / d.offLine := by
    intro t
    change _ = t / √(d.y ^ 2 + d.z ^ 2)
    rw [pow_one]
    push_cast
    exact mul_div_mul_left _ _ two_ne_zero
  cases a with
  | x => exact absurd rfl across
  | y => exact (((hasDerivAt_pow 2 d.y).add_const (d.z ^ 2)).sqrt square).congr_deriv (half d.y)
  | z => exact (((hasDerivAt_pow 2 d.z).const_add (d.y ^ 2)).sqrt square).congr_deriv (half d.z)

/-- A function of the distance from the line changes with one of the coordinates across the line,
and its slope along the other axis changes too. -/
theorem hasDerivAt_across {g : ℝ → ℂ} (twice : TwiceDifferentiable g) (distance : ℝ → ℝ) {t : ℝ}
    (apart : 0 < distance t) (grows : HasDerivAt distance (t / distance t) t) (s : ℝ) :
    let r := distance t
    HasDerivAt (fun t => g (distance t)) ((t / r : ℝ) * deriv g r) t ∧
      HasDerivAt (fun t => (s / distance t : ℝ) * deriv g (distance t))
        ((s / r : ℝ) * (t / r : ℝ) * (deriv (deriv g) r - deriv g r / r)) t := by
  intro r
  have nonzero : (distance t : ℂ) ≠ 0 := by exact_mod_cast apart.ne'
  have value := (twice.hasDerivAt apart).scomp t grows
  have slope := (twice.hasDerivAt_deriv apart).scomp t grows
  have share := ((grows.fun_inv apart.ne').const_mul s).ofReal_comp
  refine ⟨value.congr_deriv ?_, ?_⟩
  · rw [Complex.real_smul]
  · simp only [div_eq_mul_inv s]
    refine (share.fun_mul slope).congr_deriv ?_
    simp only [Function.comp_apply, Complex.real_smul, r]
    push_cast
    field_simp
    ring

/-- What the wave is multiplied by in the slots without the axis along the line. -/
noncomputable def lineRow (g : ℝ → ℂ) (d : Vec3 ℝ) : Fin 4 → ℂ :=
  ![g d.offLine, (d.y / d.offLine : ℝ) * deriv g d.offLine,
    (d.z / d.offLine : ℝ) * deriv g d.offLine,
    (d.y / d.offLine * (d.z / d.offLine) : ℝ) *
      (deriv (deriv g) d.offLine - deriv g d.offLine / d.offLine)]

/-- The slots without an axis across the line hold a transform and its slope along the other
axis. -/
def acrossRow (kx : ℝ) (value slope : ℂ) : Fin 4 → ℂ :=
  value • ![1, I * kx, 0, 0] + slope • ![0, 0, 1, I * kx]

theorem hasDerivAt_acrossRow (kx : ℝ) {value slope : ℝ → ℂ} {value' slope' : ℂ} {t : ℝ}
    (first : HasDerivAt value value' t) (second : HasDerivAt slope slope' t) :
    HasDerivAt (fun t => acrossRow kx (value t) (slope t)) (acrossRow kx value' slope') t :=
  (first.smul_const _).fun_add (second.smul_const _)

section
variable (kx : ℝ) (g : ℝ → ℂ) (d : Vec3 ℝ)

theorem without_lineWave_x :
    (lineWave kx g d).without .x = exp (I * (kx * d.x : ℝ)) • lineRow g d := by
  funext i
  fin_cases i <;> simp [without, lineWave, Slots.map, lineRow]

theorem along_lineWave_x :
    (lineWave kx g d).along .x = (I * kx * exp (I * (kx * d.x : ℝ))) • lineRow g d := by
  funext i
  fin_cases i <;> simp [along, lineWave, Slots.map, lineRow] <;> ring

variable {a : Axis} (across : a ≠ .x)
include across

theorem without_lineWave : (lineWave kx g d).without a = exp (I * (kx * d.x : ℝ)) •
    acrossRow kx (g d.offLine) ((d.coordinate a.beside / d.offLine : ℝ) * deriv g d.offLine) := by
  funext i
  cases a with
  | x => exact absurd rfl across
  | y => fin_cases i <;>
      simp [without, lineWave, Slots.map, acrossRow, Axis.beside, Vec3.coordinate] <;> ring
  | z => fin_cases i <;>
      simp [without, lineWave, Slots.map, acrossRow, Axis.beside, Vec3.coordinate] <;> ring

theorem along_lineWave : (lineWave kx g d).along a = exp (I * (kx * d.x : ℝ)) •
    acrossRow kx ((d.coordinate a / d.offLine : ℝ) * deriv g d.offLine)
      ((d.coordinate a.beside / d.offLine : ℝ) * (d.coordinate a / d.offLine : ℝ) *
        (deriv (deriv g) d.offLine - deriv g d.offLine / d.offLine)) := by
  funext i
  cases a with
  | x => exact absurd rfl across
  | y => fin_cases i <;> simp [along, lineWave, Slots.map, acrossRow, Axis.beside, Vec3.coordinate,
      -mul_eq_mul_right_iff] <;> ring
  | z => fin_cases i <;> simp [along, lineWave, Slots.map, acrossRow, Axis.beside, Vec3.coordinate,
      -mul_eq_mul_right_iff] <;> ring

theorem coordinate_beside_place (t : ℝ) :
    (d.place a t).coordinate a.beside = d.coordinate a.beside ∧ (d.place a t).x = d.x := by
  cases a with
  | x => exact absurd rfl across
  | y => exact ⟨rfl, rfl⟩
  | z => exact ⟨rfl, rfl⟩

end

/-- Off the line the slots of the wave derive from each other. -/
theorem DeriveAt.lineWave (kx : ℝ) {g : ℝ → ℂ} (twice : TwiceDifferentiable g) {d : Vec3 ℝ}
    (off : 0 < d.offLine) : DeriveAt (lineWave kx g) d := by
  intro a
  -- Along the line only the phase changes; along the two other axes only the distance from it does.
  by_cases along : a = .x
  · subst along
    have turning : HasDerivAt (fun t => kx * t) kx d.x := by
      refine ((hasDerivAt_id d.x).const_mul kx).congr_deriv ?_
      exact mul_one kx
    simp only [without_lineWave_x, along_lineWave_x]
    exact (hasDerivAt_wave turning).smul_const (lineRow g d)
  · have grows := hasDerivAt_offLine off along
    rw [← d.place_coordinate a] at off
    obtain ⟨value, slope⟩ := hasDerivAt_across twice (fun t => (d.place a t).offLine) off
      (by rwa [d.place_coordinate]) (d.coordinate a.beside)
    rw [d.place_coordinate] at value slope
    simp only [without_lineWave kx g _ along, along_lineWave kx g _ along,
      coordinate_beside_place d along]
    exact (hasDerivAt_acrossRow kx value slope).const_smul (exp (I * (kx * d.x : ℝ)))

end Slots

/-! ## Orders -/

/-- With a jet in place of the transform the slots of an order are those of a wave. -/
theorem LineOrder.map_slots_jet (kx : ℝ) (g : ℝ → ℂ) {d : Vec3 ℝ} (off : 0 < d.offLine) :
    (slots kx d.offLine d.y d.z (Radial.jet g d.offLine)).map
      (fun s => finiteOrZero (phase kx d.x * s)) = Slots.lineWave kx g d := by
  have apart : (d.offLine == (0.0 : ℝ)) = false := beq_zero_of_ne off.ne'
  simp only [slots, apart, Bool.false_eq_true, if_false, finiteOrZero_exact, phase_eq,
    imaginaryUnit_exact, ofReal_exact, Slots.lineWave, Slots.map, Radial.jet]

theorem Reciprocal.rho_of_construct {a : Vec2 ℝ} {k : ℂ} {point : Vec3 ℝ} {r : Reciprocal ℝ}
    (accepted : construct (.line a) k point = .ok r) : r.rho = point.offLine := by
  obtain ⟨r', built, rho, -⟩ := ofLine_of_spans (spans_of_construct accepted) k point
  obtain rfl := Except.ok.inj (accepted.symm.trans built)
  exact rho

section
variable [SpecialFunctions ℂ]
open LineTransform (longRange)
open Attempt

/-- Where the transforms of a list of orders are functions of the distance from the line with their
first two derivatives, the slots of the orders are their sum, as a function of the point, with its
partial derivatives. -/
theorem Distant.exists_lineShell {a : Vec2 ℝ} {k : ℂ} {point : Vec3 ℝ} {r : Reciprocal ℝ}
    (accepted : Reciprocal.construct (.line a) k point = .ok r) (off : 0 < point.offLine)
    (bloch : Vec2 ℝ) {E : ℝ} (split : E ≠ 0) (cells : List Cell) (g : Cell → ℝ → ℂ) :
    let far : Distant ℝ ℂ := ⟨.line, point, k, bloch, r, E⟩
    (∀ cell ∈ cells, LineOrder.isSingular k (far.along cell) = false ∧
      TwiceDifferentiable (g cell) ∧
      (longRange (LineOrder.transverse k (far.along cell)) r.rho E).answer =
        .ok (Radial.jet (g cell) r.rho)) →
    ∃ f : Vec3 ℝ → Slots ℂ, (far.shell cells).answer = .ok ⟨f point, false⟩ ∧
      ∀ d, 0 < d.offLine → f d = Slots.partials (fun d => (cells.map fun cell =>
        exp (I * (far.along cell * d.x : ℝ)) * g cell d.offLine).sum) d ∧ Slots.DeriveAt f d := by
  intro far orders
  have rho : r.rho = point.offLine := Reciprocal.rho_of_construct accepted
  let f (d : Vec3 ℝ) : Slots ℂ :=
    Slots.sum (cells.map fun cell => Slots.lineWave (far.along cell) (g cell) d)
  refine ⟨f, ?_, fun d off => ?_⟩
  · choose term answers using far.exists_order (by nofun) split
    have regular : (cells.any fun cell => (far.order cell).1) = false := by
      rw [List.any_eq_false]
      exact fun cell listed => Bool.eq_false_iff.mp (orders cell listed).1
    have waves : cells.map term =
        cells.map fun cell => Slots.lineWave (far.along cell) (g cell) point := by
      refine List.map_congr_left fun cell listed => ?_
      obtain ⟨-, -, transformed⟩ := orders cell listed
      have answered : (LineOrder.term k r.rho E point (far.along cell)).answer =
        .ok (term cell) := answers cell
      unfold LineOrder.term at answered
      rw [answer_bind, transformed, rho] at answered
      rw [← Except.ok.inj answered]
      exact LineOrder.map_slots_jet _ _ off
    rw [(far.cellwise (by nofun) answers).complete cells regular, waves]
  · have derive : ∀ d : Vec3 ℝ, 0 < d.offLine → Slots.DeriveAt f d := fun d off =>
      Slots.DeriveAt.sum fun cell listed =>
        Slots.DeriveAt.lineWave (far.along cell) (orders cell listed).2.1 off
    refine ⟨Slots.eq_partials Slots.isRegion_offLine derive (fun d _ => ?_) d off, derive d off⟩
    rw [Slots.value_sum, List.map_map]
    rfl

/-- The three numbers of the transform along a line are a function of the distance with its first
two derivatives, whichever way they are found: close to the line, after any number of passes, the
series cut there, and what is answered is one of these over one number; far from the line the Bessel
function, whichever root of the squared wavenumber is the outgoing one. With such functions as
transforms, the slots of any orders of which none is singular are the sum of their waves with its
partial derivatives. -/
theorem lineOrders_eq_partials :
    (∀ (kt2 : ℂ) (E rho : ℝ), kt2 ≠ 0 → 0 < E → 0 < rho →
      (rho * E ≤ 4.5 →
        let x := LineTransform.scaledArgument kt2 E
        let e1 := (ExponentialIntegral.expInt x).value
        let passes := LineTransform.Partial.after x (exp (-x)) rho E
          (LineTransform.Partial.initial e1)
        let sum (n : ℕ) (r : ℝ) : ℂ := ∑ q ∈ Finset.range (n + 1),
          ((-(r ^ 2 * E ^ 2)) ^ q / q.factorial : ℝ) * LineTransform.order x e1 q
        let norm : ℂ := (8 * Real.pi ^ 2 : ℝ)
        (∀ n, TwiceDifferentiable (sum n) ∧ (passes n).total = sum n rho ∧
          (passes n).first = deriv (sum n) rho ∧ (passes n).second = deriv (deriv (sum n)) rho) ∧
        ∃ n ≤ 999, (longRange kt2 rho E).answer =
          .ok ⟨(passes n).total / norm, (passes n).first / norm, (passes n).second / norm⟩) ∧
      (4.5 < rho * E →
        longRange kt2 rho E = pure (FreeSpace.rootTransform (kt2 ^ (1 / 2 : ℂ)) kt2 rho) ∧
        ∀ kt : ℂ, kt ^ 2 = kt2 → LineTransform.BesselRelations kt →
          let whole (r : ℝ) : ℂ := (besselK (kt * r)).1 / (4 * Real.pi ^ 2 : ℝ)
          TwiceDifferentiable whole ∧ FreeSpace.rootTransform kt kt2 rho =
            ⟨whole rho, deriv whole rho, deriv (deriv whole) rho⟩)) ∧
    ∀ (a : Vec2 ℝ) (k : ℂ) (point : Vec3 ℝ) (r : Reciprocal ℝ) (bloch : Vec2 ℝ) (E : ℝ)
      (cells : List Cell) (g : Cell → ℝ → ℂ),
      Reciprocal.construct (.line a) k point = .ok r → 0 < √(point.y ^ 2 + point.z ^ 2) → 0 < E →
      let far : Distant ℝ ℂ := ⟨.line, point, k, bloch, r, E⟩
      (∀ cell ∈ cells, LineOrder.isSingular k (far.along cell) = false ∧
        TwiceDifferentiable (g cell) ∧
        (longRange (LineOrder.transverse k (far.along cell)) r.rho E).answer =
          .ok ⟨g cell r.rho, deriv (g cell) r.rho, deriv (deriv (g cell)) r.rho⟩) →
      ∃ f : Vec3 ℝ → Slots ℂ, (far.shell cells).answer = .ok ⟨f point, false⟩ ∧
        ∀ d : Vec3 ℝ, 0 < √(d.y ^ 2 + d.z ^ 2) →
          f d = Slots.partials (fun d => (cells.map fun cell =>
            exp (I * (far.along cell * d.x : ℝ)) * g cell √(d.y ^ 2 + d.z ^ 2)).sum) d ∧
          Slots.DeriveAt f d := by
  refine ⟨fun kt2 E rho _ positive apart => ⟨fun near => ?_, fun far =>
    ⟨LineTransform.longRange_of_far kt2 far, fun kt root bessel => ?_⟩⟩, ?_⟩
  · intro x e1 passes sum norm
    refine ⟨fun n => ?_, LineTransform.answer_longRange_of_near kt2 positive apart near⟩
    obtain ⟨total, first, second⟩ :=
      Radial.mk.inj (LineTransform.after_eq_jet x e1 apart E n)
    exact ⟨(LineTransform.jet_cutSeries x e1 E n).1, total, first, second⟩
  · intro whole
    have same : whole = fun r => (FreeSpace.rootTransform kt kt2 r).value :=
      funext fun r => (LineTransform.value_rootTransform kt2 kt r).symm
    obtain ⟨twice, jet⟩ := LineTransform.jet_rootTransform kt2 root bessel
    rw [← same] at twice jet
    exact ⟨twice, (jet rho apart).symm⟩
  · intro a k point r bloch E cells g accepted off positive
    exact Distant.exists_lineShell accepted off bloch positive.ne' cells g

end

/-- Both ways for the transverse wavenumber `√3`, and two orders beside a line of unit cells, the
first of which has this wavenumber. -/
theorem lineOrders_eq_partials_unit :
    (∃ n ≤ 999,
      let x := LineTransform.scaledArgument (3 : ℂ) (1 : ℝ)
      let s := LineTransform.Partial.after x (exp (-x)) (1 : ℝ) 1
        (LineTransform.Partial.initial (ExponentialIntegral.expInt x).value) n
      let norm : ℂ := (8 * Real.pi ^ 2 : ℝ)
      (LineTransform.longRange 3 (1 : ℝ) 1).answer =
        .ok ⟨s.total / norm, s.first / norm, s.second / norm⟩) ∧
    let whole (kt2 : ℂ) (r : ℝ) : ℂ := (besselK (kt2 ^ (1 / 2 : ℂ) * r)).1 / (4 * Real.pi ^ 2 : ℝ)
    LineTransform.longRange 3 (5 : ℝ) 1 =
      pure ⟨whole 3 5, deriv (whole 3) 5, deriv (deriv (whole 3)) 5⟩ ∧
    ∃ r : Reciprocal ℝ, Reciprocal.construct (.line ⟨1, 0⟩) (1 : ℂ) ⟨0, 3, 4⟩ = .ok r ∧
      let far : Distant ℝ ℂ := ⟨.line, ⟨0, 3, 4⟩, 1, ⟨2, 0⟩, r, 1⟩
      let cells : List Cell := [⟨0, 0⟩, ⟨1, 0⟩]
      ∃ f : Vec3 ℝ → Slots ℂ, (far.shell cells).answer = .ok ⟨f ⟨0, 3, 4⟩, false⟩ ∧
        ∀ d : Vec3 ℝ, 0 < √(d.y ^ 2 + d.z ^ 2) →
          f d = Slots.partials (fun d => (cells.map fun cell =>
            exp (I * (far.along cell * d.x : ℝ)) *
              whole (far.along cell ^ 2 - 1 : ℝ) √(d.y ^ 2 + d.z ^ 2)).sum) d ∧
          Slots.DeriveAt f d := by
  obtain ⟨transforms, orders⟩ := lineOrders_eq_partials
  let whole (kt2 : ℂ) (r : ℝ) : ℂ := (besselK (kt2 ^ (1 / 2 : ℂ) * r)).1 / (4 * Real.pi ^ 2 : ℝ)
  have beyond : ∀ kt2 ∈ Complex.slitPlane, TwiceDifferentiable (whole kt2) ∧
      LineTransform.longRange kt2 (5 : ℝ) 1 =
        pure ⟨whole kt2 5, deriv (whole kt2) 5, deriv (deriv (whole kt2)) 5⟩ := by
    intro kt2 off
    obtain ⟨answered, jets⟩ := (transforms kt2 1 5 (Complex.slitPlane_ne_zero off) one_pos
      (by norm_num)).2 (by norm_num)
    obtain ⟨twice, jet⟩ := jets _ (sq_csqrt kt2) (besselRelations (re_csqrt_pos off))
    exact ⟨twice, answered.trans (congrArg pure jet)⟩
  have spans : (Basis.line ⟨1, 0⟩).Spans := by norm_num [Basis.Spans]
  obtain ⟨r, built, rho, -⟩ := Reciprocal.ofLine_of_spans spans 1 ⟨0, 3, 4⟩
  have five : √((3 : ℝ) ^ 2 + 4 ^ 2) = 5 := by
    rw [Real.sqrt_eq_iff_mul_self_eq (by norm_num) (by norm_num)]
    norm_num
  let far : Distant ℝ ℂ := ⟨.line, ⟨0, 3, 4⟩, 1, ⟨2, 0⟩, r, 1⟩
  refine ⟨((transforms 3 1 1 (by norm_num) one_pos one_pos).1 (by norm_num)).2,
    (beyond 3 (Complex.ofNat_mem_slitPlane 3)).2, r, built,
    orders ⟨1, 0⟩ 1 ⟨0, 3, 4⟩ r ⟨2, 0⟩ 1 [⟨0, 0⟩, ⟨1, 0⟩]
      (fun cell => whole (far.along cell ^ 2 - 1 : ℝ)) built (by rw [five]; norm_num) one_pos ?_⟩
  intro cell listed
  -- Both orders decay: their wavenumbers along the line are 2 and 2 less a turn.
  have decays : 4 ≤ far.along cell ^ 2 := by
    have period := (Reciprocal.gamma_ofLine built).1
    have turn := Real.pi_gt_three
    rw [mul_one] at period
    simp only [List.mem_cons, List.not_mem_nil, or_false] at listed
    rcases listed with rfl | rfl
    · norm_num [Distant.along]
    · norm_num [Distant.along, period]
      nlinarith
  have transverse : LineOrder.transverse (1 : ℂ) (far.along cell) =
      (far.along cell ^ 2 - 1 : ℝ) := by
    have whole := Reciprocal.transverse_ofReal 1 (far.along cell)
    rw [one_pow, Complex.ofReal_one] at whole
    exact whole
  have regular : LineOrder.isSingular (1 : ℂ) (far.along cell) = false := by
    have size : ‖((far.along cell ^ 2 : ℝ) : ℂ) - 1 ^ 2‖ = far.along cell ^ 2 - 1 := by
      rw [one_pow, ← Complex.ofReal_one, ← Complex.ofReal_sub, Complex.norm_real,
        Real.norm_of_nonneg (by linarith)]
    rw [Bool.eq_false_iff, Ne, LineOrder.isSingular_iff, Grazing, size, norm_one]
    intro grazing
    norm_num at grazing
    linarith
  obtain ⟨twice, answered⟩ := beyond (far.along cell ^ 2 - 1 : ℝ)
    (Complex.ofReal_mem_slitPlane.mpr (by linarith))
  rw [transverse, rho, five]
  refine ⟨regular, twice, ?_⟩
  rw [answered]
  rfl

end LatticeGreen

import LatticeGreen.FreeSpace
import LatticeGreen.Proofs.ExactScalars
import Mathlib

/-!
# Slots that are partial derivatives

The slots of a field belong to the sets of directions x, y and z. They are its partial derivatives
when every slot is the derivative, along each of its directions, of the slot without that direction.
Sums and multiples of such fields are such fields again, and so are functions of the distance from a
point whose slots are made of three further functions.
-/
namespace LatticeGreen
open Topology

/-- The directions of space. -/
inductive Axis where
  | x | y | z
  deriving DecidableEq, Repr

namespace Vec3
variable {R : Type}

/-- The coordinate along an axis. -/
def coordinate (d : Vec3 R) : Axis → R
  | .x => d.x
  | .y => d.y
  | .z => d.z

/-- A place moved parallel to an axis. -/
def place (d : Vec3 R) (a : Axis) (t : R) : Vec3 R :=
  match a with
  | .x => { d with x := t }
  | .y => { d with y := t }
  | .z => { d with z := t }

/-- The coordinates along the other two axes. -/
def across (d : Vec3 R) : Axis → Vec2 R
  | .x => ⟨d.y, d.z⟩
  | .y => ⟨d.x, d.z⟩
  | .z => ⟨d.x, d.y⟩

@[simp] theorem across_place (d : Vec3 R) (a : Axis) (t : R) :
    (d.place a t).across a = d.across a := by
  cases a <;> rfl

@[simp] theorem place_coordinate (d : Vec3 R) (a : Axis) : d.place a (d.coordinate a) = d := by
  cases a <;> rfl

end Vec3

/-- The derivative along an axis. -/
noncomputable def partialDeriv (a : Axis) (u : Vec3 ℝ → ℂ) (d : Vec3 ℝ) : ℂ :=
  deriv (fun t => u (d.place a t)) (d.coordinate a)

namespace Slots
variable {α : Type}

/-- The slots without a direction. -/
def without (s : Slots α) : Axis → Fin 4 → α
  | .x => ![s.value, s.dy, s.dz, s.dydz]
  | .y => ![s.value, s.dx, s.dz, s.dxdz]
  | .z => ![s.value, s.dx, s.dy, s.dxdy]

/-- The slots with a direction, each where the slot without it is. -/
def along (s : Slots α) : Axis → Fin 4 → α
  | .x => ![s.dx, s.dxdy, s.dxdz, s.dxdydz]
  | .y => ![s.dy, s.dxdy, s.dydz, s.dxdydz]
  | .z => ![s.dz, s.dxdz, s.dydz, s.dxdydz]

/-- The value of a function at a place with its partial derivatives. -/
noncomputable def partials (u : Vec3 ℝ → ℂ) (d : Vec3 ℝ) : Slots ℂ where
  value := u d
  dx := partialDeriv .x u d
  dy := partialDeriv .y u d
  dz := partialDeriv .z u d
  dxdy := partialDeriv .x (partialDeriv .y u) d
  dxdz := partialDeriv .x (partialDeriv .z u) d
  dydz := partialDeriv .y (partialDeriv .z u) d
  dxdydz := partialDeriv .x (partialDeriv .y (partialDeriv .z u)) d

/-- Every slot of a field is the derivative, along each of its directions, of the slot without
it. -/
def DeriveAt (f : Vec3 ℝ → Slots ℂ) (d : Vec3 ℝ) : Prop :=
  ∀ a, HasDerivAt (fun t => (f (d.place a t)).without a) ((f d).along a) (d.coordinate a)

/-! ## Derivatives of the value -/

/-- Small moves parallel to an axis do not leave the region. -/
def IsRegion (region : Vec3 ℝ → Prop) : Prop :=
  ∀ d, region d → ∀ a, ∀ᶠ t in 𝓝 (d.coordinate a), region (d.place a t)

theorem isRegion_everywhere : IsRegion fun _ => True := fun _ _ _ => Filter.Eventually.of_forall
  fun _ => trivial

/-- Where a quantity that changes continuously along every axis is large is a region. -/
theorem isRegion_lt {quantity : Vec3 ℝ → ℝ}
    (continuous : ∀ (d : Vec3 ℝ) a, Continuous fun t => quantity (d.place a t)) (bound : ℝ) :
    IsRegion fun d => bound < quantity d := by
  intro d inside a
  refine (continuous d a).continuousAt.eventually_const_lt ?_
  simpa only [d.place_coordinate] using inside

/-- A derivative looks at a function near the place only. -/
theorem partialDeriv_eq {region : Vec3 ℝ → Prop} (isRegion : IsRegion region) {a : Axis}
    {u w v : Vec3 ℝ → ℂ} (same : ∀ d, region d → u d = w d)
    (slope : ∀ d, region d → HasDerivAt (fun t => w (d.place a t)) (v d) (d.coordinate a)) :
    ∀ d, region d → partialDeriv a u d = v d := by
  intro d inside
  have near : (fun t => u (d.place a t)) =ᶠ[𝓝 (d.coordinate a)] fun t => w (d.place a t) := by
    filter_upwards [isRegion d inside a] with t stays
    exact same _ stays
  exact near.deriv_eq.trans (slope d inside).deriv

/-- Throughout a region, slots that derive from each other are the partial derivatives of their
value. -/
theorem eq_partials {region : Vec3 ℝ → Prop} (isRegion : IsRegion region) {f : Vec3 ℝ → Slots ℂ}
    (derive : ∀ d, region d → DeriveAt f d) {u : Vec3 ℝ → ℂ}
    (value : ∀ d, region d → u d = (f d).value) : ∀ d, region d → f d = partials u d := by
  have slope : ∀ a i d, region d →
      HasDerivAt (fun t => (f (d.place a t)).without a i) ((f d).along a i) (d.coordinate a) :=
    fun a i d inside => hasDerivAt_pi.mp (derive d inside a) i
  -- A mixed slot is differentiated along its axes from the last one to the first, each time
  -- starting from the equation for the slot that lacks the axis.
  have dx := partialDeriv_eq isRegion value (slope .x 0)
  have dy := partialDeriv_eq isRegion value (slope .y 0)
  have dz := partialDeriv_eq isRegion value (slope .z 0)
  have dxdy := partialDeriv_eq isRegion dy (slope .x 1)
  have dxdz := partialDeriv_eq isRegion dz (slope .x 2)
  have dydz := partialDeriv_eq isRegion dz (slope .y 2)
  have dxdydz := partialDeriv_eq isRegion dydz (slope .x 3)
  intro d inside
  unfold partials
  rw [value d inside, dx d inside, dy d inside, dz d inside, dxdy d inside, dxdz d inside,
    dydz d inside, dxdydz d inside]
  rfl

/-! ## Sums and multiples -/

theorem without_add (s t : Slots ℂ) (a : Axis) : (s + t).without a = s.without a + t.without a := by
  funext i
  cases a <;> fin_cases i <;> rfl

theorem along_add (s t : Slots ℂ) (a : Axis) : (s + t).along a = s.along a + t.along a := by
  funext i
  cases a <;> fin_cases i <;> rfl

theorem without_map (c : ℂ) (s : Slots ℂ) (a : Axis) :
    (s.map (c * ·)).without a = c • s.without a := by
  funext i
  cases a <;> fin_cases i <;> rfl

theorem along_map (c : ℂ) (s : Slots ℂ) (a : Axis) : (s.map (c * ·)).along a = c • s.along a := by
  funext i
  cases a <;> fin_cases i <;> rfl

theorem value_sum (rows : List (Slots ℂ)) :
    (Slots.sum rows).value = (rows.map Slots.value).sum := by
  rw [exactAddition_complex.sum_eq]
  induction rows with
  | nil => exact zeroC_exact
  | cons row rows ih =>
    rw [List.sum_cons, List.map_cons, List.sum_cons, ← ih]
    rfl

namespace DeriveAt
variable {f g : Vec3 ℝ → Slots ℂ} {d : Vec3 ℝ}

theorem zero : DeriveAt (fun _ => 0) d := by
  intro a
  have none : (0 : Slots ℂ).along a = 0 := by
    funext i
    cases a <;> fin_cases i <;> exact zeroC_exact
  rw [none]
  exact hasDerivAt_const _ _

theorem add (first : DeriveAt f d) (second : DeriveAt g d) : DeriveAt (fun d => f d + g d) d := by
  intro a
  simp only [without_add, along_add]
  exact (first a).add (second a)

theorem map (derive : DeriveAt f d) (c : ℂ) : DeriveAt (fun d => (f d).map (c * ·)) d := by
  intro a
  simp only [without_map, along_map]
  exact (derive a).const_smul c

/-- A sum over rows is a sum of fields. -/
theorem sum {ι : Type} {rows : ι → Vec3 ℝ → Slots ℂ} {list : List ι}
    (each : ∀ i ∈ list, DeriveAt (rows i) d) :
    DeriveAt (fun d => Slots.sum (list.map fun i => rows i d)) d := by
  simp only [exactAddition_complex.sum_eq]
  induction list with
  | nil => exact zero
  | cons i list ih =>
    simp only [List.map_cons, List.sum_cons]
    exact (each i List.mem_cons_self).add
      (ih fun j listed => each j (List.mem_cons_of_mem _ listed))

/-- Fields that agree near a place derive alike there. -/
theorem congr {region : Vec3 ℝ → Prop} (isRegion : IsRegion region) (inside : region d)
    (same : ∀ d, region d → f d = g d) (derive : DeriveAt g d) : DeriveAt f d := by
  intro a
  rw [same d inside]
  refine (derive a).congr_of_eventuallyEq ?_
  filter_upwards [isRegion d inside a] with t stays
  rw [same _ stays]

end DeriveAt

/-! ## Functions of the distance from a point -/

/-- A function of the distance, with the functions that its derivatives are multiples of: each is
the derivative of the one before, divided by the distance. -/
noncomputable def radial (h : ℕ → ℝ → ℂ) (d : Vec3 ℝ) : Slots ℂ :=
  let r := √(FreeSpace.lengthSquare d)
  { value := h 0 r
    dx := d.x * h 1 r
    dy := d.y * h 1 r
    dz := d.z * h 1 r
    dxdy := d.x * d.y * h 2 r
    dxdz := d.x * d.z * h 2 r
    dydz := d.y * d.z * h 2 r
    dxdydz := d.x * d.y * d.z * h 3 r }

/-- The places beyond a distance from the origin. -/
theorem isRegion_beyond (bound : ℝ) :
    IsRegion fun d => bound < √(FreeSpace.lengthSquare d) := by
  refine isRegion_lt (fun d a => ?_) bound
  cases a <;>
  · simp only [FreeSpace.lengthSquare, Vec3.place]
    fun_prop

theorem lengthSquare_nonneg (d : Vec3 ℝ) : 0 ≤ FreeSpace.lengthSquare d := by
  have square : ∀ t : ℝ, 0 ≤ t * t := mul_self_nonneg
  exact add_nonneg (add_nonneg (square d.x) (square d.y)) (square d.z)

/-- The square of the distance along an axis. -/
theorem hasDerivAt_lengthSquare (d : Vec3 ℝ) (a : Axis) :
    HasDerivAt (fun t => FreeSpace.lengthSquare (d.place a t)) (2 * d.coordinate a)
      (d.coordinate a) := by
  have own := (hasDerivAt_id (d.coordinate a)).mul (hasDerivAt_id (d.coordinate a))
  have double : 1 * id (d.coordinate a) + id (d.coordinate a) * 1 = 2 * d.coordinate a := by
    simp only [id_eq]
    ring
  rw [double] at own
  cases a with
  | x => exact (own.add_const (d.y * d.y)).add_const (d.z * d.z)
  | y => exact (own.const_add (d.x * d.x)).add_const (d.z * d.z)
  | z => exact own.const_add (d.x * d.x + d.y * d.y)

/-- The distance grows with a coordinate like the cosine of the angle to the axis. -/
theorem hasDerivAt_distance {d : Vec3 ℝ} (apart : 0 < FreeSpace.lengthSquare d) (a : Axis) :
    HasDerivAt (fun t => √(FreeSpace.lengthSquare (d.place a t)))
      (d.coordinate a / √(FreeSpace.lengthSquare d)) (d.coordinate a) := by
  have square := hasDerivAt_lengthSquare d a
  refine (square.sqrt (by rw [d.place_coordinate]; exact apart.ne')).congr_deriv ?_
  rw [d.place_coordinate]
  field_simp

/-- What the functions of the distance are multiplied by in the slots without an axis. -/
def rung (v : Vec2 ℝ) : ℕ → Fin 4 → ℂ
  | 0 => ![1, 0, 0, 0]
  | 1 => ![0, v.x, v.y, 0]
  | _ => ![0, 0, 0, v.x * v.y]

section
variable (h : ℕ → ℝ → ℂ) (d : Vec3 ℝ) (a : Axis)

theorem without_radial : (radial h d).without a =
    ∑ i ∈ Finset.range 3, h i √(FreeSpace.lengthSquare d) • rung (d.across a) i := by
  funext i
  cases a <;> fin_cases i <;>
    simp [without, radial, rung, Vec3.across, Finset.sum_range_succ, mul_comm]

theorem along_radial : (radial h d).along a = ∑ i ∈ Finset.range 3,
    (d.coordinate a * h (i + 1) √(FreeSpace.lengthSquare d)) • rung (d.across a) i := by
  funext i
  cases a <;> fin_cases i <;>
    simp [along, radial, rung, Vec3.across, Vec3.coordinate, Finset.sum_range_succ] <;> ring

end

/-- It is enough that each function, along each axis, has a derivative that is the coordinate times
the next one. -/
theorem DeriveAt.radial_of_climb {h : ℕ → ℝ → ℂ} {d : Vec3 ℝ}
    (climb : ∀ a, ∀ i < 3, HasDerivAt (fun t => h i √(FreeSpace.lengthSquare (d.place a t)))
      (d.coordinate a * h (i + 1) √(FreeSpace.lengthSquare d)) (d.coordinate a)) :
    DeriveAt (Slots.radial h) d := by
  intro a
  simp only [without_radial, along_radial, Vec3.across_place]
  exact HasDerivAt.fun_sum fun i below => (climb a i (Finset.mem_range.mp below)).smul_const _

theorem DeriveAt.radial {h : ℕ → ℝ → ℂ} {d : Vec3 ℝ} (apart : 0 < FreeSpace.lengthSquare d)
    (ladder : ∀ i < 3, HasDerivAt (h i)
      (√(FreeSpace.lengthSquare d) * h (i + 1) √(FreeSpace.lengthSquare d))
      √(FreeSpace.lengthSquare d)) :
    DeriveAt (radial h) d := by
  have distance : (√(FreeSpace.lengthSquare d) : ℂ) ≠ 0 := by
    exact_mod_cast (Real.sqrt_pos.mpr apart).ne'
  apply DeriveAt.radial_of_climb
  intro a i below
  have here : √(FreeSpace.lengthSquare d) =
      √(FreeSpace.lengthSquare (d.place a (d.coordinate a))) := by
    rw [d.place_coordinate]
  refine ((ladder i below).scomp_of_eq _ (hasDerivAt_distance apart a) here).congr_deriv ?_
  rw [Complex.real_smul]
  push_cast
  field_simp

/-- Functions of the square of the distance. The origin is no exception for them. -/
theorem DeriveAt.radial_sq {p : ℕ → ℝ → ℂ} {d : Vec3 ℝ}
    (ladder : ∀ i < 3, HasDerivAt (p i) (p (i + 1) (FreeSpace.lengthSquare d) / 2)
      (FreeSpace.lengthSquare d)) :
    DeriveAt (Slots.radial fun i r => p i (r ^ 2)) d := by
  have square : ∀ d, √(FreeSpace.lengthSquare d) ^ 2 = FreeSpace.lengthSquare d :=
    fun d => Real.sq_sqrt (lengthSquare_nonneg d)
  apply DeriveAt.radial_of_climb
  intro a i below
  simp only [square]
  have here : FreeSpace.lengthSquare d =
      FreeSpace.lengthSquare (d.place a (d.coordinate a)) := by
    rw [d.place_coordinate]
  refine ((ladder i below).scomp_of_eq _ (hasDerivAt_lengthSquare d a) here).congr_deriv ?_
  rw [Complex.real_smul]
  push_cast
  ring

end Slots

end LatticeGreen

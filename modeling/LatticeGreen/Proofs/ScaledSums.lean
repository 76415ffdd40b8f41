import LatticeGreen.Proofs.TightenedSettings
import LatticeGreen.Proofs.ZoneMeasures

/-!
# Scaled sums

The relative test divides a common factor out. Without an absolute tolerance a lattice sum therefore
stops where the sum of the scaled series stops, and it makes no difference whether the distant sum
is multiplied by its prefactor at the end or order by order.
-/
namespace LatticeGreen

/-! ## Scaled slots -/

section
variable (factor : ℂ)

theorem Slots.scale_zero : (Slots.zero : Slots ℂ).scale factor = Slots.zero := by
  simp only [scale, map, zero, replicate, zeroC_exact, zero_mul]

theorem Slots.scale_add (s t : Slots ℂ) :
    (s + t).scale factor = s.scale factor + t.scale factor := by
  change (zipWith _ s t).scale factor = zipWith _ (s.scale factor) (t.scale factor)
  simp only [scale, map, zipWith, add_mul]

theorem Slots.scale_sub (s t : Slots ℂ) :
    (s - t).scale factor = s.scale factor - t.scale factor := by
  change (zipWith _ s t).scale factor = zipWith _ (s.scale factor) (t.scale factor)
  simp only [scale, map, zipWith, sub_mul]

theorem Slots.modulus_scale (s : Slots ℂ) :
    (s.scale factor).map modulus = (s.map modulus).map (· * ‖factor‖) := by
  simp only [scale, map, modulus_exact, norm_mul]

end

theorem largest_map_mul {w : ℝ} (nonneg : 0 ≤ w) (x : ℝ) (xs : List ℝ) :
    largest (x * w) (xs.map (· * w)) = largest x xs * w := by
  induction xs generalizing x with
  | nil => rfl
  | cons y ys ih =>
    have step : largest x (y :: ys) = largest (max x y) ys := rfl
    have scaled : largest (x * w) ((y :: ys).map (· * w)) =
        largest (max (x * w) (y * w)) (ys.map (· * w)) := rfl
    rw [step, scaled, ← max_mul_of_nonneg x y nonneg, ih]

theorem Slots.largest_map_mul {w : ℝ} (nonneg : 0 ≤ w) (s : Slots ℝ) :
    (s.map (· * w)).largest = s.largest * w :=
  LatticeGreen.largest_map_mul nonneg s.value s.toList.tail

/-! ## The test of convergence -/

namespace SumState
variable (s : SumState ℝ ℂ) (factor : ℂ)

theorem deltas_scale :
    (s.mapSlots (·.scale factor)).deltas = s.deltas.map (· * ‖factor‖) := by
  unfold deltas mapSlots
  rw [← Slots.scale_sub, Slots.modulus_scale]

theorem magnitudes_scale :
    (s.mapSlots (·.scale factor)).magnitudes = s.magnitudes.map (· * ‖factor‖) :=
  Slots.modulus_scale factor s.values

/-- A slot is as significant and changes as much beside the largest slot as before. -/
theorem relativeDeltas_scale (nonzero : factor ≠ 0) (slotFloor : ℝ) :
    (s.mapSlots (·.scale factor)).relativeDeltas slotFloor = s.relativeDeltas slotFloor := by
  have positive : 0 < ‖factor‖ := norm_pos_iff.mpr nonzero
  unfold relativeDeltas
  dsimp only
  rw [deltas_scale, magnitudes_scale, Slots.largest_map_mul positive.le, Slots.toList_map,
    Slots.toList_map, List.zip_map, List.filterMap_map]
  refine congrArg₂ List.filterMap (funext fun slot => ?_) rfl
  obtain ⟨delta, magnitude⟩ := slot
  simp only [Function.comp_apply, Prod.map_apply, ← mul_assoc, mul_lt_mul_iff_left₀ positive,
    mul_div_mul_right _ _ positive.ne']

end SumState

/-- Without an absolute tolerance neither test sees a factor. -/
theorem Slots.unseen_scale {c : Convergence ℝ} (relative : c.absoluteTolerance = 0) {factor : ℂ}
    (nonzero : factor ≠ 0) : Slots.Unseen c (·.scale factor) where
  zero := Slots.scale_zero factor
  add := Slots.scale_add factor
  absolute s := by
    rw [relative]
    exact iff_of_false (SumState.not_largest_delta_neg _) s.not_largest_delta_neg
  relative s := s.relativeDeltas_scale factor nonzero c.slotFloor

/-! ## The prefactor -/

theorem Basis.exists_prefactor {basis : Basis ℝ} {k : ℂ} {point : Vec3 ℝ} {r : Reciprocal ℝ}
    (accepted : Reciprocal.construct basis k point = .ok r) :
    ∃ factor, basis.periodicity.prefactor r = .ok factor ∧ factor ≠ 0 := by
  have zone := Reciprocal.zoneMeasure_ne_zero accepted
  cases basis with
  | line a => exact ⟨_, rfl, zone⟩
  | plane a1 a2 =>
    have square : (16.0 * (pi * pi) : ℝ) ≠ 0 := by
      have := Real.pi_pos.ne'
      norm_num
    exact ⟨_, rfl, div_ne_zero zone square⟩

section
variable [SpecialFunctions ℂ]

/-- The prefactor may be applied to the orders instead of their sum. -/
theorem Distant.construct_eq_scaled (far : Distant ℝ ℂ) {c : Convergence ℝ}
    (relative : c.absoluteTolerance = 0) (split : far.splitting ≠ 0) {factor : ℝ}
    (found : far.prefactor = .ok factor) (nonzero : factor ≠ 0) :
    far.construct c =
      accumulate (fun cells => Contribution.mapSlots (·.scale (ofReal factor)) <$> far.shell cells)
        far.periodicity.dimension c Distant.description false := by
  have unseen : Slots.Unseen c (·.scale (ofReal factor : ℂ)) :=
    Slots.unseen_scale relative (Complex.ofReal_ne_zero.mpr nonzero)
  have scaled : accumulate (fun cells =>
        Contribution.mapSlots (·.scale (ofReal factor)) <$> far.shell cells)
        far.periodicity.dimension c Distant.description false =
      LatticeSum.mapValues (·.scale (ofReal factor)) <$>
        accumulate far.shell far.periodicity.dimension c Distant.description false :=
    accumulate_mapSlots unseen (fun _ => rfl) _ _ _ {}
  rw [scaled]
  unfold construct
  rw [beq_zero_of_ne split, found, map_eq_pure_bind]
  rfl

/-- Without an absolute tolerance a factor of the series is a factor of its sum: the counts, the
verdicts, what is noted and the failures are those of the sum without it. So the distant sum of a
lattice, interrupted or not, is the sum of its orders times their prefactor. -/
theorem scaled_sums_stop_alike (c : Convergence ℝ) (relative : c.absoluteTolerance = 0) :
    (∀ (series : List Cell → Attempt ℝ (Contribution ℂ)) (dimension : ℤ) (description : String)
      (excludeInner : Bool) (factor : ℂ), factor ≠ 0 →
      accumulate (fun cells => Contribution.mapSlots (·.scale factor) <$> series cells) dimension c
          description excludeInner =
        LatticeSum.mapValues (·.scale factor) <$>
          accumulate series dimension c description excludeInner) ∧
    ∀ near : Nearby ℝ ℂ, near.basis.Spans → 0 < near.splitting →
      ∃ r factor, Reciprocal.construct near.basis near.wavenumber near.point = .ok r ∧
        (near.distant r).prefactor = .ok factor ∧
        (near.distant r).construct c =
          accumulate (fun cells =>
              Contribution.mapSlots (·.scale (ofReal factor)) <$> (near.distant r).shell cells)
            (near.distant r).periodicity.dimension c Distant.description false := by
  constructor
  · intro series dimension description excludeInner factor nonzero
    exact accumulate_mapSlots (Slots.unseen_scale relative nonzero) (fun _ => rfl) dimension
      description excludeInner {}
  · intro near spans split
    obtain ⟨r, accepted⟩ := Reciprocal.exists_construct spans near.wavenumber near.point
    obtain ⟨factor, found, nonzero⟩ := Basis.exists_prefactor accepted
    exact ⟨r, factor, accepted, found,
      (near.distant r).construct_eq_scaled relative split.ne' found nonzero⟩

end

/-- A sum turned by a right angle, and the orders of an oblique plane with their prefactor. -/
theorem scaled_sums_stop_alike_overObliquePlane :
    let c : Convergence ℝ := { fiveShells with absoluteTolerance := 0 }
    let series (cells : List Cell) : Attempt ℝ (Contribution ℂ) :=
      pure ⟨Slots.replicate 1, cells.any fun cell => decide (cell.radius = 3)⟩
    accumulate (fun cells => Contribution.mapSlots (·.scale Complex.I) <$> series cells) 2 c "sum"
        true =
      LatticeSum.mapValues (·.scale Complex.I) <$> accumulate series 2 c "sum" true ∧
    ∃ r factor, Reciprocal.construct overObliquePlane.basis overObliquePlane.wavenumber
          overObliquePlane.point = .ok r ∧
      (overObliquePlane.distant r).prefactor = .ok factor ∧
      (overObliquePlane.distant r).construct c =
        accumulate (fun cells => Contribution.mapSlots (·.scale (ofReal factor)) <$>
            (overObliquePlane.distant r).shell cells)
          (overObliquePlane.distant r).periodicity.dimension c Distant.description false := by
  intro c series
  obtain ⟨scaled, orders⟩ := scaled_sums_stop_alike c rfl
  have split : 0 < overObliquePlane.splitting := one_pos
  exact ⟨scaled series 2 "sum" true Complex.I Complex.I_ne_zero,
    orders overObliquePlane spans_overObliquePlane split⟩

end LatticeGreen

import LatticeGreen.Proofs.NonFinite
import LatticeGreen.Proofs.StoppingRule

/-!
# Sums that have blown up

The test of convergence does not look for infinite or undefined sums. With a slot floor of zero or
more no slot of theirs exceeds the floor, so that the relative test measures nothing and passes:
each shell that leaves the sums blown up counts as converged. Only a negative floor lets it see
them, and only as long as no magnitude is undefined.
-/
namespace LatticeGreen
open Double

/-- Every slot is finite. -/
def Slots.Finite (v : Slots (Cartesian Float)) : Prop := ∀ z ∈ v.toList, finiteParts z = true

instance (v : Slots (Cartesian Float)) : Decidable v.Finite :=
  inferInstanceAs (Decidable (∀ z ∈ v.toList, _))

/-- The relative test notices that the sums have blown up: it measures them against a negative
floor, and no magnitude is undefined. -/
def Convergence.Notices (c : Convergence Float) (v : Slots (Cartesian Float)) : Prop :=
  c.slotFloor < 0.0 ∧ ∀ z ∈ v.toList, (modulus z : Float).isNaN = false

instance (c : Convergence Float) (v : Slots (Cartesian Float)) : Decidable (c.Notices v) :=
  inferInstanceAs (Decidable (_ ∧ _))

namespace Double

theorem finiteParts_eq_false_iff (z : Cartesian Float) :
    finiteParts z = false ↔ z.re.isFinite = false ∨ z.im.isFinite = false := by
  change (z.re.isFinite && z.im.isFinite) = false ↔ _
  exact Bool.and_eq_false_iff

theorem blownUp_modulus {z : Cartesian Float} (infinite : finiteParts z = false) :
    BlownUp (modulus z) :=
  blownUp_hypot ((finiteParts_eq_false_iff z).mp infinite)

theorem finiteParts_sub {z : Cartesian Float} (infinite : finiteParts z = false)
    (w : Cartesian Float) : finiteParts (z - w) = false := by
  rw [finiteParts_eq_false_iff] at infinite ⊢
  exact infinite.imp (isFinite_sub_left · w.re) (isFinite_sub_left · w.im)

end Double

theorem Slots.exists_of_not_finite {v : Slots (Cartesian Float)} (blown : ¬ v.Finite) :
    ∃ z ∈ v.toList, finiteParts z = false := by
  simpa [Slots.Finite] using blown

namespace SumState
variable (s : SumState Float (Cartesian Float)) (c : Convergence Float)

theorem mem_magnitudes {z : Cartesian Float} (member : z ∈ s.values.toList) :
    (modulus z : Float) ∈ s.magnitudes.toList := by
  rw [magnitudes, Slots.toList_map]
  exact List.mem_map_of_mem member

/-- Every slot has a change and a magnitude. -/
theorem mem_changes {z : Cartesian Float} (member : z ∈ s.values.toList) :
    ∃ w, ((modulus (z - w) : Float), modulus z) ∈ s.deltas.toList.zip s.magnitudes.toList := by
  have changes : s.deltas.toList.zip s.magnitudes.toList =
      (s.values.toList.zip s.lastValues.toList).map fun (z, w) => (modulus (z - w), modulus z) :=
    rfl
  have paired : z ∈ (s.values.toList.zip s.lastValues.toList).map Prod.fst := by
    rwa [List.map_fst_zip (by simp)]
  obtain ⟨⟨z, w⟩, slot, rfl⟩ := List.mem_map.mp paired
  rw [changes]
  exact ⟨w, List.mem_map.mpr ⟨(z, w), slot, rfl⟩⟩

theorem blownUp_largest_magnitude (blown : ¬ s.values.Finite) :
    BlownUp s.magnitudes.largest := by
  obtain ⟨z, member, infinite⟩ := Slots.exists_of_not_finite blown
  exact blownUp_largest ⟨_, s.mem_magnitudes member, blownUp_modulus infinite⟩

theorem blownUp_largest_delta (blown : ¬ s.values.Finite) : BlownUp s.deltas.largest := by
  obtain ⟨z, member, infinite⟩ := Slots.exists_of_not_finite blown
  obtain ⟨w, change⟩ := s.mem_changes member
  exact blownUp_largest ⟨_, (List.of_mem_zip change).1,
    blownUp_modulus (finiteParts_sub infinite w)⟩

/-- No slot is significant unless the relative test notices that the sums have blown up. -/
theorem relativeDeltas_of_blownUp (blown : ¬ s.values.Finite) (unnoticed : ¬ c.Notices s.values) :
    s.relativeDeltas c.slotFloor = [] := by
  -- No magnitude exceeds a floor that is infinite or undefined.
  have floor_blown : BlownUp (c.slotFloor * s.magnitudes.largest) := by
    by_cases negative : c.slotFloor < 0.0
    · have some_undefined : ∃ m ∈ s.magnitudes.toList, m.isNaN = true := by
        by_contra defined
        refine unnoticed ⟨negative, fun z member => ?_⟩
        rw [Bool.eq_false_iff]
        exact fun undefined => defined ⟨_, s.mem_magnitudes member, undefined⟩
      exact .inl (isNaN_mul_right _ ((isNaN_largest _ _).mpr some_undefined))
    · rcases s.blownUp_largest_magnitude blown with undefined | unbounded
      · exact .inl (isNaN_mul_right _ undefined)
      · exact blownUp_mul_unbounded unbounded negative
  unfold relativeDeltas
  rw [List.filterMap_eq_nil_iff]
  rintro ⟨delta, magnitude⟩ -
  exact if_neg (not_lt_of_blownUp floor_blown magnitude)

/-- Where the relative test notices it, the change of a slot that is not finite is undefined. -/
theorem relativeChange_of_noticed (blown : ¬ s.values.Finite) (noticed : c.Notices s.values) :
    (s.relativeChange c.slotFloor).isNaN = true := by
  obtain ⟨negative, defined⟩ := noticed
  obtain ⟨z, member, infinite⟩ := Slots.exists_of_not_finite blown
  obtain ⟨w, change⟩ := s.mem_changes member
  have magnitude_unbounded : Unbounded (modulus z) :=
    (blownUp_modulus infinite).resolve_left fun undefined =>
      Bool.false_ne_true ((defined z member).symm.trans undefined)
  have largest_defined : s.magnitudes.largest.isNaN = false := by
    rw [Bool.eq_false_iff, Ne, Slots.largest, isNaN_largest]
    rintro ⟨m, measured, undefined⟩
    have magnitude : m ∈ s.values.toList.map modulus := measured
    obtain ⟨y, slot, rfl⟩ := List.mem_map.mp magnitude
    rw [defined y slot] at undefined
    cases undefined
  have largest_unbounded : Unbounded s.magnitudes.largest :=
    unbounded_largest largest_defined ⟨_, s.mem_magnitudes member, magnitude_unbounded⟩
  -- The floor lies at minus infinity, so that the slot is measured.
  have significant : c.slotFloor * s.magnitudes.largest < modulus z :=
    lt_of_unbounded (mul_unbounded_of_neg largest_unbounded negative) magnitude_unbounded
  have measured : (modulus (z - w) : Float) / modulus z ∈ s.relativeDeltas c.slotFloor := by
    unfold relativeDeltas
    exact List.mem_filterMap.mpr ⟨_, change, if_pos significant⟩
  have undefined : ((modulus (z - w) : Float) / modulus z).isNaN = true :=
    isNaN_div_unbounded (blownUp_modulus (finiteParts_sub infinite w)) magnitude_unbounded
  unfold relativeChange
  cases changes : s.relativeDeltas c.slotFloor with
  | nil => simp [changes] at measured
  | cons x xs => exact (isNaN_largest x xs).mpr ⟨_, changes ▸ measured, undefined⟩

/-- Blown-up sums pass the test of convergence unless the relative test notices. -/
theorem passes_iff_of_blownUp (tolerant : 0.0 < c.relativeTolerance) (blown : ¬ s.values.Finite) :
    s.passes c = true ↔ ¬ c.Notices s.values := by
  constructor
  · intro passed noticed
    have absolute := not_lt_of_blownUp (s.blownUp_largest_delta blown) c.absoluteTolerance
    have relative := not_lt_of_blownUp (.inl (s.relativeChange_of_noticed c blown noticed))
      c.relativeTolerance
    simp [passes, absolute, relative] at passed
  · intro unnoticed
    have nothing : s.relativeChange c.slotFloor = 0.0 := by
      rw [relativeChange, s.relativeDeltas_of_blownUp c blown unnoticed]
    simp [passes, nothing, tolerant]

/-- Closing a shell with blown-up sums counts the shell as converged unless the relative test
notices. -/
theorem convergedRounds_update_of_blownUp (tolerant : 0.0 < c.relativeTolerance)
    (blown : ¬ s.values.Finite) :
    (s.update c).convergedRounds = if c.Notices s.values then 0 else s.convergedRounds + 1 := by
  have counted : (s.update c).convergedRounds =
      if s.passes c then s.convergedRounds + 1 else 0 := rfl
  rw [counted]
  by_cases noticed : c.Notices s.values
  · rw [if_pos noticed, if_neg]
    rw [s.passes_iff_of_blownUp c tolerant blown]
    exact not_not_intro noticed
  · rw [if_neg noticed, if_pos ((s.passes_iff_of_blownUp c tolerant blown).mpr noticed)]

end SumState

namespace Summation
variable (t : Summation Float (Cartesian Float))

/-- Shell `s` counts as converged: finite sums pass the test, blown-up sums are not noticed by
it. -/
def Counts (s : Nat) : Prop :=
  if (t.summed (s + 1)).Finite then t.passing s = true
  else ¬ t.convergence.Notices (t.summed (s + 1))

theorem passing_iff_counts (tolerant : 0.0 < t.convergence.relativeTolerance) (s : Nat) :
    t.passing s = true ↔ t.Counts s := by
  unfold Counts
  split
  · exact Iff.rfl
  · rename_i blown
    exact SumState.passes_iff_of_blownUp _ t.convergence tolerant blown

/-- A sum converges if and only if it stops without a singular round and its last shells, as many as
are wanted, all count as converged. -/
theorem Ends.converged_iff {t : Summation Float (Cartesian Float)} {n : Nat}
    {result : LatticeSum (Cartesian Float)} (ends : t.Ends n result)
    (tolerant : 0.0 < t.convergence.relativeTolerance) :
    result.converged = true ↔ result.singular = false ∧
      t.convergence.convergedRounds ≤ result.shellCount ∧
      ∀ i : Nat, (i : Int) ≤ result.shellCount →
        result.shellCount - t.convergence.convergedRounds < i → t.Counts i := by
  cases ends with
  | stopped s least regular =>
    rw [decide_eq_true_iff]
    simp only [Settled, t.passing_iff_counts tolerant, Int.ofNat_le, true_and]
  | singular s k least reached found => simp

/-- What keeps the verdict of a sum to finite sums. -/
theorem Ends.finite_of_converged_iff {t : Summation Float (Cartesian Float)} {n : Nat}
    {result : LatticeSum (Cartesian Float)} (ends : t.Ends n result)
    (tolerant : 0.0 < t.convergence.relativeTolerance) :
    (result.converged = true → result.values.Finite) ↔
      result.values.Finite ∨ result.singular = true ∨
        result.shellCount < t.convergence.convergedRounds ∨
        ∃ i : Nat, (i : Int) ≤ result.shellCount ∧
          result.shellCount - t.convergence.convergedRounds < i ∧ ¬ t.Counts i := by
  rw [ends.converged_iff tolerant]
  constructor
  · intro sound
    by_contra unsound
    simp only [not_or, not_exists, not_and, not_not, Int.not_lt] at unsound
    obtain ⟨blown, unbroken, enough, counts⟩ := unsound
    exact blown (sound ⟨Bool.eq_false_iff.mpr unbroken, enough, counts⟩)
  · rintro reasons ⟨unbroken, enough, counts⟩
    rcases reasons with finite | singular | short | ⟨i, low, late, fails⟩
    · exact finite
    · rw [unbroken] at singular
      cases singular
    · omega
    · exact absurd (counts i low late) fails

/-- Without room for as many shells as are wanted no sum converges. -/
theorem Ends.not_converged {t : Summation Float (Cartesian Float)} {n : Nat}
    {result : LatticeSum (Cartesian Float)} (ends : t.Ends n result)
    (wanted : 1 ≤ t.convergence.convergedRounds)
    (short : t.convergence.maxShells - t.convergence.firstRound < t.convergence.convergedRounds) :
    result.converged = false := by
  have rounds := ends.rounds_le
  cases ends with
  | stopped s least regular =>
    rw [decide_eq_false_iff_not]
    intro settled
    have enough := settled.1
    omega
  | singular s k least reached found => rfl

/-! ## A series of undefined terms -/

/-- A series whose terms are undefined. -/
def undefinedSeries (_ : List Cell) : Logged Float (Contribution (Cartesian Float)) :=
  pure ⟨Slots.replicate ⟨nan, nan⟩, false⟩

/-- The same sum over a series of undefined terms. -/
def overUndefined : Summation Float (Cartesian Float) := { t with series := undefinedSeries }

theorem value_summed_overUndefined (s : Nat) :
    ∃ x y : Float, (t.overUndefined.summed (s + 2)).value = ⟨x + nan, y + nan⟩ := by
  rw [summed_shell]
  exact ⟨_, _, rfl⟩

theorem not_finite_overUndefined (s : Nat) : ¬ (t.overUndefined.summed (s + 2)).Finite := by
  intro finite
  obtain ⟨x, y, value⟩ := t.value_summed_overUndefined s
  have undefined : (x + nan).isFinite = false := isFinite_of_isNaN (isNaN_add_right x isNaN_nan)
  have infinite : finiteParts (t.overUndefined.summed (s + 2)).value = false := by
    rw [value]
    exact (finiteParts_eq_false_iff _).mpr (.inl undefined)
  exact Bool.false_ne_true (infinite.symm.trans (finite _ List.mem_cons_self))

theorem not_notices_overUndefined (s : Nat) :
    ¬ t.convergence.Notices (t.overUndefined.summed (s + 2)) := by
  rintro ⟨-, defined⟩
  obtain ⟨x, y, value⟩ := t.value_summed_overUndefined s
  have slot := defined _ List.mem_cons_self
  rw [value] at slot
  have undefined : (hypot (x + nan) (y + nan)).isNaN = true :=
    isNaN_hypot (isNaN_add_right x isNaN_nan) (isNaN_add_right y isNaN_nan)
  exact Bool.false_ne_true (slot.symm.trans undefined)

/-- Undefined sums settle after as many shells as are wanted. -/
theorem settled_overUndefined (tolerant : 0.0 < t.convergence.relativeTolerance) (s : Nat)
    (enough : t.convergence.convergedRounds ≤ s) : t.overUndefined.Settled s := by
  refine ⟨enough, fun i low late => ?_⟩
  have late_shell : (s : Int) - t.convergence.convergedRounds < i := late
  obtain ⟨j, rfl⟩ : ∃ j, i = j + 1 := ⟨i - 1, by omega⟩
  refine (t.overUndefined.passing_iff_counts tolerant (j + 1)).mpr ?_
  rw [Counts, if_neg (t.not_finite_overUndefined j)]
  exact t.not_notices_overUndefined j

/-- A sum over undefined terms is taken for converged as soon as there is room for the shells
wanted. -/
theorem run_overUndefined (description : String) (begins : t.Begins)
    (tolerant : 0.0 < t.convergence.relativeTolerance)
    (wanted : 1 ≤ t.convergence.convergedRounds)
    (room : t.convergence.convergedRounds ≤ t.convergence.maxShells - t.convergence.firstRound) :
    ∃ result asked events,
      t.overUndefined.run description = Attempt.done (result, asked) events ∧
      result.converged = true ∧ ¬ result.values.Finite := by
  obtain ⟨s, least⟩ := t.overUndefined.exists_isLeast_mayStop
  have regular : ∀ k ≤ s, ¬ t.overUndefined.SingularRound k :=
    fun k _ singular => Bool.false_ne_true singular.2
  have settled : t.overUndefined.Settled s := by
    rcases least.1 with settled | capped
    · exact settled
    · have cap : max 0 (t.convergence.maxShells - t.convergence.firstRound) ≤ s := capped
      exact t.settled_overUndefined tolerant s (by omega)
  -- The sums are undefined from the first shell on.
  obtain ⟨j, rfl⟩ : ∃ j, s = j + 1 := by
    have enough : t.convergence.convergedRounds ≤ s := settled.1
    exact ⟨s - 1, by omega⟩
  exact ⟨_, _, _, t.overUndefined.run_stopped description begins _ least regular,
    decide_eq_true settled, t.not_finite_overUndefined j⟩

/-- When a sum that has blown up is taken for converged. Closing a shell with blown-up sums counts
it as converged unless the test notices. A run keeps its verdict to finite sums exactly when its
sums are finite, a singular round ended it, it has fewer shells than are wanted or one of its last
shells does not count. Under given settings every run does so exactly when there is no room for the
shells wanted, so that nothing converges. -/
theorem converged_blown_up_iff (t : Summation Float (Cartesian Float)) (description : String)
    (tolerant : 0.0 < t.convergence.relativeTolerance)
    (wanted : 1 ≤ t.convergence.convergedRounds) :
    (∀ s : SumState Float (Cartesian Float), ¬ s.values.Finite →
      (s.update t.convergence).convergedRounds =
        if t.convergence.Notices s.values then 0 else s.convergedRounds + 1) ∧
    (∀ result asked events, t.run description = Attempt.done (result, asked) events →
      ((result.converged = true → result.values.Finite) ↔
        result.values.Finite ∨ result.singular = true ∨
          result.shellCount < t.convergence.convergedRounds ∨
          ∃ i : Nat, (i : Int) ≤ result.shellCount ∧
            result.shellCount - t.convergence.convergedRounds < i ∧ ¬ t.Counts i)) ∧
    ((∀ series result asked events,
        { t with series := series }.run description = Attempt.done (result, asked) events →
        result.converged = true → result.values.Finite) ↔
      (t.Begins →
        t.convergence.maxShells - t.convergence.firstRound < t.convergence.convergedRounds)) := by
  refine ⟨fun s blown => s.convergedRounds_update_of_blownUp _ tolerant blown, ?_, ?_⟩
  · intro result asked events ran
    obtain ⟨-, n, ends, -⟩ := t.ends_of_run description ran
    exact ends.finite_of_converged_iff tolerant
  · constructor
    · intro sound begins
      by_contra room
      obtain ⟨result, asked, events, ran, converged, blown⟩ :=
        t.run_overUndefined description begins tolerant wanted (by omega)
      exact blown (sound _ result asked events ran converged)
    · intro short series result asked events ran converged
      obtain ⟨begins, n, ends, -⟩ := ends_of_run _ description ran
      rw [ends.not_converged wanted (short begins)] at converged
      cases converged

/-- A sum of undefined terms on a line, with room for four shells where three are wanted. -/
def undefinedOnLine : Summation Float (Cartesian Float) where
  series := undefinedSeries
  dimension := 1
  convergence :=
    { absoluteTolerance := 0.0, relativeTolerance := 1.0e-8, slotFloor := 1.0e-10
      firstRound := 1, maxShells := 5, convergedRounds := 3 }
  excludeInner := false

theorem run_undefinedOnLine_converges :
    ∃ result asked events, undefinedOnLine.run "sum" = Attempt.done (result, asked) events ∧
      result.converged = true ∧ ¬ result.values.Finite :=
  undefinedOnLine.run_overUndefined "sum" (fun _ => by decide) (by decide) (by decide) (by decide)

/-- The same sum with room for two shells only. -/
def undefinedShort : Summation Float (Cartesian Float) :=
  { undefinedOnLine with convergence := { undefinedOnLine.convergence with maxShells := 3 } }

theorem run_undefinedShort :
    ∃ result asked events, undefinedShort.run "sum" = Attempt.done (result, asked) events ∧
      (result.converged = true → result.values.Finite) := by
  have verdicts := (undefinedShort.converged_blown_up_iff "sum" (by decide) (by decide)).2.2
  obtain ⟨n, result, ends⟩ := undefinedShort.exists_ends
  have ran := undefinedShort.run_of_ends "sum" (fun _ => by decide) ends
  exact ⟨result, _, _, ran, verdicts.mpr (fun _ => by decide) _ result _ _ ran⟩

end Summation

end LatticeGreen

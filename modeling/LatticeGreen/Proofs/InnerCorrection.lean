import LatticeGreen.Proofs.ComplementaryError
import LatticeGreen.Proofs.InnerCells
import LatticeGreen.Proofs.NearbyRows
import LatticeGreen.Proofs.RecordedRun
import LatticeGreen.Proofs.SingularRetry
import LatticeGreen.Proofs.SplittingBounds

/-!
# Leaving out the innermost cells

In exact arithmetic an evaluation without the innermost cells differs from the whole one by what
these cells contribute. Both take the same distant sum. The nearby sums differ by the short-range
halves of the innermost cells, and the correction takes off their long-range halves; the two halves
of a cell make up the free-space kernel at the cell, times its phase.
-/
namespace LatticeGreen

/-! ## The nearby sums -/

namespace Summation
variable {R C : Type}

/-- Up to the same shell, a whole sum has asked for the cells that were left out besides those of
the other sum. -/
theorem flatten_rounds_perm_append (t : Summation R C) (first : 1 ≤ t.convergence.firstRound)
    (s : Nat) :
    ((({ t with excludeInner := false } : Summation R C).rounds (s + 1)).flatten).Perm
      ((({ t with excludeInner := true } : Summation R C).rounds (s + 1)).flatten ++
        Cell.block t.dimension 1) := by
  let whole : Summation R C := { t with excludeInner := false }
  let outer : Summation R C := { t with excludeInner := true }
  have begun : 0 ≤ t.convergence.firstRound := by omega
  have apart : ((outer.rounds (s + 1)).flatten ++ Cell.block t.dimension 1).Nodup := by
    refine (outer.nodup_flatten_rounds begun s).append (Cell.nodup_block _ _) ?_
    intro cell beyond inner
    have := ((outer.mem_flatten_rounds_excluded begun rfl s cell).mp beyond).2.1
    have := ((Cell.mem_block _ _ cell).mp inner).2
    have : outer.convergence.firstRound = t.convergence.firstRound := rfl
    omega
  refine (List.perm_ext_iff_of_nodup (whole.nodup_flatten_rounds begun s) apart).mpr ?_
  intro cell
  rw [List.mem_append, whole.mem_flatten_rounds begun,
    outer.mem_flatten_rounds_excluded begun rfl, Cell.mem_block]
  change Cell.OnLattice t.dimension cell ∧ _ ∧ (false = true → _) ↔
    Cell.OnLattice t.dimension cell ∧ min 1 t.convergence.firstRound < _ ∧ _ ∨ _
  have : whole.convergence.firstRound = t.convergence.firstRound := rfl
  have : outer.convergence.firstRound = t.convergence.firstRound := rfl
  grind

end Summation

namespace Nearby

section
variable {R C : Type} [Add R] [Sub R] [Mul R] [Div R] [Neg R] [OfScientific R] [IntCast R]
variable [BEq R] [LT R] [DecidableLT R] [LE R] [DecidableLE R] [Pow R Nat] [RealFunctions R]
variable [Add C] [Sub C] [Mul C] [Div C] [Neg C] [ComplexFunctions R C] [SpecialFunctions C]

/-- The nearby sum as a sum to be taken. -/
def summation (near : Nearby R C) (c : Convergence R) (excludeInner : Bool) : Summation R C where
  series cells := pure ⟨near.shell cells, false⟩
  dimension := near.basis.dimension
  convergence := c
  excludeInner

/-- No term is singular, so the sum holds all rounds up to its last shell, which lies within the
cap. -/
theorem values_construct (near : Nearby R C) (c : Convergence R) (excludeInner : Bool)
    (begins : excludeInner = true → 0 ≤ c.firstRound) {result : LatticeSum C}
    {events : List (Event R)}
    (summed : near.construct c excludeInner = Attempt.done result events) :
    ∃ s : Nat, result.shellCount = s ∧ (s : Int) ≤ max 0 (c.maxShells - c.firstRound) ∧
      result.values = (near.summation c excludeInner).summed (s + 1) := by
  let t := near.summation c excludeInner
  have begun : t.Begins := begins
  obtain ⟨n, result', ends⟩ := t.exists_ends
  have recorded : near.construct c excludeInner = Prod.fst <$> t.run description := by
    rw [t.map_fst_run description begun]
    rfl
  rw [recorded, t.run_of_ends description begun ends, Attempt.map_done, Attempt.done_inj] at summed
  obtain ⟨rfl, -⟩ := summed
  have capped := ends.rounds_le
  cases ends with
  | stopped s least regular =>
    refine ⟨s, rfl, ?_, rfl⟩
    change ((s + 1 : Nat) : Int) ≤ 1 + max 0 (c.maxShells - c.firstRound) at capped
    omega
  | singular s k least reached found => exact absurd found.1.2 Bool.false_ne_true

/-- Nearby sums that ran the same number of shells differ by the innermost cells. -/
theorem values_construct_eq_add (near : Nearby R C) (exact : ExactAddition R C) (c : Convergence R)
    (first : 1 ≤ c.firstRound) {whole outer : LatticeSum C} {events later : List (Event R)}
    (all : near.construct c false = Attempt.done whole events)
    (most : near.construct c true = Attempt.done outer later)
    (same : whole.shellCount = outer.shellCount) :
    whole.values = outer.values +
      Slots.sum ((Cell.block near.basis.dimension 1).map near.term) := by
  obtain ⟨s, shells, -, total⟩ := near.values_construct c false (fun left => nomatch left) all
  obtain ⟨s', shells', -, total'⟩ := near.values_construct c true (fun _ => by omega) most
  obtain rfl : s = s' := by omega
  have additive : ∀ excluded cells, (near.summation c excluded).contribution cells =
      Slots.sum (cells.map near.term) :=
    fun _ => near.shell_eq_sum
  rw [total, total', Summation.summed_of_additive _ exact _ (additive false),
    Summation.summed_of_additive _ exact _ (additive true), ← exact.sum_append, ← List.map_append]
  exact exact.sum_perm (((near.summation c false).flatten_rounds_perm_append first s).map _)

/-- Outside of a vanishing splitting parameter the long-range halves are those of the cells. -/
theorem value_longRange (near : Nearby R C) (divided : (near.splitting == 0.0) = false)
    (cells : List Cell) :
    (near.longRange cells).value = Slots.sum (cells.map fun cell =>
      (LongRange.term near.wavenumber near.splitting (near.source cell)).value) := by
  rw [longRange_eq_mapM, if_neg (by simp [divided]), ← Logged.value_mapM]
  rfl

end

end Nearby

/-! ## The two halves of a cell -/

/-- A phase is a factor of the kernel. -/
theorem FreeSpace.term_eq_map_green (k : ℂ) (d : Vec3 ℝ) (phase : ℂ) :
    FreeSpace.term k d phase = (FreeSpace.green k d).map (phase * ·) := by
  have one : ((1.0 : ℝ) : ℂ) = 1 := by norm_num
  unfold green term
  split
  · simp only [Slots.map, Slots.zero, Slots.replicate, zeroC_exact, mul_zero]
  · simp only [Slots.map, ofReal_exact, one, one_mul, mul_assoc]

section
variable [SpecialFunctions ℂ]

/-- Where the series is not used, the long-range half is what the short-range half leaves of the
kernel. -/
theorem ShortRange.term_add_longRange (k : ℂ) (eta : ℝ) (source : Source ℝ ℂ)
    (apart : LongRange.isSmall k eta source = false) :
    ShortRange.term k eta source + (LongRange.term k eta source).value =
      FreeSpace.term k source.displacement source.phase := by
  rw [LongRange.value_term, if_neg (Bool.eq_false_iff.mp apart)]
  exact add_sub_cancel _ _

namespace Nearby

/-- The length of the displacement from the source in a cell. -/
noncomputable def distance (near : Nearby ℝ ℂ) (cell : Cell) : ℝ :=
  √(FreeSpace.lengthSquare (near.displacement cell))

/-- The series of the long-range half is used for a cell: its source is close beside the splitting
length and the wavelength. -/
def IsClose (near : Nearby ℝ ℂ) (cell : Cell) : Prop :=
  near.distance cell * near.splitting < 0.1 ∧ near.distance cell * ‖near.wavenumber‖ < 1

omit [SpecialFunctions ℂ] in
theorem isSmall_iff (near : Nearby ℝ ℂ) (cell : Cell) :
    LongRange.isSmall near.wavenumber near.splitting (near.source cell) = true ↔
      near.IsClose cell := by
  have one : (1.0 : ℝ) = 1 := by norm_num
  unfold LongRange.isSmall
  rw [Bool.and_eq_true, decide_eq_true_iff, decide_eq_true_iff, one]
  exact Iff.rfl

omit [SpecialFunctions ℂ] in
theorem isSmall_eq_false (near : Nearby ℝ ℂ) {cell : Cell} (apart : ¬ near.IsClose cell) :
    LongRange.isSmall near.wavenumber near.splitting (near.source cell) = false :=
  Bool.eq_false_iff.mpr (mt (near.isSmall_iff cell).mp apart)

/-- What the two sums hold of a list of cells is the kernel at these, times their phases. -/
theorem sum_term_add_longRange (near : Nearby ℝ ℂ) (cells : List Cell)
    (apart : near.splitting = 0 ∨ ∀ cell ∈ cells, ¬ near.IsClose cell) :
    Slots.sum (cells.map near.term) + (near.longRange cells).value =
      Slots.sum (cells.map fun cell =>
        (FreeSpace.green near.wavenumber (near.displacement cell)).map (near.phase cell * ·)) := by
  by_cases whole : near.splitting = 0
  · have undivided : (near.splitting == 0.0) = true := by rw [beq_zero_exact, whole]; simp
    have nothing : (near.longRange cells).value = Slots.zero := by
      unfold longRange
      rw [if_pos undivided]
      rfl
    have each : near.term = fun cell =>
        (FreeSpace.green near.wavenumber (near.displacement cell)).map (near.phase cell * ·) := by
      funext cell
      unfold term
      rw [if_pos undivided, FreeSpace.term_eq_map_green]
      rfl
    rw [nothing, each]
    exact add_zero _
  · have divided : (near.splitting == 0.0) = false := by rw [beq_zero_exact]; simp [whole]
    rw [near.value_longRange divided, exactAddition_complex.sum_map_add]
    refine congrArg Slots.sum (List.map_congr_left fun cell member => ?_)
    have short : near.term cell =
        ShortRange.term near.wavenumber near.splitting (near.source cell) := by
      unfold term
      rw [if_neg (by simp [divided])]
    have far := near.isSmall_eq_false (apart.resolve_left whole cell member)
    rw [short, ShortRange.term_add_longRange _ _ _ far, FreeSpace.term_eq_map_green]
    rfl

end Nearby

/-! ## The two evaluations -/

namespace PeriodicGreen
open Attempt

variable {green : PeriodicGreen ℝ} {point bloch : RealArray ℝ} {k : ℂ} {reading : Reading ℝ}

omit [SpecialFunctions ℂ] in
theorem not_underflows (basis : Basis ℝ) (eta : ℝ) : ¬ basis.Underflows eta := by
  rintro ⟨-, divided, vanishes⟩
  rw [beq_zero_exact] at divided vanishes
  simp_all

/-- In exact arithmetic every accepted evaluation takes its course. -/
theorem evaluate_course (accepted : green.Accepts point k bloch reading) :
    ∃ result after events noted, green.evaluate point k bloch = done result noted ∧
      green.Course point k reading ⟨[bloch], []⟩ after result events := by
  have unchanged : ∀ c : ℂ, c - zeroC = c := by simp
  have held : [bloch][0]? = some bloch := rfl
  rcases course_or_underflow unchanged accepted (w := ⟨[bloch], []⟩) held with
    ⟨result, after, events, ran, course⟩ | ⟨-, underflows⟩
  · refine ⟨result, after, events, events, ?_, course⟩
    exact (congrArg (Prod.fst <$> ·) ran).trans (map_done _ _ _)
  · exact absurd underflows (not_underflows _ _)

/-- Over a line the sums are taken again if an order of the first block grazes the line. -/
theorem retried_of_grazing (accepted : green.Accepts point k bloch reading) {a : Vec2 ℝ}
    (line : reading.basis = .line a) (split : green.splittingFor reading.reciprocal ≠ 0)
    (cell : Cell) (first : cell ∈ Cell.block 1 green.convergence.firstRound)
    (grazing : LineOrder.isSingular k
      (reading.bloch.x - (cell.n1 : ℝ) * reading.reciprocal.gamma1.x) = true)
    {result : Evaluation ℝ ℂ} {events : List (Event ℝ)}
    (ran : green.evaluate point k bloch = done result events) : result.retried = true := by
  obtain ⟨result', after, _, noted, ran', course⟩ := evaluate_course accepted
  obtain rfl := (done_inj.mp (ran.symm.trans ran')).1
  have singular := green.singular_sums a reading.point (beq_zero_of_ne split) cell first grazing
  rw [← line] at singular
  exact course.retried_of_singular singular

/-- For one Bloch vector the pairs of sums with and without the innermost cells share their distant
sum. -/
theorem sumsFor_whole_outer (lattice : Lattice ℝ) (splitting : ℝ) (c : Convergence ℝ)
    (first : 1 ≤ c.firstRound) (k : ℂ) (reading : Reading ℝ) (bloch : Vec2 ℝ) :
    let whole : PeriodicGreen ℝ := ⟨lattice, splitting, false, c, {}⟩
    let outer : PeriodicGreen ℝ := ⟨lattice, splitting, true, c, {}⟩
    let near : Nearby ℝ ℂ :=
      ⟨reading.point, k, bloch, reading.basis, whole.splittingFor reading.reciprocal⟩
    ∃ nearby nearby' distant, ∃ e e' noted noted' : List (Event ℝ),
      whole.sumsFor k reading bloch = done ⟨near, nearby, distant⟩ e ∧
      outer.sumsFor k reading bloch = done ⟨near, nearby', distant⟩ e' ∧
      near.construct c false = done nearby noted ∧ near.construct c true = done nearby' noted' := by
  intro whole outer near
  let far : Distant ℝ ℂ := ⟨reading.basis.periodicity, reading.point, k, bloch, reading.reciprocal,
    whole.splittingFor reading.reciprocal⟩
  have pair : ∀ excluded, (⟨lattice, splitting, excluded, c, {}⟩ : PeriodicGreen ℝ).sumsFor k
      reading bloch = (do
        let nearby ← near.construct c excluded
        let distant ← far.construct c
        return ⟨near, nearby, distant⟩) :=
    fun excluded => sums_eq ⟨lattice, splitting, excluded, c, {}⟩ _ _ _ _ _ _
  have certain : Within (fun _ => False) (whole.sumsFor k reading bloch : Attempt ℝ (Halves ℝ ℂ)) :=
    (whole.within_sums rfl (fun left => nomatch left) _ _ _ _ _ _).weaken
      fun _ fails => not_underflows _ _ fails.2
  obtain ⟨_, e, total, -⟩ := certain.exists_done
  have parts := total
  rw [pair false] at parts
  obtain ⟨nearby, noted, _, all, parts⟩ := exists_of_bind_eq_done parts
  obtain ⟨distant, later, _, found, parts⟩ := exists_of_bind_eq_done parts
  rw [← (done_inj.mp parts).1] at total
  obtain ⟨nearby', noted', most, -⟩ :=
    (near.within_construct c true (fun _ => by omega)).exists_done
  have others : outer.sumsFor k reading bloch =
      done ⟨near, nearby', distant⟩ (noted' ++ (later ++ [])) := by
    rw [pair true, most, done_bind, found, done_bind]
    rfl
  exact ⟨nearby, nearby', distant, e, _, noted, noted', total, others, all, most⟩

omit [SpecialFunctions ℂ] in
/-- Arguments that can be read are accepted on vectors that span a cell, with the innermost cells
and without. -/
theorem exists_accepts {lattice : Lattice ℝ} {basis : Basis ℝ}
    (vectors : lattice.vectors = .ok basis) (spans : basis.Spans) {p : Vec3 ℝ}
    (place : readPoint point = .ok p) {b : Vec2 ℝ}
    (phase : readBloch lattice.dimension bloch = .ok b) (wave : k ≠ 0) (splitting : ℝ)
    {c : Convergence ℝ} (first : 1 ≤ c.firstRound) :
    ∃ reciprocal, Reciprocal.construct basis k p = .ok reciprocal ∧
      ∀ excluded, (⟨lattice, splitting, excluded, c, {}⟩ : PeriodicGreen ℝ).Accepts point k bloch
        ⟨p, b, basis, reciprocal⟩ := by
  obtain ⟨reciprocal, built⟩ := Reciprocal.exists_construct spans k p
  have found : lattice.reciprocal k p = .ok reciprocal := by
    rw [Lattice.reciprocal_eq vectors, built]
    rfl
  exact ⟨reciprocal, built, fun _ =>
    { place, phase, vectors
      reciprocal := found
      wave := by simpa using wave
      readable := rfl
      begins := fun _ => (show (0 : Int) ≤ 1 by decide).trans first }⟩

/-- The evaluations with and without the innermost cells take the same course: what they share, and
their nearby sums. -/
theorem course_whole_outer {lattice : Lattice ℝ} {splitting : ℝ} {c : Convergence ℝ}
    (first : 1 ≤ c.firstRound) {before after after' : Workspace ℝ}
    {whole outer : Evaluation ℝ ℂ} {events later : List (Event ℝ)}
    (course : (⟨lattice, splitting, false, c, {}⟩ : PeriodicGreen ℝ).Course point k reading before
      after whole events)
    (course' : (⟨lattice, splitting, true, c, {}⟩ : PeriodicGreen ℝ).Course point k reading before
      after' outer later) :
    let near : Nearby ℝ ℂ := ⟨reading.point, k, whole.bloch, reading.basis, whole.splitting⟩
    outer.distant = whole.distant ∧ outer.retried = whole.retried ∧
      outer.splitting = whole.splitting ∧ outer.bloch = whole.bloch ∧
      (∃ noted, near.construct c false = done whole.nearby noted) ∧
      ∃ noted, near.construct c true = done outer.nearby noted := by
  -- The first pairs of sums decide on a second one alike.
  have retried : outer.retried = whole.retried := by
    obtain ⟨nearby, nearby', distant, e, e', _, _, total, most, -, -⟩ :=
      sumsFor_whole_outer lattice splitting c first k reading reading.bloch
    obtain ⟨halves, _, asked, decided⟩ := course.retried
    obtain ⟨halves', _, asked', decided'⟩ := course'.retried
    obtain rfl := (done_inj.mp (total.symm.trans asked)).1
    obtain rfl := (done_inj.mp (most.symm.trans asked')).1
    rw [decided, decided']
  have same_bloch : outer.bloch = whole.bloch := by
    rw [course.bloch, course'.bloch, retried]
  have same_splitting : outer.splitting = whole.splitting :=
    course'.splitting.trans course.splitting.symm
  -- So the last pairs of sums are those for one Bloch vector.
  obtain ⟨nearby, nearby', distant, e, e', noted, noted', total, most, near_whole, near_outer⟩ :=
    sumsFor_whole_outer lattice splitting c first k reading whole.bloch
  obtain ⟨halves, _, asked, nearby_eq, distant_eq⟩ := course.sums
  obtain ⟨halves', _, asked', nearby_eq', distant_eq'⟩ := course'.sums
  rw [course.splitting] at asked
  rw [same_bloch, course'.splitting] at asked'
  obtain rfl := (done_inj.mp (total.symm.trans asked)).1
  obtain rfl := (done_inj.mp (most.symm.trans asked')).1
  refine ⟨distant_eq'.trans distant_eq.symm, retried, same_splitting, same_bloch, ⟨noted, ?_⟩,
    ⟨noted', ?_⟩⟩
  · rw [nearby_eq, ← near_whole, course.splitting]
  · rw [nearby_eq', ← near_outer, course.splitting]

/-- Evaluations with and without the innermost cells retry alike, for the same Bloch vector and
splitting parameter, and share their distant sum. Where their nearby sums ran the same number of
shells, they differ by the nearby terms of the innermost cells and the correction, and this is the
kernel at these cells unless the series in the distance was used for one. -/
theorem evaluate_whole_sub_outer {lattice : Lattice ℝ} {basis : Basis ℝ}
    (vectors : lattice.vectors = .ok basis) (spans : basis.Spans) {point : RealArray ℝ}
    {p : Vec3 ℝ} (place : readPoint point = .ok p) {bloch : RealArray ℝ} {b : Vec2 ℝ}
    (phase : readBloch lattice.dimension bloch = .ok b) {k : ℂ} (wave : k ≠ 0) (splitting : ℝ)
    {c : Convergence ℝ} (first : 1 ≤ c.firstRound) :
    ∃ whole outer : Evaluation ℝ ℂ, ∃ events later,
      (⟨lattice, splitting, false, c, {}⟩ : PeriodicGreen ℝ).evaluate point k bloch =
        done whole events ∧
      (⟨lattice, splitting, true, c, {}⟩ : PeriodicGreen ℝ).evaluate point k bloch =
        done outer later ∧
      outer.distant = whole.distant ∧ outer.retried = whole.retried ∧
      outer.splitting = whole.splitting ∧ outer.bloch = whole.bloch ∧
      (∃ reciprocal, lattice.reciprocal k p = .ok reciprocal ∧
        whole.splitting = if splitting == automatic then reciprocal.optimalSplitting
          else splitting) ∧
      let near : Nearby ℝ ℂ := ⟨p, k, whole.bloch, basis, whole.splitting⟩
      let inner := Cell.block basis.dimension 1
      (∃ noted, near.construct c false = done whole.nearby noted) ∧
      (∃ noted, near.construct c true = done outer.nearby noted) ∧
      (whole.nearby.shellCount = outer.nearby.shellCount →
        whole.values - outer.values = Slots.sum (inner.map near.term) + outer.innerCorrection ∧
        ((whole.splitting = 0 ∨ ∀ cell ∈ inner, ¬ near.IsClose cell) →
          whole.values - outer.values = Slots.sum (inner.map fun cell =>
            (FreeSpace.green k (near.displacement cell)).map (near.phase cell * ·)))) := by
  obtain ⟨reciprocal, -, accepted⟩ := exists_accepts vectors spans place phase wave splitting first
  obtain ⟨whole, after, _, events, ran, course⟩ := evaluate_course (accepted false)
  obtain ⟨outer, after', _, later, ran', course'⟩ := evaluate_course (accepted true)
  obtain ⟨distant, retried, same_splitting, same_bloch, ⟨noted, all⟩, ⟨noted', most⟩⟩ :=
    course_whole_outer first course course'
  refine ⟨whole, outer, events, later, ran, ran', distant, retried, same_splitting, same_bloch,
    ⟨reciprocal, (accepted false).reciprocal, course.splitting⟩, ?_⟩
  intro near inner
  refine ⟨⟨noted, all⟩, ⟨noted', most⟩, fun shells => ?_⟩
  have nearby_sums := near.values_construct_eq_add exactAddition_complex c first all most shells
  have uncorrected : whole.innerCorrection = 0 := course.inner
  have corrected : outer.innerCorrection = (near.longRange inner).value := by
    rw [course'.inner, same_bloch, same_splitting]
    rfl
  have difference : whole.values - outer.values =
      Slots.sum (inner.map near.term) + outer.innerCorrection := by
    rw [course.values, course'.values, nearby_sums, uncorrected, distant]
    abel
  refine ⟨difference, fun apart => ?_⟩
  rw [difference, corrected]
  exact near.sum_term_add_longRange inner apart

end PeriodicGreen

end

/-- The lattice of unit squares. -/
noncomputable def unitSquare : Lattice ℝ := ⟨.rectangular, ⟨2, 2, [], [1, 0, 0, 1], rfl⟩⟩

/-- The sum over the innermost cells alone. -/
noncomputable def innermostOnly : Convergence ℝ where
  absoluteTolerance := 0
  relativeTolerance := 1
  slotFloor := 0
  firstRound := 1
  maxShells := 1
  convergedRounds := 1

namespace PeriodicGreen
open Attempt

/-- Over the unit squares, at a height of one above the middle of a square and without shells after
the first block, the sum without the innermost cells lacks the kernel at nine of them. -/
def LacksInner (splitting : ℝ) : Prop :=
  ∃ whole outer : Evaluation ℝ ℂ, ∃ events later,
    (⟨unitSquare, splitting, false, innermostOnly, {}⟩ : PeriodicGreen ℝ).evaluate
      (.ofList [1 / 2, 1 / 2, 1]) (1 : ℂ) (.ofList [1, 0]) = done whole events ∧
    (⟨unitSquare, splitting, true, innermostOnly, {}⟩ : PeriodicGreen ℝ).evaluate
      (.ofList [1 / 2, 1 / 2, 1]) (1 : ℂ) (.ofList [1, 0]) = done outer later ∧
    whole.splitting = splitting ∧
    let near : Nearby ℝ ℂ :=
      ⟨⟨1 / 2, 1 / 2, 1⟩, 1, whole.bloch, .plane ⟨1, 0⟩ ⟨0, 1⟩, whole.splitting⟩
    whole.values - outer.values =
      Slots.sum ((Cell.block 2 1).map near.term) + outer.innerCorrection ∧
    whole.values - outer.values = Slots.sum ((Cell.block 2 1).map fun cell =>
      (FreeSpace.green 1 (near.displacement cell)).map (near.phase cell * ·))

/-- The plain sum, and a split one whose innermost cells are all too far for the series. -/
theorem evaluate_unitSquare_inner : LacksInner 0 ∧ LacksInner 1 := by
  have square : (Basis.plane ⟨1, 0⟩ ⟨0, 1⟩).Spans := by norm_num [Basis.Spans, Vec2.cross]
  have vectors : unitSquare.vectors = .ok (.plane ⟨1, 0⟩ ⟨0, 1⟩) := rfl
  have place : readPoint (.ofList [1 / 2, 1 / 2, 1]) = .ok (⟨1 / 2, 1 / 2, 1⟩ : Vec3 ℝ) := rfl
  have phase : readBloch unitSquare.dimension (.ofList [1, 0]) = .ok (⟨1, 0⟩ : Vec2 ℝ) := rfl
  have lacks : ∀ splitting : ℝ, splitting = 0 ∨ 1 ≤ splitting → LacksInner splitting := by
    intro splitting scale
    obtain ⟨whole, outer, events, later, ran, ran', -, -, -, -, ⟨reciprocal, -, given⟩,
      ⟨noted, all⟩, ⟨noted', most⟩, differ⟩ := evaluate_whole_sub_outer vectors square place phase
        (k := 1) one_ne_zero splitting (c := innermostOnly) (by decide)
    have positive : (-1.0 : ℝ) < splitting := by
      rcases scale with rfl | large
      · norm_num
      · linarith
    have kept : whole.splitting = splitting := by
      rw [given, if_neg]
      exact fun chosen => positive.ne' (eq_of_beq chosen)
    obtain ⟨s, shells, capped, -⟩ :=
      Nearby.values_construct _ _ false (fun left => nomatch left) all
    obtain ⟨s', shells', capped', -⟩ := Nearby.values_construct _ _ true (fun _ => by decide) most
    have idle : max 0 (innermostOnly.maxShells - innermostOnly.firstRound) = 0 := rfl
    have same : whole.nearby.shellCount = outer.nearby.shellCount := by omega
    refine ⟨whole, outer, events, later, ran, ran', kept, (differ same).1, (differ same).2 ?_⟩
    rw [kept]
    refine scale.imp_right fun large cell _ close => ?_
    -- The height alone keeps the point away from all sources.
    have apart : 1 ≤ Nearby.distance ⟨⟨1 / 2, 1 / 2, 1⟩, 1, whole.bloch,
        .plane ⟨1, 0⟩ ⟨0, 1⟩, splitting⟩ cell := by
      refine Real.one_le_sqrt.mpr ?_
      unfold FreeSpace.lengthSquare Nearby.displacement
      nlinarith
    have reached := close.1
    nlinarith
  exact ⟨lacks 0 (.inl rfl), lacks 1 (.inr le_rfl)⟩

end PeriodicGreen

end LatticeGreen

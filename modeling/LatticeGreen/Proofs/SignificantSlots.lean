import LatticeGreen.Proofs.TightenedSettings

/-!
# Significant slots

The relative test leaves out the slots below the floor, and what remains of them in the running sums
has no say in the largest slot either. Two sums whose series agree on some slots, while all others
stay below the floor, stop after the same shell and agree on these slots.
-/
namespace LatticeGreen

/-- The names of the eight slots. -/
inductive Slot where
  | value | dx | dy | dz | dxdy | dxdz | dydz | dxdydz
  deriving DecidableEq, Repr

/-- The slots in the order of the structure. -/
def Slot.all : List Slot := [.value, .dx, .dy, .dz, .dxdy, .dxdz, .dydz, .dxdydz]

theorem Slot.mem_all (i : Slot) : i ∈ Slot.all := by
  cases i <;> decide

namespace Slots
variable {α β : Type}

def entry (s : Slots α) : Slot → α
  | .value => s.value
  | .dx => s.dx
  | .dy => s.dy
  | .dz => s.dz
  | .dxdy => s.dxdy
  | .dxdz => s.dxdz
  | .dydz => s.dydz
  | .dxdydz => s.dxdydz

theorem toList_eq_map (s : Slots α) : s.toList = Slot.all.map s.entry := rfl

@[simp] theorem entry_map (f : α → β) (s : Slots α) (i : Slot) :
    (s.map f).entry i = f (s.entry i) := by
  cases i <;> rfl

@[simp] theorem entry_replicate (a : α) (i : Slot) : (replicate a).entry i = a := by
  cases i <;> rfl

@[simp] theorem entry_add [Add α] (s t : Slots α) (i : Slot) :
    (s + t).entry i = s.entry i + t.entry i := by
  cases i <;> rfl

@[simp] theorem entry_sub [Sub α] (s t : Slots α) (i : Slot) :
    (s - t).entry i = s.entry i - t.entry i := by
  cases i <;> rfl

theorem mem_zip_toList_iff (s : Slots α) (t : Slots β) (a : α) (b : β) :
    (a, b) ∈ s.toList.zip t.toList ↔ ∃ i, s.entry i = a ∧ t.entry i = b := by
  rw [toList_eq_map, toList_eq_map, List.zip_map', List.mem_map]
  simp only [Slot.mem_all, true_and, Prod.mk.injEq]

theorem largest_lt_iff_entry (s : Slots ℝ) (bound : ℝ) :
    s.largest < bound ↔ ∀ i, s.entry i < bound := by
  have listed : s.value :: s.toList.tail = Slot.all.map s.entry := rfl
  unfold largest
  rw [largest_lt_iff, listed, List.forall_mem_map]
  exact ⟨fun below i => below i i.mem_all, fun below i _ => below i⟩

theorem entry_le_largest (s : Slots ℝ) (i : Slot) : s.entry i ≤ s.largest := by
  by_contra above
  rw [not_le, largest_lt_iff_entry] at above
  exact lt_irrefl _ (above i)

/-! ## Slots that count -/

/-- Both hold the same in the slots of `S`. -/
def AgreeOn (S : Set Slot) (s t : Slots α) : Prop := ∀ i ∈ S, s.entry i = t.entry i

theorem AgreeOn.symm {S : Set Slot} {s t : Slots α} (agree : s.AgreeOn S t) : t.AgreeOn S s :=
  fun i member => (agree i member).symm

theorem AgreeOn.add [Add α] {S : Set Slot} {s s' t t' : Slots α} (left : s.AgreeOn S s')
    (right : t.AgreeOn S t') : (s + t).AgreeOn S (s' + t') := by
  intro i member
  rw [entry_add, entry_add, left i member, right i member]

/-- No slot outside of `S` exceeds the largest slot in `S` times `slotFloor`. -/
def FaintOutside (S : Set Slot) (slotFloor : ℝ) (s : Slots ℂ) : Prop :=
  ∀ i ∉ S, ∃ j ∈ S, ‖s.entry i‖ ≤ slotFloor * ‖s.entry j‖

section
variable {S : Set Slot} {slotFloor : ℝ} {s t : Slots ℂ} (floor : slotFloor ∈ Set.Icc 0 1)
include floor

/-- With a floor of one at most, the largest slot is one that counts. -/
theorem FaintOutside.largest_lt_iff (faint : s.FaintOutside S slotFloor) (bound : ℝ) :
    (s.map modulus).largest < bound ↔ ∀ i ∈ S, ‖s.entry i‖ < bound := by
  rw [largest_lt_iff_entry]
  simp only [entry_map, modulus_exact]
  constructor
  · exact fun below i _ => below i
  · intro below i
    by_cases member : i ∈ S
    · exact below i member
    · obtain ⟨j, counts, fainter⟩ := faint i member
      have lowered : slotFloor * ‖s.entry j‖ ≤ ‖s.entry j‖ :=
        mul_le_of_le_one_left (norm_nonneg _) floor.2
      exact (fainter.trans lowered).trans_lt (below j counts)

theorem FaintOutside.largest_eq (agree : s.AgreeOn S t) (faint : s.FaintOutside S slotFloor)
    (faint' : t.FaintOutside S slotFloor) :
    (s.map modulus).largest = (t.map modulus).largest := by
  refine eq_of_forall_gt_iff fun bound => ?_
  rw [faint.largest_lt_iff floor, faint'.largest_lt_iff floor]
  refine forall₂_congr fun i member => ?_
  rw [agree i member]

/-- A slot above the floor is one that counts: the floor itself is not above it. -/
theorem FaintOutside.mem_of_significant (faint : s.FaintOutside S slotFloor) {i : Slot}
    (significant : slotFloor * (s.map modulus).largest < ‖s.entry i‖) : i ∈ S := by
  by_contra outside
  obtain ⟨j, -, fainter⟩ := faint i outside
  have bounded : ‖s.entry j‖ ≤ (s.map modulus).largest := by
    have entry := (s.map modulus).entry_le_largest j
    rwa [entry_map] at entry
  have lowered := mul_le_mul_of_nonneg_left bounded floor.1
  exact absurd significant (fainter.trans lowered).not_gt

end

end Slots

/-! ## The test of convergence -/

namespace SumState

/-- Without an absolute tolerance the test asks for a small relative change in every slot above the
floor. -/
theorem passes_iff_entry (s : SumState ℝ ℂ) {c : Convergence ℝ}
    (relative : c.absoluteTolerance = 0) :
    s.passes c = true ↔ 0 < c.relativeTolerance ∧
      ∀ i, c.slotFloor * s.magnitudes.largest < ‖s.values.entry i‖ →
        ‖s.values.entry i - s.lastValues.entry i‖ / ‖s.values.entry i‖ < c.relativeTolerance := by
  rw [passes_iff, relative, or_iff_right s.not_largest_delta_neg, relativeChange_lt_iff]
  refine and_congr_right fun _ => ?_
  simp only [mem_relativeDeltas_iff, Slots.mem_zip_toList_iff, deltas, magnitudes, Slots.entry_map,
    Slots.entry_sub, modulus_exact]
  constructor
  · intro small i significant
    exact small _ ⟨_, _, ⟨i, rfl, rfl⟩, significant, rfl⟩
  · rintro small _ ⟨_, _, ⟨i, rfl, rfl⟩, significant, rfl⟩
    exact small i significant

variable {s s' : SumState ℝ ℂ} {c : Convergence ℝ} {S : Set Slot}

theorem passes_of_agreeOn (relative : c.absoluteTolerance = 0) (floor : c.slotFloor ∈ Set.Icc 0 1)
    (agree : s.values.AgreeOn S s'.values) (agreed : s.lastValues.AgreeOn S s'.lastValues)
    (faint : s.values.FaintOutside S c.slotFloor) (faint' : s'.values.FaintOutside S c.slotFloor)
    (passed : s.passes c = true) : s'.passes c = true := by
  rw [passes_iff_entry _ relative] at passed ⊢
  obtain ⟨positive, small⟩ := passed
  refine ⟨positive, fun i significant => ?_⟩
  have counts : i ∈ S := faint'.mem_of_significant floor significant
  have largest : s.magnitudes.largest = s'.magnitudes.largest :=
    faint.largest_eq floor agree faint'
  rw [← largest, ← agree i counts] at significant
  rw [← agree i counts, ← agreed i counts]
  exact small i significant

/-- What goes on in the faint slots does not reach the test. -/
theorem passes_eq_of_agreeOn (relative : c.absoluteTolerance = 0)
    (floor : c.slotFloor ∈ Set.Icc 0 1) (agree : s.values.AgreeOn S s'.values)
    (agreed : s.lastValues.AgreeOn S s'.lastValues)
    (faint : s.values.FaintOutside S c.slotFloor) (faint' : s'.values.FaintOutside S c.slotFloor) :
    s.passes c = s'.passes c := by
  rw [Bool.eq_iff_iff]
  constructor
  · exact passes_of_agreeOn relative floor agree agreed faint faint'
  · exact passes_of_agreeOn relative floor agree.symm agreed.symm faint' faint

end SumState

/-- Two series that call the same lists of cells singular and answer alike in the slots of `S`. -/
structure AlikeSeries (S : Set Slot) (series series' : List Cell → Logged ℝ (Contribution ℂ)) :
    Prop where
  singular : ∀ cells, (series' cells).value.singular = (series cells).value.singular
  slots : ∀ cells, (series cells).value.slots.AgreeOn S (series' cells).value.slots

namespace Summation

/-! ## Rounds that are summed -/

section
variable {t : Summation ℝ ℂ}

/-- Round `s` enters the running sums: no shell before it may be the last, and no round up to it is
singular. -/
def Reaches (t : Summation ℝ ℂ) (s : ℕ) : Prop :=
  (∀ j < s, ¬ t.MayStop j) ∧ ∀ k ≤ s, ¬ t.SingularRound k

theorem Reaches.mono {s s' : ℕ} (reaches : t.Reaches s) (earlier : s' ≤ s) : t.Reaches s' :=
  ⟨fun j below => reaches.1 j (below.trans_le earlier),
    fun k below => reaches.2 k (below.trans earlier)⟩

theorem reaches_of_isLeast {s s' : ℕ} (least : IsLeast {s | t.MayStop s} s) (earlier : s' ≤ s)
    (regular : ∀ k ≤ s', ¬ t.SingularRound k) : t.Reaches s' := by
  refine ⟨fun j below stops => ?_, regular⟩
  have later : s ≤ j := least.2 stops
  omega

theorem reaches_zero_iff : t.Reaches 0 ↔ ¬ t.SingularRound 0 := by
  unfold Reaches
  simp

theorem reaches_succ_iff (s : ℕ) :
    t.Reaches (s + 1) ↔ t.Reaches s ∧ ¬ t.MayStop s ∧ ¬ t.SingularRound (s + 1) := by
  constructor
  · intro reaches
    exact ⟨reaches.mono (Nat.le_succ s), reaches.1 s (Nat.lt_succ_self s),
      reaches.2 (s + 1) le_rfl⟩
  · rintro ⟨reaches, going, regular⟩
    constructor
    · intro j below
      rcases Nat.lt_succ_iff_lt_or_eq.mp below with earlier | rfl
      · exact reaches.1 j earlier
      · exact going
    · intro k below
      rcases Nat.le_succ_iff.mp below with earlier | rfl
      · exact reaches.2 k earlier
      · exact regular

/-- The shells that enter the running sums are those that the result counts. -/
theorem Ends.reaches_iff {n : ℕ} {result : LatticeSum ℂ} (ends : t.Ends n result) (s : ℕ) :
    t.Reaches (s + 1) ↔ (s + 1 : ℕ) ≤ result.shellCount := by
  cases ends with
  | stopped last least regular =>
    change _ ↔ ((s + 1 : ℕ) : ℤ) ≤ (last : ℤ)
    rw [Int.ofNat_le]
    constructor
    · intro reaches
      by_contra beyond
      exact reaches.1 last (not_le.mp beyond) least.1
    · intro counted
      exact reaches_of_isLeast least counted fun k below => regular k (below.trans counted)
  | singular last k least reached found =>
    change _ ↔ ((s + 1 : ℕ) : ℤ) ≤ ((k - 1 : ℕ) : ℤ)
    rw [Int.ofNat_le]
    constructor
    · intro reaches
      by_contra beyond
      exact reaches.2 k (by omega) found.1
    · intro counted
      refine reaches_of_isLeast least (by omega) fun k' below singular => ?_
      have later : k ≤ k' := found.2 singular
      omega

end

/-- After each shell that the result counts, the slots outside of `S` are faint. -/
def FaintOutside (t : Summation ℝ ℂ) (S : Set Slot) : Prop :=
  ∀ description result asked events, t.run description = Attempt.done (result, asked) events →
    ∀ s : ℕ, 0 < s → s ≤ result.shellCount →
      (t.summed (s + 1)).FaintOutside S t.convergence.slotFloor

theorem FaintOutside.of_reaches {t : Summation ℝ ℂ} {S : Set Slot} (faint : t.FaintOutside S)
    (begins : t.Begins) {s : ℕ} (reaches : t.Reaches (s + 1)) :
    (t.summed (s + 2)).FaintOutside S t.convergence.slotFloor := by
  obtain ⟨n, result, ends⟩ := t.exists_ends
  have ran := t.run_of_ends "" begins ends
  exact faint "" result _ _ ran (s + 1) s.succ_pos ((ends.reaches_iff s).mp reaches)

/-- The same sum of another series. -/
def asking {R C : Type} (t : Summation R C) (series : List Cell → Logged R (Contribution C)) :
    Summation R C := { t with series := series }

/-- Another series that differs from that of the sum in faint slots only, where the relative test
decides. -/
structure DiffersFaintly (t : Summation ℝ ℂ) (S : Set Slot)
    (series' : List Cell → Logged ℝ (Contribution ℂ)) : Prop where
  begins : t.Begins
  relative : t.convergence.absoluteTolerance = 0
  floor : t.convergence.slotFloor ∈ Set.Icc 0 1
  alike : AlikeSeries S t.series series'
  faint : t.FaintOutside S
  faint' : (t.asking series').FaintOutside S

namespace DiffersFaintly
variable {t : Summation ℝ ℂ} {series' : List Cell → Logged ℝ (Contribution ℂ)} {S : Set Slot}
variable (differs : t.DiffersFaintly S series')
include differs

theorem singularRound_iff (k : ℕ) : (t.asking series').SingularRound k ↔ t.SingularRound k := by
  have flag := differs.alike.singular (t.round k)
  change t.asks k = true ∧ (series' (t.round k)).value.singular = true ↔ _
  rw [flag, SingularRound]

theorem summed_agreeOn (k : ℕ) : (t.summed k).AgreeOn S ((t.asking series').summed k) := by
  induction k with
  | zero => exact fun i _ => rfl
  | succ k ih =>
    have grown : (t.asking series').summed (k + 1) =
        if t.asks k then (t.asking series').summed k + (series' (t.round k)).value.slots
        else (t.asking series').summed k := (t.asking series').summed_succ k
    rw [summed_succ, grown]
    split
    · exact ih.add (differs.alike.slots (t.round k))
    · exact ih

/-! ## Where the two sums stop -/

theorem passing_eq {s : ℕ} (reaches : t.Reaches (s + 1))
    (reaches' : (t.asking series').Reaches (s + 1)) :
    (t.asking series').passing (s + 1) = t.passing (s + 1) := by
  have faint := differs.faint.of_reaches differs.begins reaches
  have faint' := differs.faint'.of_reaches differs.begins reaches'
  exact (SumState.passes_eq_of_agreeOn differs.relative differs.floor
    (differs.summed_agreeOn (s + 2)) (differs.summed_agreeOn (s + 1)) faint faint').symm

/-- The first block is no shell, so the run of passing shells is one of shells that both sums
count. -/
theorem settled_iff {s : ℕ} (reaches : t.Reaches s) (reaches' : (t.asking series').Reaches s) :
    (t.asking series').Settled s ↔ t.Settled s := by
  refine and_congr_right fun enough => forall₂_congr fun i low => ?_
  have wanted : t.convergence.convergedRounds ≤ s := enough
  refine imp_congr_right fun late => ?_
  have shell : (s : ℤ) - t.convergence.convergedRounds < i := late
  obtain ⟨j, rfl⟩ : ∃ j, i = j + 1 := ⟨i - 1, by omega⟩
  rw [differs.passing_eq (reaches.mono low) (reaches'.mono low)]

theorem mayStop_iff {s : ℕ} (reaches : t.Reaches s) (reaches' : (t.asking series').Reaches s) :
    (t.asking series').MayStop s ↔ t.MayStop s :=
  or_congr_left (differs.settled_iff reaches reaches')

/-- Round after round both sums go on, or neither does. -/
theorem reaches_iff (s : ℕ) : (t.asking series').Reaches s ↔ t.Reaches s := by
  induction s with
  | zero => rw [reaches_zero_iff, reaches_zero_iff, differs.singularRound_iff]
  | succ s ih =>
    rw [reaches_succ_iff, reaches_succ_iff, ih, differs.singularRound_iff]
    refine and_congr_right fun reaches => ?_
    rw [differs.mayStop_iff reaches (ih.mpr reaches)]

/-- A sum that no singular round has ended before shell `s` stops there if the other one does. -/
theorem isLeast_mayStop {s : ℕ} (least : IsLeast {s | t.MayStop s} s)
    (regular : ∀ k ≤ s, ¬ t.SingularRound k) : IsLeast {s | (t.asking series').MayStop s} s := by
  have reaches := reaches_of_isLeast least le_rfl regular
  have reaches' := (differs.reaches_iff s).mpr reaches
  refine ⟨(differs.mayStop_iff reaches reaches').mpr least.1, fun j other => ?_⟩
  by_contra earlier
  exact reaches'.1 j (not_le.mp earlier) other

/-- The other sum is not stopped before the singular round either. -/
theorem le_stop {s s' k : ℕ} (least : IsLeast {s | t.MayStop s} s) (reached : k ≤ s)
    (found : IsLeast {k | t.SingularRound k} k)
    (least' : IsLeast {s | (t.asking series').MayStop s} s') : k ≤ s' := by
  by_contra earlier
  have before : s' < k := not_le.mp earlier
  have reaches : t.Reaches s' := by
    refine reaches_of_isLeast least (by omega) fun k' below singular => ?_
    have later : k ≤ k' := found.2 singular
    omega
  have stops := differs.mayStop_iff reaches ((differs.reaches_iff s').mpr reaches)
  have later : s ≤ s' := least.2 (stops.mp least'.1)
  omega

/-- Both sums end with the same counts and verdicts. -/
theorem ends {n : ℕ} {result : LatticeSum ℂ} (ends : t.Ends n result) :
    ∃ values', (t.asking series').Ends n { result with values := values' } ∧
      result.values.AgreeOn S values' := by
  cases ends with
  | stopped s least regular =>
    have regular' : ∀ k ≤ s, ¬ (t.asking series').SingularRound k := by
      intro k below
      rw [differs.singularRound_iff]
      exact regular k below
    have reaches := reaches_of_isLeast least le_rfl regular
    have verdict := differs.settled_iff reaches ((differs.reaches_iff s).mpr reaches)
    have ends' := Ends.stopped s (differs.isLeast_mayStop least regular) regular'
    simp only [verdict] at ends'
    exact ⟨_, ends', differs.summed_agreeOn (s + 1)⟩
  | singular s k least reached found =>
    obtain ⟨s', least'⟩ := (t.asking series').exists_isLeast_mayStop
    have found' : IsLeast {k | (t.asking series').SingularRound k} k := by
      simpa only [differs.singularRound_iff] using found
    exact ⟨_, .singular s' k least' (differs.le_stop least reached found least') found',
      differs.summed_agreeOn k⟩

end DiffersFaintly

/-- What the faint slots of a series do has no influence on where its sum stops. Two series that
agree on their singular cells and on some slots, in sums whose other slots stay below the floor
after every shell, are asked for the same lists of cells; they end with the same counts and verdicts
and with the same values in these slots, or both fail for want of a first block. -/
theorem run_asking_of_faint (t : Summation ℝ ℂ) {S : Set Slot}
    {series' : List Cell → Logged ℝ (Contribution ℂ)}
    (relative : t.convergence.absoluteTolerance = 0)
    (floor : t.convergence.slotFloor ∈ Set.Icc 0 1) (alike : AlikeSeries S t.series series')
    (faint : t.FaintOutside S) (faint' : (t.asking series').FaintOutside S)
    (description : String) :
    (t.Begins → ∃ result values' asked events events',
      t.run description = Attempt.done (result, asked) events ∧
      (t.asking series').run description =
        Attempt.done ({ result with values := values' }, asked) events' ∧
      result.values.AgreeOn S values') ∧
    (¬ t.Begins → t.run description = Attempt.fail .emptyBlock ∧
      (t.asking series').run description = Attempt.fail .emptyBlock) := by
  constructor
  · intro begins
    obtain ⟨n, result, ends⟩ := t.exists_ends
    have differs : t.DiffersFaintly S series' := ⟨begins, relative, floor, alike, faint, faint'⟩
    obtain ⟨values', ends', agree⟩ := differs.ends ends
    exact ⟨result, values', t.rounds n, _, _, t.run_of_ends description begins ends,
      (t.asking series').run_of_ends description begins ends', agree⟩
  · intro stuck
    exact ⟨t.run_of_not_begins description stuck,
      (t.asking series').run_of_not_begins description stuck⟩

/-- Where the value outweighs the other slots in every contribution, it does so in the sums. -/
theorem norm_entry_summed_le {t : Summation ℝ ℂ}
    (outweighs : ∀ cells i, ‖(t.contribution cells).entry i‖ ≤ (t.contribution cells).value.re)
    (k : ℕ) (i : Slot) : ‖(t.summed k).entry i‖ ≤ (t.summed k).value.re := by
  induction k with
  | zero =>
    have nothing : t.summed 0 = Slots.replicate zeroC := rfl
    rw [nothing, Slots.entry_replicate]
    simp [Slots.replicate]
  | succ k ih =>
    rw [summed_succ]
    split
    · have grown : (t.summed k + t.contribution (t.round k)).value.re =
          (t.summed k).value.re + (t.contribution (t.round k)).value.re := rfl
      rw [Slots.entry_add, grown]
      exact (norm_add_le _ _).trans (add_le_add ih (outweighs (t.round k) i))
    · exact ih

/-- A floor of one leaves out all slots but the value then. -/
theorem faintOutside_value {t : Summation ℝ ℂ} (floor : t.convergence.slotFloor = 1)
    (outweighs : ∀ cells i, ‖(t.contribution cells).entry i‖ ≤ (t.contribution cells).value.re) :
    t.FaintOutside {.value} := by
  intro _ _ _ _ _ s _ _ i _
  refine ⟨.value, rfl, ?_⟩
  rw [floor, one_mul]
  exact (norm_entry_summed_le outweighs (s + 1) i).trans (Complex.re_le_norm _)

/-- Derivatives that change their sign from shell to shell, on a line whose sixth shell is
singular. -/
noncomputable def flickering (cells : List Cell) : Logged ℝ (Contribution ℂ) :=
  let sign : ℂ := if cells.any fun cell => decide (cell.radius % 2 = 0) then 1 else -1
  pure ⟨{ Slots.replicate sign with value := 1 },
    cells.any fun cell => decide (cell.radius = 6)⟩

theorem run_asking_of_faint_flickering :
    AlikeSeries {.value} singularSixthShell.series flickering ∧
    singularSixthShell.FaintOutside {.value} ∧
    (singularSixthShell.asking flickering).FaintOutside {.value} ∧
    ∃ result values' asked events events',
      singularSixthShell.run "sum" = Attempt.done (result, asked) events ∧
      (singularSixthShell.asking flickering).run "sum" =
        Attempt.done ({ result with values := values' }, asked) events' ∧
      result.values.AgreeOn {.value} values' := by
  have alike : AlikeSeries {.value} singularSixthShell.series flickering := by
    constructor
    · exact fun cells => rfl
    · rintro cells i rfl
      rfl
  have faint : singularSixthShell.FaintOutside {.value} := by
    refine faintOutside_value rfl fun cells i => ?_
    change ‖(Slots.replicate (1 : ℂ)).entry i‖ ≤ (1 : ℂ).re
    rw [Slots.entry_replicate, norm_one, Complex.one_re]
  have faint' : (singularSixthShell.asking flickering).FaintOutside {.value} := by
    refine faintOutside_value rfl fun cells i => ?_
    change ‖(flickering cells).value.slots.entry i‖ ≤ (1 : ℂ).re
    have unit : ∀ p : Prop, ∀ [Decidable p], ‖(if p then 1 else -1 : ℂ)‖ = 1 := by
      intro p _
      split <;> simp
    cases i <;> simp [flickering, Slots.entry, Slots.replicate, unit]
  have both := singularSixthShell.run_asking_of_faint rfl ⟨zero_le_one, le_rfl⟩ alike faint faint'
    "sum"
  exact ⟨alike, faint, faint', both.1 fun _ => le_rfl⟩

end Summation

end LatticeGreen

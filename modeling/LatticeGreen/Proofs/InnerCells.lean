import LatticeGreen.Proofs.SummedCells

/-!
# Sums that leave the innermost block out

The innermost cells are left out of the first block only. A first block that reaches them holds
them all, and the shells start beyond it. A sum that begins at the origin alone meets the cells
around the origin again as its first shell.
-/
namespace LatticeGreen.Summation
open Cell
variable {R C : Type}

/-- A sum has asked for no cell of the innermost block, and unless a singular round ended it for
every other one up to its last shell, once. -/
structure LeavesOutInner (t : Summation R C) (result : LatticeSum C) (asked : List (List Cell)) :
    Prop where
  outside : ∀ cell ∈ asked.flatten, 1 < cell.radius
  once : result.singular = false → asked.flatten.Nodup
  others : result.singular = false → ∀ cell, cell ∈ asked.flatten ↔
    OnLattice t.dimension cell ∧ 1 < cell.radius ∧
      (cell.radius : Int) ≤ max 1 (t.convergence.firstRound + result.shellCount)

/-- The first shell of the sum is a part of the innermost block: the sum begins at the origin and
goes on to a shell. -/
def MeetsInnerShell (t : Summation R C) : Prop :=
  t.convergence.firstRound = 0 ∧ 1 ≤ t.convergence.maxShells ∧ 1 ≤ t.convergence.convergedRounds

/-- With the innermost cells left out of the first block, a sum that stops after shell `s` has
asked for the cells beyond the origin, or beyond the innermost block if the first block covers
it. -/
theorem mem_flatten_rounds_excluded (t : Summation R C) (first : 0 ≤ t.convergence.firstRound)
    (excluded : t.excludeInner = true) (s : Nat) (cell : Cell) :
    cell ∈ (t.rounds (s + 1)).flatten ↔ OnLattice t.dimension cell ∧
      min 1 t.convergence.firstRound < cell.radius ∧
      (cell.radius : Int) ≤ t.convergence.firstRound + s := by
  rw [t.mem_flatten_rounds first, excluded]
  constructor
  · rintro ⟨inPlane, reached, skipped⟩
    have beyond := skipped rfl
    refine ⟨inPlane, ?_, reached⟩
    by_cases inFirst : (cell.radius : Int) ≤ t.convergence.firstRound
    · have := beyond inFirst
      omega
    · omega
  · rintro ⟨inPlane, beyond, reached⟩
    refine ⟨inPlane, reached, fun _ inFirst => ?_⟩
    omega

/-- A first block that holds the origin alone is left out whole. -/
theorem round_zero_eq_nil (t : Summation R C) (excluded : t.excludeInner = true)
    (origin : t.convergence.firstRound = 0) : t.round 0 = [] := by
  rw [List.eq_nil_iff_forall_not_mem]
  intro cell member
  obtain ⟨-, reached, beyond⟩ := (t.mem_round_zero cell).mp member
  have := beyond excluded
  omega

section
variable [OfScientific R] [ComplexFunctions R C] [Add C] [Mul R] [Div R] [LT R] [DecidableLT R]
variable [RealFunctions R] [Sub C]

/-- Every sum goes through its first block, and one that is not cut short has counted the shells
after it. -/
theorem Ends.rounds_pos {t : Summation R C} {n : Nat} {result : LatticeSum C}
    (ends : t.Ends n result) :
    ∃ s, n = s + 1 ∧ (result.singular = false → result.shellCount = s) := by
  cases ends with
  | stopped s least regular => exact ⟨s, rfl, fun _ => rfl⟩
  | singular s k least reached found => exact ⟨k, rfl, fun unbroken => nomatch unbroken⟩

/-- A sum that wants no shell, or may not have one, ends with its first block. -/
theorem Ends.rounds_eq_one {t : Summation R C} {n : Nat} {result : LatticeSum C}
    (ends : t.Ends n result)
    (idle : t.convergence.maxShells ≤ t.convergence.firstRound ∨
      t.convergence.convergedRounds ≤ 0) : n = 1 := by
  have stops : t.MayStop 0 := by
    rcases idle with capped | unwanted
    · refine .inr ?_
      omega
    · refine .inl ⟨unwanted, fun i low late => ?_⟩
      omega
  have only : ∀ s, IsLeast {s | t.MayStop s} s → s = 0 := by
    intro s least
    have below : s ≤ 0 := least.2 stops
    omega
  cases ends with
  | stopped s least regular => rw [only s least]
  | singular s k least reached found =>
    have := only s least
    omega

/-- A sum that meets the innermost cells asks for its first shell. -/
theorem Ends.two_le {t : Summation R C} {n : Nat} {result : LatticeSum C}
    (ends : t.Ends n result) (excluded : t.excludeInner = true) (meets : t.MeetsInnerShell) :
    2 ≤ n := by
  obtain ⟨origin, allowed, wanted⟩ := meets
  cases ends with
  | stopped s least regular =>
    rcases least.1 with settled | capped
    · have enough := settled.1
      omega
    · omega
  | singular s k least reached found =>
    have later : k ≠ 0 := by
      rintro rfl
      have asked := found.1.1
      rw [asks, t.round_zero_eq_nil excluded origin] at asked
      cases asked
    omega

/-- A sum that meets the innermost cells asks for a cell beside the origin. -/
theorem Ends.mem_of_meetsInnerShell {t : Summation R C} {n : Nat} {result : LatticeSum C}
    (ends : t.Ends n result) (excluded : t.excludeInner = true) (meets : t.MeetsInnerShell) :
    (⟨1, 0⟩ : Cell) ∈ (t.rounds n).flatten := by
  have shells := ends.two_le excluded meets
  obtain ⟨s, rfl, -⟩ := ends.rounds_pos
  have first : 0 ≤ t.convergence.firstRound := by
    rw [meets.1]
  rw [t.mem_flatten_rounds_excluded first excluded, meets.1]
  refine ⟨fun _ => rfl, by decide, ?_⟩
  change (1 : Int) ≤ 0 + s
  omega

/-- Unless the sum meets the innermost cells, its first block covers the innermost block or no shell
follows it. -/
theorem Ends.covered_or_idle {t : Summation R C} {s : Nat} {result : LatticeSum C}
    (ends : t.Ends (s + 1) result) (first : 0 ≤ t.convergence.firstRound)
    (apart : ¬ t.MeetsInnerShell) : 1 ≤ t.convergence.firstRound ∨ s = 0 := by
  by_cases origin : t.convergence.firstRound = 0
  · have idle : t.convergence.maxShells ≤ t.convergence.firstRound ∨
        t.convergence.convergedRounds ≤ 0 := by
      by_contra busy
      exact apart ⟨origin, by omega, by omega⟩
    have := ends.rounds_eq_one idle
    omega
  · omega

theorem Ends.leavesOutInner_iff {t : Summation R C} {n : Nat} {result : LatticeSum C}
    (ends : t.Ends n result) (first : 0 ≤ t.convergence.firstRound)
    (excluded : t.excludeInner = true) :
    t.LeavesOutInner result (t.rounds n) ↔ ¬ t.MeetsInnerShell := by
  obtain ⟨s, rfl, counted⟩ := ends.rounds_pos
  have member := t.mem_flatten_rounds_excluded first excluded s
  constructor
  · intro leaves meets
    exact absurd (leaves.outside _ (ends.mem_of_meetsInnerShell excluded meets)) (by decide)
  · intro apart
    have covered := ends.covered_or_idle first apart
    refine ⟨fun cell asked => ?_, fun _ => t.nodup_flatten_rounds first s,
      fun unbroken cell => ?_⟩
    · have := (member cell).mp asked
      omega
    · rw [member, counted unbroken]
      constructor
      · rintro ⟨inPlane, beyond, reached⟩
        exact ⟨inPlane, by omega, by omega⟩
      · rintro ⟨inPlane, beyond, reached⟩
        exact ⟨inPlane, by omega, by omega⟩

/-- What a sum with the innermost cells left out asks for. The cells of its first block that lie in
the innermost block are skipped, so every cell is beyond the origin and, for a first round of one or
more, beyond the innermost block; without a singular round all such cells up to the last shell come,
each once. The innermost block is left out entirely unless the sum meets it as its first shell. -/
theorem run_leaves_out_inner_iff (t : Summation R C) (description : String)
    (first : 0 ≤ t.convergence.firstRound) (excluded : t.excludeInner = true) :
    ∃ result asked events, t.run description = Attempt.done (result, asked) events ∧
      (∀ cell ∈ asked.flatten, min 1 t.convergence.firstRound < cell.radius) ∧
      (result.singular = false → asked.flatten.Nodup ∧ ∀ cell, cell ∈ asked.flatten ↔
        OnLattice t.dimension cell ∧ min 1 t.convergence.firstRound < cell.radius ∧
          (cell.radius : Int) ≤ t.convergence.firstRound + result.shellCount) ∧
      (t.LeavesOutInner result asked ↔ ¬ t.MeetsInnerShell) := by
  obtain ⟨n, result, ends⟩ := t.exists_ends
  have ran := t.run_of_ends description (fun _ => first) ends
  have leaves := ends.leavesOutInner_iff first excluded
  obtain ⟨s, rfl, counted⟩ := ends.rounds_pos
  have member := t.mem_flatten_rounds_excluded first excluded s
  refine ⟨result, _, _, ran, fun cell asked => ?_, fun unbroken => ?_, leaves⟩
  · exact ((member cell).mp asked).2.1
  · rw [counted unbroken]
    exact ⟨t.nodup_flatten_rounds first s, member⟩

end

/-- A count of cells from the second round on, with the innermost cells left out. -/
def countFromSecondRound : Summation Float (Cartesian Float) where
  series cells := pure ⟨Slots.replicate ⟨Float.ofNat cells.length, 0.0⟩, false⟩
  dimension := 2
  convergence :=
    { absoluteTolerance := 0.0, relativeTolerance := 1.0e-8, slotFloor := 1.0e-10
      firstRound := 2, maxShells := 4, convergedRounds := 3 }
  excludeInner := true

theorem run_countFromSecondRound :
    ∃ result asked events,
      countFromSecondRound.run "sum" = Attempt.done (result, asked) events ∧
      countFromSecondRound.LeavesOutInner result asked := by
  obtain ⟨result, asked, events, ran, -, -, leaves⟩ :=
    countFromSecondRound.run_leaves_out_inner_iff "sum" (by decide) rfl
  refine ⟨result, asked, events, ran, leaves.mpr fun meets => ?_⟩
  exact absurd meets.1 (by decide)

/-- The same count from the origin on. -/
def countFromOrigin : Summation Float (Cartesian Float) :=
  { countFromSecondRound with
    convergence := { countFromSecondRound.convergence with firstRound := 0, maxShells := 3 } }

theorem run_countFromOrigin_keeps_inner :
    ∃ result asked events, countFromOrigin.run "sum" = Attempt.done (result, asked) events ∧
      ¬ countFromOrigin.LeavesOutInner result asked := by
  obtain ⟨n, result, ends⟩ := countFromOrigin.exists_ends
  have meets : countFromOrigin.MeetsInnerShell := ⟨rfl, by decide, by decide⟩
  have ran := countFromOrigin.run_of_ends "sum" (fun _ => by decide) ends
  refine ⟨result, _, _, ran, fun leaves => ?_⟩
  exact absurd (leaves.outside _ (ends.mem_of_meetsInnerShell rfl meets)) (by decide)

end LatticeGreen.Summation

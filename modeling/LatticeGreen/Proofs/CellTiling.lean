import LatticeGreen.Cell
import Mathlib.Data.List.Nodup
import Mathlib.Tactic.Ring

/-!
# Blocks and shells tile the lattice

Which cells a block and a shell hold, and that neither lists a cell twice. The four sides of a
shell turn at its corners: each side starts at the corner where the one before it stopped short.
-/
namespace LatticeGreen.Cell

/-- In one dimension only the cells of a line belong to the lattice. -/
def OnLattice (dimension : Int) (cell : Cell) : Prop := dimension = 1 → cell.n2 = 0

theorem mem_span (lo hi x : Int) : x ∈ span lo hi ↔ lo ≤ x ∧ x < hi := by
  simp only [span, List.mem_map, List.mem_range]
  constructor
  · rintro ⟨i, inside, rfl⟩
    omega
  · intro inside
    exact ⟨(x - lo).toNat, by omega, by omega⟩

theorem nodup_span (lo hi : Int) : (span lo hi).Nodup := by
  refine List.Nodup.map ?_ List.nodup_range
  intro i j equal
  have same : lo + (i : Int) = lo + (j : Int) := equal
  omega

theorem length_span (lo hi : Int) : (span lo hi).length = (hi - lo).toNat := by
  simp [span]

theorem radius_le_iff (cell : Cell) (n : Int) :
    (cell.radius : Int) ≤ n ↔
      (-n ≤ cell.n1 ∧ cell.n1 ≤ n) ∧ (-n ≤ cell.n2 ∧ cell.n2 ≤ n) := by
  unfold radius
  omega

/-! ## Blocks -/

theorem mem_block (dimension n : Int) (cell : Cell) :
    cell ∈ block dimension n ↔ OnLattice dimension cell ∧ (cell.radius : Int) ≤ n := by
  rw [radius_le_iff]
  unfold block OnLattice
  obtain ⟨n1, n2⟩ := cell
  by_cases line : dimension = 1
  · simp only [line, if_true, List.mem_map, mem_span, Cell.mk.injEq, forall_true_left]
    constructor
    · rintro ⟨x, inside, rfl, rfl⟩
      omega
    · rintro ⟨rfl, inside, -⟩
      exact ⟨n1, by omega, rfl, rfl⟩
  · simp only [line, if_false, List.mem_flatMap, List.mem_map, mem_span, Cell.mk.injEq,
      false_implies, true_and]
    constructor
    · rintro ⟨x, insideX, y, insideY, rfl, rfl⟩
      omega
    · rintro ⟨inside1, inside2⟩
      exact ⟨n1, by omega, n2, by omega, rfl, rfl⟩

theorem nodup_block (dimension n : Int) : (block dimension n).Nodup := by
  unfold block
  by_cases line : dimension = 1
  · simp only [line, if_true]
    refine (nodup_span _ _).map ?_
    intro x y equal
    exact (Cell.mk.inj equal).1
  · simp only [line, if_false, List.nodup_flatMap]
    refine ⟨fun x _ => (nodup_span _ _).map ?_, (nodup_span _ _).imp ?_⟩
    · intro y z equal
      exact (Cell.mk.inj equal).2
    · -- Rows of different first integers share no cell.
      intro x x' different cell inRow inRow'
      obtain ⟨y, -, rfl⟩ := List.mem_map.mp inRow
      obtain ⟨y', -, equal⟩ := List.mem_map.mp inRow'
      exact different (Cell.mk.inj equal).1.symm

theorem length_block (dimension n : Int) (line_or_plane : dimension = 1 ∨ dimension = 2)
    (nonnegative : 0 ≤ n) :
    ((block dimension n).length : Int) = (2 * n + 1) ^ dimension.toNat := by
  have side : ((n + 1 - -n).toNat : Int) = 2 * n + 1 := by omega
  rcases line_or_plane with rfl | rfl
  · simp only [block, if_true, List.length_map, length_span, side]
    exact (pow_one _).symm
  · have plane : (2 : Int) ≠ 1 := by decide
    simp only [block, plane, if_false, List.length_flatMap, List.length_map, length_span,
      List.map_const', List.sum_replicate_nat, Int.natCast_mul, side]
    exact (sq _).symm

/-! ## Shells -/

theorem mem_shell (dimension n : Int) (positive : 1 ≤ n) (cell : Cell) :
    cell ∈ shell dimension n ↔ OnLattice dimension cell ∧ (cell.radius : Int) = n := by
  unfold shell OnLattice radius
  obtain ⟨n1, n2⟩ := cell
  by_cases line : dimension = 1
  · simp only [line, if_true, List.mem_cons, List.not_mem_nil, or_false, Cell.mk.injEq,
      forall_true_left]
    omega
  · simp only [line, if_false, List.mem_append, List.mem_map, mem_span, Cell.mk.injEq,
      false_implies, true_and]
    constructor
    · rintro (((⟨x, inside, rfl, rfl⟩ | ⟨x, inside, rfl, rfl⟩) | ⟨x, inside, rfl, rfl⟩) |
        ⟨x, inside, rfl, rfl⟩) <;> omega
    · intro border
      -- A cell of the border lies on the side that does not stop short of it.
      by_cases top : n2 = n ∧ n1 < n
      · exact .inl (.inl (.inl ⟨n1, by omega, rfl, top.1.symm⟩))
      by_cases right : n1 = n ∧ -n < n2
      · exact .inl (.inl (.inr ⟨-n2, by omega, right.1.symm, by omega⟩))
      by_cases bottom : n2 = -n ∧ -n < n1
      · exact .inl (.inr ⟨-n1, by omega, by omega, bottom.1.symm⟩)
      · exact .inr ⟨n2, by omega, by omega, rfl⟩

theorem nodup_shell (dimension n : Int) (positive : 1 ≤ n) : (shell dimension n).Nodup := by
  unfold shell
  by_cases line : dimension = 1
  · simp only [line, if_true, List.nodup_cons, List.mem_singleton, Cell.mk.injEq,
      List.not_mem_nil, not_false_eq_true, List.nodup_nil, and_true]
    omega
  · simp only [line, if_false]
    have side : ∀ f : Int → Cell, Function.Injective f → ((span (-n) n).map f).Nodup :=
      fun f injective => (nodup_span _ _).map injective
    have top := side (⟨·, n⟩) fun x y equal => (Cell.mk.inj equal).1
    have right := side (⟨n, -·⟩) fun x y equal => Int.neg_inj.mp (Cell.mk.inj equal).2
    have bottom := side (⟨-·, -n⟩) fun x y equal => Int.neg_inj.mp (Cell.mk.inj equal).1
    have left := side (⟨-n, ·⟩) fun x y equal => (Cell.mk.inj equal).2
    refine List.nodup_append'.mpr ⟨List.nodup_append'.mpr ⟨List.nodup_append'.mpr
      ⟨top, right, ?_⟩, bottom, ?_⟩, left, ?_⟩ <;>
    · intro cell before after
      simp only [List.mem_append, List.mem_map, mem_span] at before after
      grind

end LatticeGreen.Cell

import LatticeGreen.Double.Elementary
import LatticeGreen.Lattice
import Mathlib

/-!
# Checked bases

The check of a basis looks at the first two axes of an array. What it lets through has one or two
rows of two columns, which stand in the first rows of the array, and it lets the same through again.
It does not look at the axes below: an array of more than two axes keeps them, and with them rows
that are no vectors of the plane.
-/
namespace LatticeGreen

namespace Grid
variable {R : Type}

/-! ## The first rows and columns -/

/-- A block taken back from blocks of one length in a row. -/
theorem take_drop_flatMap_range (f : Nat → List R) (size : Nat) {n : Nat}
    (length : ∀ i < n, (f i).length = size) {i : Nat} (inside : i < n) :
    (((List.range n).flatMap f).drop (i * size)).take size = f i := by
  induction n with
  | zero => exact absurd inside (Nat.not_lt_zero i)
  | succ n ih =>
    have before : ((List.range n).flatMap f).length = n * size :=
      length_flatMap_range f n size fun j early => length j (Nat.lt_succ_of_lt early)
    rw [List.range_succ, List.flatMap_append, List.flatMap_singleton]
    rcases Nat.lt_succ_iff_lt_or_eq.mp inside with early | rfl
    · have reaches : i * size + size ≤ n * size := by
        rw [← Nat.succ_mul]
        exact Nat.mul_le_mul_right size early
      rw [List.drop_append_of_le_length (by omega),
        List.take_append_of_le_length (by rw [List.length_drop]; omega)]
      exact ih (fun j early => length j (Nat.lt_succ_of_lt early)) early
    · rw [← before, List.drop_left, List.take_of_length_le (length i inside).le]

/-- The blocks of a list in a row are the list as far as they reach. -/
theorem flatMap_range_take_drop (entries : List R) (size n : Nat) :
    (List.range n).flatMap (fun i => (entries.drop (i * size)).take size) =
      entries.take (n * size) := by
  induction n with
  | zero => simp
  | succ n ih =>
    rw [List.range_succ, List.flatMap_append, List.flatMap_singleton, ih, Nat.succ_mul,
      List.take_add]

theorem row_leading (g : Grid R) {rows columns : Nat} (hr : rows ≤ g.rows)
    (hc : columns ≤ g.columns) {i : Nat} (inside : i < rows) :
    (g.leading rows columns hr hc).row i = (g.row i).take (columns * g.depth) := by
  refine take_drop_flatMap_range (fun i => (g.row i).take (columns * g.depth)) _ ?_ inside
  intro j early
  rw [List.length_take, length_row g (Nat.lt_of_lt_of_le early hr)]
  exact Nat.min_eq_left (Nat.mul_le_mul_right _ hc)

theorem cell_leading (g : Grid R) {rows columns : Nat} (hr : rows ≤ g.rows)
    (hc : columns ≤ g.columns) {i j : Nat} (inside : i < rows) (within : j < columns) :
    (g.leading rows columns hr hc).cell i j = g.cell i j := by
  have reaches : j * g.depth + g.depth ≤ columns * g.depth := by
    rw [← Nat.succ_mul]
    exact Nat.mul_le_mul_right _ within
  change (((g.leading rows columns hr hc).row i).drop (j * g.depth)).take g.depth = _
  rw [row_leading g hr hc inside, List.drop_take, List.take_take,
    Nat.min_eq_left (by omega)]
  rfl

/-- All rows and all columns are the whole array. -/
theorem leading_self (g : Grid R) : g.leading g.rows g.columns le_rfl le_rfl = g := by
  have entries : (g.leading g.rows g.columns le_rfl le_rfl).entries = g.entries := by
    have whole : ∀ i ∈ List.range g.rows, (g.row i).take (g.columns * g.depth) = g.row i := by
      intro i inside
      exact List.take_of_length_le (length_row g (List.mem_range.mp inside)).le
    have joined : (List.range g.rows).flatMap g.row =
        g.entries.take (g.rows * (g.columns * g.depth)) :=
      flatMap_range_take_drop g.entries (g.columns * g.depth) g.rows
    change (List.range g.rows).flatMap (fun i => (g.row i).take (g.columns * g.depth)) = g.entries
    rw [List.flatMap_congr whole, joined]
    exact List.take_of_length_le g.size_eq.le
  obtain ⟨rows, columns, inner, own, size⟩ := g
  exact (Grid.mk.injEq ..).mpr ⟨rfl, rfl, rfl, entries⟩

/-- The first rows depend on nothing but themselves. -/
theorem leading_congr {g other : Grid R} (inner : other.inner = g.inner) {rows columns : Nat}
    (hr : rows ≤ g.rows) (hr' : rows ≤ other.rows) (hc : columns ≤ g.columns)
    (hc' : columns ≤ other.columns) (same : ∀ i < rows, other.row i = g.row i) :
    other.leading rows columns hr' hc' = g.leading rows columns hr hc := by
  have depth : other.depth = g.depth := by
    unfold depth
    rw [inner]
  refine (Grid.mk.injEq ..).mpr ⟨rfl, rfl, inner, List.flatMap_congr fun i inside => ?_⟩
  rw [same i (List.mem_range.mp inside), depth]

@[simp] theorem atLeast2d_toArray (g : Grid R) : g.toArray.atLeast2d = g := rfl

theorem level_of_not_leavesPlane [OfScientific R] [BEq R] {g : Grid R} {rows : Nat}
    (level : g.leavesPlane rows = false) : ∀ i < rows, ∀ z ∈ g.cell i 2, (z == 0.0) = true := by
  intro i inside z member
  unfold leavesPlane at level
  have row := List.any_eq_false.mp level i (List.mem_range.mpr inside)
  have entry := List.any_eq_false.mp (Bool.eq_false_iff.mpr row) z member
  simpa using entry

end Grid

/-- An array of two axes at most has plain numbers in its cells. -/
theorem RealArray.inner_atLeast2d_eq_nil_iff {R : Type} (a : RealArray R) :
    a.atLeast2d.inner = [] ↔ a.shape.length ≤ 2 := by
  obtain ⟨shape, entries, size⟩ := a
  match shape with
  | [] => exact ⟨fun _ => by simp, fun _ => rfl⟩
  | [_] => exact ⟨fun _ => by simp, fun _ => rfl⟩
  | _ :: _ :: inner =>
    change inner = [] ↔ _
    rw [← List.length_eq_zero_iff, List.length_cons, List.length_cons]
    omega

/-- The rows that a symmetry generates are plain vectors of the plane. Rows that were given may be
anything. -/
theorem Lattice.inner_generators {R : Type} [OfScientific R] [Mul R] [Div R] [RealFunctions R]
    {symmetry : Symmetry} {lengths : List R}
    {given : Option (RealArray R)} {rows : RealArray R}
    (generated : generators symmetry lengths given = .ok rows) :
    rows.atLeast2d.inner = [] ↔ (symmetry = .oblique → ∀ a ∈ given, a.shape.length ≤ 2) := by
  cases symmetry with
  | oblique =>
    cases given with
    | none => cases generated
    | some a =>
      obtain rfl : a = rows := Except.ok.inj generated
      rw [RealArray.inner_atLeast2d_eq_nil_iff]
      simp
  | linear =>
    match lengths with
    | [_] =>
      obtain rfl := Except.ok.inj generated
      exact iff_of_true rfl nofun
    | [] | _ :: _ :: _ => cases generated
  | rectangular =>
    match lengths with
    | [_, _] =>
      obtain rfl := Except.ok.inj generated
      exact iff_of_true rfl nofun
    | [] | [_] | _ :: _ :: _ :: _ => cases generated
  | hexagonal =>
    match lengths with
    | [_] =>
      obtain rfl := Except.ok.inj generated
      exact iff_of_true rfl nofun
    | [] | _ :: _ :: _ => cases generated

/-! ## The check -/

section
variable {R : Type} [OfScientific R] [BEq R] [NatCast R] [LT R] [DecidableLT R]

/-- What the check finds out about an array for a number of directions, fault by fault. -/
inductive BasisVerdict (g : Grid R) (d : Int) : Except (Failure R) (Grid R) → Prop
  | unsupported (other : ¬ (d = 1 ∨ d = 2)) :
      BasisVerdict g d (.error (.configuration (.unsupportedDimension (.integer d))))
  | misshapen (known : d = 1 ∨ d = 2)
      (shape : (g.rows : Int) < d ∨ ¬ (g.columns = 2 ∨ g.columns = 3)) :
      BasisVerdict g d (.error (.configuration (.basisShape (.integer d) g.shape)))
  | outOfPlane (known : d = 1 ∨ d = 2) (rows : d ≤ g.rows) (columns : g.columns = 3)
      (leaves : g.leavesPlane d.toNat = true) :
      BasisVerdict g d (.error (.configuration .outOfPlane))
  | accepted (known : d = 1 ∨ d = 2) (rows : d.toNat ≤ g.rows) (inside : 2 ≤ g.columns)
      (columns : g.columns = 2 ∨ g.columns = 3)
      (level : g.columns = 3 → g.leavesPlane d.toNat = false) :
      BasisVerdict g d (.ok (g.leading d.toNat 2 rows inside))

/-- The number of directions that a basis is checked for. -/
def RealArray.directions (basis : RealArray R) (dimension : Option Int) : Int :=
  dimension.getD basis.atLeast2d.rows

theorem verdict_validateBasis (basis : RealArray R) (dimension : Option Int) :
    BasisVerdict basis.atLeast2d (basis.directions dimension)
      (validateBasis basis (dimension.map .integer)) := by
  have asked : (dimension.map Quantity.integer).getD (.integer basis.atLeast2d.rows) =
      (.integer (basis.directions dimension) : Quantity R) := by
    cases dimension <;> rfl
  have known_iff : ∀ d, (Quantity.integer d : Quantity R).isDimension = true ↔ d = 1 ∨ d = 2 := by
    simp [Quantity.isDimension]
  unfold validateBasis
  simp only [asked]
  split
  · rename_i other
    refine .unsupported fun known => ?_
    rw [(known_iff _).mpr known] at other
    cases other
  · rename_i known
    have known := (known_iff _).mp (by simpa using known)
    split
    · rename_i shape
      refine .misshapen known ?_
      simpa [Quantity.exceeds] using shape
    · rename_i shape
      have shape : basis.directions dimension ≤ basis.atLeast2d.rows ∧
          (basis.atLeast2d.columns = 2 ∨ basis.atLeast2d.columns = 3) := by
        simpa [Quantity.exceeds, or_iff_not_imp_left] using shape
      have reaches : (basis.directions dimension).toNat ≤ basis.atLeast2d.rows ∧
          2 ≤ basis.atLeast2d.columns := by
        omega
      simp only [Quantity.toIndex?, dif_pos reaches]
      split
      · rename_i leaves
        rw [Bool.and_eq_true, beq_iff_eq] at leaves
        exact .outOfPlane known shape.1 leaves.1 leaves.2
      · rename_i level
        refine .accepted known reaches.1 reaches.2 shape.2 fun three => ?_
        simpa [three] using level

/-- Only the first rows count: another array with the same ones is checked alike, unless the columns
of both are too few or too many and each is refused for its own shape. -/
theorem validateBasis_of_same_rows {basis other : RealArray R} {d : Int}
    (columns : other.atLeast2d.columns = basis.atLeast2d.columns)
    (inner : other.atLeast2d.inner = basis.atLeast2d.inner)
    (rows : d ≤ basis.atLeast2d.rows) (rows' : d ≤ other.atLeast2d.rows)
    (same : ∀ i < d.toNat, other.atLeast2d.row i = basis.atLeast2d.row i) :
    validateBasis other (some (.integer d)) = validateBasis basis (some (.integer d)) ∨
      validateBasis basis (some (.integer d)) =
        .error (.configuration (.basisShape (.integer d) basis.atLeast2d.shape)) ∧
      validateBasis other (some (.integer d)) =
        .error (.configuration (.basisShape (.integer d) other.atLeast2d.shape)) := by
  have depth : other.atLeast2d.depth = basis.atLeast2d.depth := by
    unfold Grid.depth
    rw [inner]
  have leaves : other.atLeast2d.leavesPlane d.toNat = basis.atLeast2d.leavesPlane d.toNat := by
    unfold Grid.leavesPlane Grid.cell
    rw [Bool.eq_iff_iff, List.any_eq_true, List.any_eq_true]
    refine exists_congr fun i => and_congr_right fun inside => ?_
    rw [same i (List.mem_range.mp inside), depth]
  have verdict : BasisVerdict basis.atLeast2d d (validateBasis basis (some (.integer d))) :=
    verdict_validateBasis basis (some d)
  have verdict' : BasisVerdict other.atLeast2d d (validateBasis other (some (.integer d))) :=
    verdict_validateBasis other (some d)
  generalize validateBasis basis (some (.integer d)) = answer at verdict ⊢
  generalize validateBasis other (some (.integer d)) = answer' at verdict' ⊢
  cases verdict with
  | unsupported strange =>
    cases verdict' with
    | unsupported _ => exact .inl rfl
    | misshapen known _ | outOfPlane known _ _ _ | accepted known _ _ _ _ =>
      exact absurd known strange
  | misshapen known shape =>
    cases verdict' with
    | unsupported strange => exact absurd known strange
    | misshapen _ _ => exact .inr ⟨rfl, rfl⟩
    | outOfPlane _ _ three _ => omega
    | accepted _ _ _ fits _ => omega
  | outOfPlane known _ three leaving =>
    cases verdict' with
    | unsupported strange => exact absurd known strange
    | misshapen _ shape => omega
    | outOfPlane _ _ _ _ => exact .inl rfl
    | accepted _ _ _ _ level =>
      rw [← leaves, level (columns.trans three)] at leaving
      cases leaving
  | accepted known reaches inside fits level =>
    cases verdict' with
    | unsupported strange => exact absurd known strange
    | misshapen _ shape => omega
    | outOfPlane _ _ three leaving =>
      rw [leaves, level (columns.symm.trans three)] at leaving
      cases leaving
    | accepted _ reaches' inside' _ _ =>
      have kept := Grid.leading_congr inner reaches reaches' inside inside' same
      exact .inl (congrArg Except.ok kept)

/-- An array that was reduced to two columns and as many rows as there are directions is found fit
as it is. -/
theorem validateBasis_toArray {g : Grid R} (known : g.rows = 1 ∨ g.rows = 2)
    (columns : g.columns = 2) (dimension : Option Int)
    (asked : g.toArray.directions dimension = g.rows) :
    validateBasis g.toArray (dimension.map .integer) = .ok g := by
  have verdict := verdict_validateBasis g.toArray dimension
  rw [asked, Grid.atLeast2d_toArray] at verdict
  have whole : ∀ {rows width : Nat} (hr : rows ≤ g.rows) (hc : width ≤ g.columns),
      rows = g.rows → width = g.columns → g.leading rows width hr hc = g := by
    rintro _ _ _ _ rfl rfl
    exact g.leading_self
  generalize validateBasis g.toArray (dimension.map .integer) = answer at verdict ⊢
  cases verdict with
  | unsupported other => omega
  | misshapen known shape => omega
  | outOfPlane known rows three leaves => omega
  | accepted _ rows inside =>
    rw [whole rows inside (Int.toNat_natCast _) columns.symm]

/-- What is read off an array: the first two components of its first rows, whose third ones are
zero. It is found fit once more. -/
structure ReadOff (basis : RealArray R) (dimension : Option Int) (kept : Grid R) : Prop where
  directions : (kept.rows : Int) = basis.directions dimension
  known : kept.rows = 1 ∨ kept.rows = 2
  columns : kept.columns = 2
  rows : kept.rows ≤ basis.atLeast2d.rows
  cells : ∀ i < kept.rows, ∀ j < 2, kept.cell i j = basis.atLeast2d.cell i j
  level : basis.atLeast2d.columns = 3 →
    ∀ i < kept.rows, ∀ z ∈ basis.atLeast2d.cell i 2, (z == 0.0) = true
  again : validateBasis kept.toArray none = .ok kept
  againFor : validateBasis kept.toArray (dimension.map .integer) = .ok kept

/-- The check refuses the configuration. -/
def RefusesBasis (basis : RealArray R) (dimension : Option Int) : Prop :=
  ∃ cause, validateBasis basis (dimension.map .integer) = .error (.configuration cause)

/-- An array is refused, or rows are read off it that keep what is nested inside. -/
theorem refuses_or_readOff (basis : RealArray R) (dimension : Option Int) :
    RefusesBasis basis dimension ∨ ∃ kept, validateBasis basis (dimension.map .integer) = .ok kept ∧
      ReadOff basis dimension kept ∧ kept.inner = basis.atLeast2d.inner := by
  have verdict := verdict_validateBasis basis dimension
  unfold RefusesBasis
  generalize answered : validateBasis basis (dimension.map .integer) = answer at verdict ⊢
  cases verdict with
  | unsupported other => exact .inl ⟨_, rfl⟩
  | misshapen known shape => exact .inl ⟨_, rfl⟩
  | outOfPlane known rows three leaves => exact .inl ⟨_, rfl⟩
  | accepted known rows inside columns level =>
    let kept := basis.atLeast2d.leading (basis.directions dimension).toNat 2 rows inside
    have directions : (kept.rows : Int) = basis.directions dimension :=
      Int.toNat_of_nonneg (by omega)
    have few : kept.rows = 1 ∨ kept.rows = 2 := by omega
    have asked : kept.toArray.directions dimension = kept.rows := by
      cases dimension with
      | none => rfl
      | some d => exact directions.symm
    exact .inr ⟨kept, rfl,
      { directions
        known := few
        columns := rfl
        rows
        cells := fun i early j within => basis.atLeast2d.cell_leading rows inside early within
        level := fun three => Grid.level_of_not_leavesPlane (level three)
        again := validateBasis_toArray few rfl none rfl
        againFor := validateBasis_toArray few rfl dimension asked }, rfl⟩

theorem readOff_of_validateBasis {basis : RealArray R} {dimension : Option Int} {kept : Grid R}
    (validated : validateBasis basis (dimension.map .integer) = .ok kept) :
    ReadOff basis dimension kept ∧ kept.inner = basis.atLeast2d.inner := by
  rcases refuses_or_readOff basis dimension with ⟨cause, refused⟩ | ⟨other, answered, reads⟩
  · cases refused.symm.trans validated
  · obtain rfl := Except.ok.inj (answered.symm.trans validated)
    exact reads

/-- The check keeps to the plane: it refuses an array, or it reads one or two plain vectors off
it. -/
def KeepsToPlane (basis : RealArray R) (dimension : Option Int) : Prop :=
  RefusesBasis basis dimension ∨ ∃ kept, validateBasis basis (dimension.map .integer) = .ok kept ∧
    ReadOff basis dimension kept ∧ kept.inner = []

theorem keepsToPlane_iff (basis : RealArray R) (dimension : Option Int) :
    KeepsToPlane basis dimension ↔ RefusesBasis basis dimension ∨ basis.shape.length ≤ 2 := by
  rw [← RealArray.inner_atLeast2d_eq_nil_iff]
  rcases refuses_or_readOff basis dimension with refused | ⟨kept, answered, reads, nested⟩
  · exact ⟨fun _ => .inl refused, fun _ => .inl refused⟩
  · have same : (∃ other, validateBasis basis (dimension.map .integer) = .ok other ∧
        ReadOff basis dimension other ∧ other.inner = []) ↔ basis.atLeast2d.inner = [] := by
      constructor
      · rintro ⟨other, read, -, plain⟩
        obtain rfl := Except.ok.inj (answered.symm.trans read)
        exact nested ▸ plain
      · intro plain
        exact ⟨kept, answered, reads, nested.trans plain⟩
    exact or_congr Iff.rfl same

variable [Mul R] [Div R] [RealFunctions R]

/-- The rows of a symmetry are checked like any others. -/
theorem Lattice.ofSymmetry_of_generators {symmetry : Symmetry} {lengths : List R}
    {given : Option (RealArray R)} {rows : RealArray R}
    (generated : generators symmetry lengths given = .ok rows) :
    ofSymmetry symmetry lengths given = (⟨symmetry, ·⟩) <$> validateBasis rows none := by
  unfold ofSymmetry
  rw [generated, map_eq_pure_bind]
  rfl

/-- The rows that were read off a basis make a lattice. -/
theorem ReadOff.ofBasis {basis : RealArray R} {dimension : Option Int} {kept : Grid R}
    (reads : ReadOff basis dimension kept) :
    Lattice.ofBasis kept.toArray = .ok ⟨.oblique, kept⟩ := by
  unfold Lattice.ofBasis
  rw [Lattice.ofSymmetry_of_generators rfl, reads.again]
  rfl

/-- A lattice is refused, or it has one or two directions and two columns. Its vectors are plain
unless they were given as an array of more than two axes. -/
theorem Lattice.refused_or_made (symmetry : Symmetry) (lengths : List R)
    (given : Option (RealArray R)) :
    (∃ cause, ofSymmetry symmetry lengths given = .error (.configuration cause)) ∨
      ∃ lattice, ofSymmetry symmetry lengths given = .ok lattice ∧
        (lattice.dimension = 1 ∨ lattice.dimension = 2) ∧ lattice.basis.columns = 2 ∧
        (lattice.basis.inner = [] ↔
          (symmetry = .oblique → ∀ a ∈ given, a.shape.length ≤ 2)) := by
  cases generated : generators symmetry lengths given with
  | error cause =>
    refine .inl ⟨cause, ?_⟩
    unfold ofSymmetry
    rw [generated]
    rfl
  | ok rows =>
    have checked := ofSymmetry_of_generators generated
    rcases refuses_or_readOff rows none with ⟨cause, refused⟩ | ⟨kept, answered, reads, nested⟩
    · refine .inl ⟨cause, checked.trans ?_⟩
      rw [show validateBasis rows none = _ from refused]
      rfl
    · refine .inr ⟨⟨symmetry, kept⟩, checked.trans ?_, reads.known, reads.columns, ?_⟩
      · rw [show validateBasis rows none = _ from answered]
        rfl
      · rw [← inner_generators generated, ← nested]

/-- What the check of a basis gives. An array is refused for its configuration, or its first rows
are kept, cut to two columns: one or two of them, as many as there are directions, out of the plane
nowhere, and found fit again. They are plain vectors of the plane exactly if the array has two axes
at most; whatever is nested deeper is kept as well. The same holds of a lattice that is made of
them. -/
theorem validateBasis_keepsToPlane_iff (basis : RealArray R) (dimension : Option Int) :
    (RefusesBasis basis dimension ∨ ∃ kept,
      validateBasis basis (dimension.map .integer) = .ok kept ∧
      ReadOff basis dimension kept ∧ kept.inner = basis.atLeast2d.inner) ∧
    (KeepsToPlane basis dimension ↔ RefusesBasis basis dimension ∨ basis.shape.length ≤ 2) ∧
    ∀ (symmetry : Symmetry) (lengths : List R) (given : Option (RealArray R)),
      (∃ cause, Lattice.ofSymmetry symmetry lengths given = .error (.configuration cause)) ∨
        ∃ lattice, Lattice.ofSymmetry symmetry lengths given = .ok lattice ∧
          (lattice.dimension = 1 ∨ lattice.dimension = 2) ∧ lattice.basis.columns = 2 ∧
          (lattice.basis.inner = [] ↔
            (symmetry = .oblique → ∀ a ∈ given, a.shape.length ≤ 2)) :=
  ⟨refuses_or_readOff basis dimension, keepsToPlane_iff basis dimension, Lattice.refused_or_made⟩

end

/-- One row of two pairs. -/
def rowOfPairs : RealArray Float := ⟨[1, 2, 2], [1.0, 0.0, 0.0, 1.0], rfl⟩

/-- Two pairs in a row pass for one vector, and the lattice of that is no line. -/
theorem validateBasis_rowOfPairs :
    ¬ KeepsToPlane rowOfPairs none ∧
      ∃ lattice, Lattice.ofBasis rowOfPairs = .ok lattice ∧ lattice.basis.inner = [2] := by
  have passed : validateBasis rowOfPairs none = .ok ⟨1, 2, [2], [1.0, 0.0, 0.0, 1.0], rfl⟩ := rfl
  refine ⟨?_, ⟨.oblique, _⟩, rfl, rfl⟩
  rintro (⟨cause, refused⟩ | ⟨kept, answered, -, plain⟩)
  · cases passed.symm.trans refused
  · rw [← Except.ok.inj (passed.symm.trans answered)] at plain
    cases plain

end LatticeGreen

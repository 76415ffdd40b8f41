import LatticeGreen.Proofs.InnerCorrection
import LatticeGreen.Proofs.RenamedSums

/-!
# Shells as sums over cells

What a series contributes over a list of cells is put together from its cells: two lists in a row
contribute what each of them does, in any order of the rows. In the nearby sum a source that is near
has the series formed for the whole list, and the other rows stay as they are. An order that grazes
the lattice makes its list singular wherever it stands, although the distant sum looks at all orders
of a plane first and goes through those of a line one by one.
-/
namespace LatticeGreen

/-! ## Nearby cells -/

namespace Nearby
variable [SpecialFunctions ℂ] (near : Nearby ℝ ℂ)

/-- The values of the whole kernel and of its short-range half at the source in a cell. -/
noncomputable def wholeValue (cell : Cell) : ℂ :=
  (FreeSpace.term near.wavenumber (near.displacement cell) (near.phase cell)).value

noncomputable def shortValue (cell : Cell) : ℂ :=
  (ShortRange.term near.wavenumber near.splitting (near.source cell)).value

/-- Away from the series, the kernel and its short-range half cancel in six digits or more at this
cell, and what is left of their values is not negligible. -/
def Lossy (cell : Cell) : Prop :=
  let whole := near.wholeValue cell
  let short := near.shortValue cell
  near.splitting ≠ 0 ∧ ¬ near.IsClose cell ∧
    ‖whole - short‖ < 1e-6 * (‖whole‖ + ‖short‖) ∧ 1e-8 < ‖whole - short‖

/-- What is told of a lossy cell. -/
noncomputable def lossWarning (cell : Cell) : Event ℝ :=
  let whole := near.wholeValue cell
  let short := near.shortValue cell
  .precisionLost (near.distance cell) ‖whole‖ ‖short‖ ‖whole - short‖

noncomputable instance (cell : Cell) : Decidable (near.IsClose cell) :=
  inferInstanceAs (Decidable (_ ∧ _))

noncomputable instance : DecidablePred near.Lossy :=
  fun _ => inferInstanceAs (Decidable (_ ∧ _))

theorem shell_append (cells cells' : List Cell) :
    near.shell (cells ++ cells') = near.shell cells + near.shell cells' := by
  rw [shell_eq_sum, shell_eq_sum, shell_eq_sum, List.map_append, exactAddition_complex.sum_append]

theorem shell_perm {cells cells' : List Cell} (reordered : cells.Perm cells') :
    near.shell cells = near.shell cells' := by
  rw [shell_eq_sum, shell_eq_sum]
  exact exactAddition_complex.sum_perm (reordered.map near.term)

theorem value_longRange_append (cells cells' : List Cell) :
    (near.longRange (cells ++ cells')).value =
      (near.longRange cells).value + (near.longRange cells').value := by
  cases whole : near.splitting == 0.0 with
  | true =>
    simp only [near.value_longRange_unsplit whole]
    exact (add_zero Slots.zero).symm
  | false =>
    rw [near.value_longRange whole, near.value_longRange whole, near.value_longRange whole,
      List.map_append, exactAddition_complex.sum_append]

theorem value_longRange_perm {cells cells' : List Cell} (reordered : cells.Perm cells') :
    (near.longRange cells).value = (near.longRange cells').value := by
  cases whole : near.splitting == 0.0 with
  | true => rw [near.value_longRange_unsplit whole, near.value_longRange_unsplit whole]
  | false =>
    rw [near.value_longRange whole, near.value_longRange whole]
    exact exactAddition_complex.sum_perm (reordered.map _)

theorem losesPrecision_iff (split : near.splitting ≠ 0) {cell : Cell}
    (apart : ¬ near.IsClose cell) :
    (LongRange.cancellation near.wavenumber near.splitting (near.source cell)).losesPrecision = true
      ↔ near.Lossy cell := by
  have sixth : (1.0e-6 : ℝ) = 1e-6 := by norm_num
  have eighth : (1.0e-8 : ℝ) = 1e-8 := by norm_num
  unfold LongRange.Cancellation.losesPrecision
  rw [Bool.and_eq_true, decide_eq_true_iff, decide_eq_true_iff, sixth, eighth]
  exact ⟨fun digits => ⟨split, apart, digits⟩, fun lossy => lossy.2.2⟩

theorem events_longTerm (split : near.splitting ≠ 0) (cell : Cell) :
    (LongRange.term near.wavenumber near.splitting (near.source cell)).events =
      if near.Lossy cell then [near.lossWarning cell] else [] := by
  rw [LongRange.events_term]
  by_cases close : near.IsClose cell
  · have kept : ¬ near.Lossy cell := fun lossy => lossy.2.1 close
    rw [(near.isSmall_iff cell).mpr close, if_neg kept]
    rfl
  · rw [near.isSmall_eq_false close, Bool.not_false, Bool.true_and]
    simp only [near.losesPrecision_iff split close]
    rfl

/-- Each lossy cell leaves a warning with its own figures, row after row. -/
theorem events_longRange (cells : List Cell) :
    (near.longRange cells).events = (cells.filter (near.Lossy ·)).map near.lossWarning := by
  by_cases unsplit : near.splitting = 0
  · have whole : (near.splitting == 0.0) = true := by
      rw [beq_zero_exact, decide_eq_true_iff]
      exact unsplit
    have none : cells.filter (near.Lossy ·) = [] := by
      rw [List.filter_eq_nil_iff]
      intro cell _
      rw [decide_eq_true_iff]
      exact fun lossy => lossy.1 unsplit
    rw [near.longRange_unsplit whole, none]
    rfl
  · rw [longRange_eq_mapM, if_neg (by simp [beq_zero_of_ne unsplit]), Logged.events_bind,
      Logged.events_mapM, map_filter_eq_flatMap]
    simp only [near.events_longTerm unsplit, Logged.events_pure, List.append_nil,
      decide_eq_true_eq]

theorem events_longRange_perm {cells cells' : List Cell} (reordered : cells.Perm cells') :
    (near.longRange cells).events.Perm (near.longRange cells').events := by
  rw [events_longRange, events_longRange]
  exact (reordered.filter _).map _

theorem level_of_mem_longRange (cells : List Cell) :
    ∀ event ∈ (near.longRange cells).events, event.level = .warning := by
  intro event noted
  rw [events_longRange, List.mem_map] at noted
  obtain ⟨cell, -, rfl⟩ := noted
  rfl

end Nearby

/-! ## Orders of a line -/

section
variable {R C : Type} [Sub R] [Mul R] [Neg R] [OfScientific R] [LT R] [DecidableLT R]
variable [RealFunctions R] [Add C] [Mul C] [ComplexFunctions R C]

/-- Later orders are looked at if no earlier one is singular, and are added to those. -/
theorem LineOrder.shell_append (k : C) (term : R → Attempt R (Slots C)) (orders later : List R) :
    ∀ total, shell k term (orders ++ later) total = (do
      let x ← shell k term orders total
      if x.singular then return x else shell k term later x.slots) := by
  induction orders with
  | nil =>
    intro total
    simp only [shell, List.nil_append, pure_bind, Bool.false_eq_true, if_false]
  | cons kx orders ih =>
    intro total
    simp only [shell, List.cons_append]
    split
    · simp only [pure_bind, if_true]
    · rw [bind_assoc]
      exact bind_congr fun slots => ih _

end

/-- What has been added before is added to what comes. -/
theorem LineOrder.shell_add (k : ℂ) (term : ℝ → Attempt ℝ (Slots ℂ)) (orders : List ℝ)
    (total : Slots ℂ) : ∀ start, shell k term orders (total + start) =
      (fun x => { x with slots := total + x.slots }) <$> shell k term orders start := by
  induction orders with
  | nil => exact fun start => rfl
  | cons kx orders ih =>
    intro start
    unfold shell
    split
    · rfl
    · rw [map_bind]
      refine bind_congr fun slots => ?_
      rw [add_assoc, ih]

/-! ## Lists of orders -/

/-- What two lists of cells in a row contribute, where one contributes `x` and the other `y`. -/
structure Contribution.Joins (z x y : Contribution ℂ) : Prop where
  singular : z.singular = (x.singular || y.singular)
  slots : z.singular = false → z.slots = x.slots + y.slots

theorem Contribution.Joins.symm {x y z : Contribution ℂ} (joins : z.Joins x y) : z.Joins y x where
  singular := by rw [joins.singular, Bool.or_comm]
  slots regular := by rw [joins.slots regular, add_comm]

namespace Cellwise
variable {series : List Cell → Attempt ℝ (Contribution ℂ)} {singular : Cell → Bool}
variable {term : Cell → Slots ℂ}

theorem exists_answer (goes : Cellwise series singular term) (cells : List Cell) :
    ∃ x, (series cells).answer = .ok x := by
  cases found : cells.any singular with
  | true =>
    obtain ⟨slots, answered⟩ := goes.interrupted cells found
    exact ⟨_, answered⟩
  | false => exact ⟨_, goes.complete cells found⟩

/-- The order of the cells matters to the slots of a singular contribution only. -/
theorem answer_perm (goes : Cellwise series singular term) {cells cells' : List Cell}
    (reordered : cells.Perm cells') {x x' : Contribution ℂ}
    (answered : (series cells).answer = .ok x) (answered' : (series cells').answer = .ok x') :
    x'.singular = x.singular ∧ (x.singular = false → x'.slots = x.slots) := by
  have same : cells'.any singular = cells.any singular := reordered.any_eq.symm
  cases found : cells.any singular with
  | true =>
    obtain ⟨slots, interrupted⟩ := goes.interrupted cells found
    obtain ⟨slots', interrupted'⟩ := goes.interrupted cells' (same.trans found)
    obtain rfl := Except.ok.inj (answered.symm.trans interrupted)
    obtain rfl := Except.ok.inj (answered'.symm.trans interrupted')
    exact ⟨rfl, fun regular => nomatch regular⟩
  | false =>
    obtain rfl := Except.ok.inj (answered.symm.trans (goes.complete cells found))
    obtain rfl := Except.ok.inj (answered'.symm.trans (goes.complete cells' (same.trans found)))
    exact ⟨rfl, fun _ => exactAddition_complex.sum_perm (reordered.symm.map term)⟩

end Cellwise

section
open Attempt

/-- Where two lists of orders answer, both in a row do. -/
theorem LineOrder.answer_shell_append (k : ℂ) (term : ℝ → Attempt ℝ (Slots ℂ))
    {orders later : List ℝ} {x y : Contribution ℂ}
    (first : (shell k term orders Slots.zero).answer = .ok x)
    (second : (shell k term later Slots.zero).answer = .ok y) :
    ∃ z, (shell k term (orders ++ later) Slots.zero).answer = .ok z ∧ z.Joins x y := by
  have moved : (shell k term later x.slots).answer = .ok ⟨x.slots + y.slots, y.singular⟩ := by
    have added := shell_add k term later x.slots Slots.zero
    have start : x.slots + Slots.zero = x.slots := add_zero x.slots
    rw [start] at added
    rw [added, answer_map, second]
    rfl
  rw [shell_append, answer_bind, first]
  change ∃ z, (if x.singular then pure x else shell k term later x.slots :
    Attempt ℝ (Contribution ℂ)).answer = .ok z ∧ z.Joins x y
  cases flag : x.singular with
  | true =>
    refine ⟨x, rfl, ?_, fun regular => ?_⟩
    · rw [flag, Bool.true_or]
    · rw [flag] at regular
      cases regular
  | false =>
    refine ⟨_, moved, ?_, fun _ => rfl⟩
    rw [flag, Bool.false_or]

variable [SpecialFunctions ℂ]

theorem PlaneOrder.singular_shell (k : ℂ) (eta : ℝ) (point : Vec3 ℝ) (ps : List (Vec2 ℝ)) :
    (shell k eta point ps).singular = anySingular k ps := by
  unfold shell
  split
  · rename_i found
    exact found.symm
  · rename_i regular
    exact (Bool.eq_false_iff.mpr regular).symm

theorem PlaneOrder.shell_append (k : ℂ) (eta : ℝ) (point : Vec3 ℝ) (ps qs : List (Vec2 ℝ)) :
    (shell k eta point (ps ++ qs)).Joins (shell k eta point ps) (shell k eta point qs) where
  singular := by
    rw [singular_shell, singular_shell, singular_shell]
    exact List.any_append
  slots regular := by
    have both : anySingular k ps = false ∧ anySingular k qs = false := by
      rw [← Bool.or_eq_false_iff, ← regular, singular_shell]
      exact List.any_append.symm
    rw [singular_shell] at regular
    unfold shell
    simp only [regular, both.1, both.2, Bool.false_eq_true, if_false, List.map_append,
      exactAddition_complex.sum_append]

namespace Distant
variable (far : Distant ℝ ℂ)

theorem answer_shell_append {cells cells' : List Cell} {x y : Contribution ℂ}
    (first : (far.shell cells).answer = .ok x) (second : (far.shell cells').answer = .ok y) :
    ∃ z, (far.shell (cells ++ cells')).answer = .ok z ∧ z.Joins x y := by
  unfold shell at first second ⊢
  cases kind : far.periodicity with
  | unspecified =>
    rw [kind] at first
    cases first
  | line =>
    rw [kind] at first second
    dsimp only
    rw [List.map_append]
    exact LineOrder.answer_shell_append _ _ first second
  | plane =>
    rw [kind] at first second
    obtain rfl := Except.ok.inj first
    obtain rfl := Except.ok.inj second
    dsimp only
    rw [List.map_append]
    exact ⟨_, rfl, PlaneOrder.shell_append _ _ _ _ _⟩

end Distant

/-- What a list of cells contributes is what its parts contribute. Two lists in a row add up in
both halves of the nearby sum, with or without splitting, and the order of the rows does not matter
to the values. Each lossy cell leaves a warning that tells its distance and the sizes that cancel,
row after row. In the distant sum two lists in a row are singular if one of them is, whichever comes
first, and add up otherwise; every list of orders of a split kernel has a contribution, and the
order of its rows matters to singular ones only. -/
theorem shells_additive (near : Nearby ℝ ℂ) (far : Distant ℝ ℂ) (cells cells' : List Cell) :
    near.shell (cells ++ cells') = near.shell cells + near.shell cells' ∧
    (near.longRange (cells ++ cells')).value =
      (near.longRange cells).value + (near.longRange cells').value ∧
    (near.longRange cells).events = (cells.filter (near.Lossy ·)).map near.lossWarning ∧
    (∀ event ∈ (near.longRange cells).events, event.level = .warning) ∧
    (cells.Perm cells' → near.shell cells' = near.shell cells ∧
      (near.longRange cells').value = (near.longRange cells).value ∧
      (near.longRange cells').events.Perm (near.longRange cells).events) ∧
    (∀ x y, (far.shell cells).answer = .ok x → (far.shell cells').answer = .ok y →
      (∃ z, (far.shell (cells ++ cells')).answer = .ok z ∧ z.Joins x y) ∧
      ∃ z, (far.shell (cells' ++ cells)).answer = .ok z ∧ z.Joins x y) ∧
    (far.periodicity ≠ .unspecified → far.splitting ≠ 0 →
      ∃ x x', (far.shell cells).answer = .ok x ∧ (far.shell cells').answer = .ok x' ∧
        (cells.Perm cells' →
          x'.singular = x.singular ∧ (x.singular = false → x'.slots = x.slots))) := by
  refine ⟨near.shell_append cells cells', near.value_longRange_append cells cells',
    near.events_longRange cells, near.level_of_mem_longRange cells, fun reordered => ?_,
    fun x y first second => ?_, fun periodic split => ?_⟩
  · exact ⟨near.shell_perm reordered.symm, near.value_longRange_perm reordered.symm,
      near.events_longRange_perm reordered.symm⟩
  · obtain ⟨z, answered, joins⟩ := far.answer_shell_append second first
    exact ⟨far.answer_shell_append first second, z, answered, joins.symm⟩
  · choose term answers using far.exists_order periodic split
    have goes := far.cellwise periodic answers
    obtain ⟨x, answered⟩ := goes.exists_answer cells
    obtain ⟨x', answered'⟩ := goes.exists_answer cells'
    exact ⟨x, x', answered, answered',
      fun reordered => goes.answer_perm reordered answered answered'⟩

end

/-- Two cells in either order, and both orders in a row. The point is so close to the first source
that the series is formed for both cells, but the second keeps its difference. -/
theorem shells_additive_overObliquePlane :
    let near : Nearby ℝ ℂ := { overObliquePlane with point := ⟨0.01, 0.02, 0.03⟩ }
    let cells : List Cell := [⟨0, 0⟩, ⟨1, 0⟩]
    let cells' : List Cell := [⟨1, 0⟩, ⟨0, 0⟩]
    near.IsClose ⟨0, 0⟩ ∧ ¬ near.IsClose ⟨1, 0⟩ ∧ near.shell cells' = near.shell cells ∧
    (near.longRange cells').value = (near.longRange cells).value ∧
    (near.longRange (cells ++ cells')).value =
      (near.longRange cells).value + (near.longRange cells').value ∧
    ∃ r x x' z, Reciprocal.construct near.basis near.wavenumber near.point = .ok r ∧
      ((near.distant r).shell cells).answer = .ok x ∧
      ((near.distant r).shell cells').answer = .ok x' ∧ x'.singular = x.singular ∧
      ((near.distant r).shell (cells ++ cells')).answer = .ok z ∧ z.Joins x x' := by
  intro near cells cells'
  have reordered : cells.Perm cells' := List.Perm.swap _ _ []
  have close : near.distance ⟨0, 0⟩ < 0.1 := by
    refine (Real.sqrt_lt' (by norm_num)).mpr ?_
    norm_num [near, overObliquePlane, Nearby.displacement, Nearby.latticePoint,
      FreeSpace.lengthSquare]
  have apart : 0.1 ≤ near.distance ⟨1, 0⟩ := by
    refine Real.le_sqrt_of_sq_le ?_
    norm_num [near, overObliquePlane, Nearby.displacement, Nearby.latticePoint,
      FreeSpace.lengthSquare]
  have splitting : near.splitting = 1 := rfl
  have wavenumber : ‖near.wavenumber‖ = 1 := norm_one
  obtain ⟨r, accepted⟩ := Reciprocal.exists_construct spans_overObliquePlane
    near.wavenumber near.point
  obtain ⟨-, long, -, -, nearby, joined, answers⟩ :=
    shells_additive near (near.distant r) cells cells'
  have split : (near.distant r).splitting ≠ 0 := one_ne_zero
  have periodic : (near.distant r).periodicity ≠ .unspecified :=
    near.basis.periodicity_ne_unspecified
  obtain ⟨x, x', answered, answered', same⟩ := answers periodic split
  obtain ⟨⟨z, both, joins⟩, -⟩ := joined x x' answered answered'
  obtain ⟨short, swapped, -⟩ := nearby reordered
  refine ⟨⟨?_, ?_⟩, fun other => ?_, short, swapped, long, r, x, x', z, accepted, answered,
    answered', (same reordered).1, both, joins⟩
  · rw [splitting, mul_one]
    exact close
  · rw [wavenumber, mul_one]
    linarith
  · have reached := other.1
    rw [splitting, mul_one] at reached
    linarith

end LatticeGreen

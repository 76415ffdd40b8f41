import LatticeGreen.Proofs.Answers
import LatticeGreen.Proofs.Reflection
import LatticeGreen.Proofs.BlochSymmetry
import LatticeGreen.Proofs.SummedCells

/-!
# Sums over renamed cells

The series of both lattice sums go cell by cell: a list of cells is singular if one of its cells is,
and otherwise contributes the sum of their terms. Where the cells of two sums are renamed into each
other, distance by distance, and a symmetry of the slots maps the terms, the two sums stop at the
same shell with mapped values. Renamed cells come in another order, which exact addition does not
see.
-/
namespace LatticeGreen

/-! ## Renamed cells -/

/-- A renaming of the cells of a lattice that keeps their distance from the origin. -/
structure Cell.Renaming (dimension : Int) where
  toFun : Cell → Cell
  injective : Function.Injective toFun
  radius_eq : ∀ cell, (toFun cell).radius = cell.radius
  onLattice : ∀ cell, OnLattice dimension cell → OnLattice dimension (toFun cell)

namespace Cell.Renaming
variable {dimension : Int}

instance : CoeFun (Renaming dimension) fun _ => Cell → Cell := ⟨toFun⟩

/-- Cells that are chosen by their distance are renamed into each other. -/
theorem map_perm (rename : Renaming dimension) (chosen : Nat → Prop) {cells : List Cell}
    (once : cells.Nodup)
    (member : ∀ cell, cell ∈ cells ↔ OnLattice dimension cell ∧ chosen cell.radius) :
    (cells.map rename).Perm cells := by
  have inside : cells.map rename ⊆ cells := by
    intro cell renamed
    obtain ⟨cell, listed, rfl⟩ := List.mem_map.mp renamed
    obtain ⟨onLattice, near⟩ := (member cell).mp listed
    refine (member _).mpr ⟨rename.onLattice cell onLattice, ?_⟩
    rw [rename.radius_eq]
    exact near
  have renamed_once : (cells.map rename).Nodup := once.map rename.injective
  exact (List.subperm_of_subset renamed_once inside).perm_of_length_le (by simp)

theorem map_block_perm (rename : Renaming dimension) (n : Int) :
    ((block dimension n).map rename).Perm (block dimension n) :=
  rename.map_perm (fun radius => (radius : Int) ≤ n) (nodup_block dimension n)
    (mem_block dimension n)

theorem map_shell_perm (rename : Renaming dimension) {n : Int} (positive : 1 ≤ n) :
    ((shell dimension n).map rename).Perm (shell dimension n) :=
  rename.map_perm (fun radius => (radius : Int) = n) (nodup_shell dimension n positive)
    (mem_shell dimension n positive)

theorem map_firstBlock_perm {R : Type} (rename : Renaming dimension) (c : Convergence R)
    (excludeInner : Bool) :
    ((firstBlock dimension c excludeInner).map rename).Perm
      (firstBlock dimension c excludeInner) := by
  unfold firstBlock
  cases excludeInner with
  | false => exact rename.map_block_perm _
  | true =>
    refine rename.map_perm (fun radius => (radius : Int) ≤ c.firstRound ∧ 1 < radius)
      ((nodup_block _ _).filter _) fun cell => ?_
    rw [if_pos rfl, outer, List.mem_filter, mem_block, decide_eq_true_iff, and_assoc]

/-- Every cell keeps its name. -/
def same (dimension : Int) : Renaming dimension := ⟨id, fun _ _ => id, fun _ => rfl, fun _ => id⟩

end Cell.Renaming

/-! ## Answers that a sum cannot tell apart -/

/-- Two answers of a series that a sum goes on from alike, up to a map of the slots: the slots of a
singular contribution are not looked at. -/
inductive Contribution.Alike {R C : Type} (f : Slots C → Slots C) :
    Except (Failure R) (Contribution C) → Except (Failure R) (Contribution C) → Prop
  | failed (cause : Failure R) : Alike f (.error cause) (.error cause)
  | singular (slots slots' : Slots C) : Alike f (.ok ⟨slots, true⟩) (.ok ⟨slots', true⟩)
  | regular (slots : Slots C) : Alike f (.ok ⟨slots, false⟩) (.ok ⟨f slots, false⟩)

section
variable {R C : Type} [OfScientific R] [Mul R] [Div R] [LT R] [DecidableLT R] [RealFunctions R]
variable [Add C] [Sub C] [Mul C] [ComplexFunctions R C] {f : Slots C → Slots C}
variable {series series' : List Cell → Attempt R (Contribution C)}
open Attempt

/-- Shell after shell the running sums of alike answers are mapped running sums. -/
theorem answer_sumShells (symmetry : Slots.Symmetry f) (dimension : Int) (c : Convergence R)
    (ready : SumState R C → Attempt R Unit) (blind : ∀ s, ready (s.mapSlots f) = ready s)
    {least : Int} (alike : ∀ n, least ≤ n → Contribution.Alike f
      (series (Cell.shell dimension n)).answer (series' (Cell.shell dimension n)).answer)
    (budget : Nat) :
    ∀ n, least ≤ n → ∀ s : SumState R C,
      (sumShells series' dimension c ready budget n (s.mapSlots f)).answer =
        Prod.map (SumState.mapSlots f) id <$>
          (sumShells series dimension c ready budget n s).answer := by
  induction budget with
  | zero => exact fun n _ s => rfl
  | succ budget ih =>
    intro n beyond s
    have verdict : (s.mapSlots f).converged c = s.converged c := rfl
    have asked := alike n beyond
    simp only [sumShells, verdict]
    split
    · rfl
    · rw [answer_bind, answer_bind]
      generalize (series (Cell.shell dimension n)).answer = answer at asked ⊢
      generalize (series' (Cell.shell dimension n)).answer = answer' at asked ⊢
      cases asked with
      | failed cause => rfl
      | singular slots slots' => rfl
      | regular slots =>
        change (ready _ >>= _ : Attempt R _).answer = _ <$> (ready _ >>= _ : Attempt R _).answer
        rw [SumState.add_mapSlots symmetry.add, blind,
          SumState.update_mapSlots (symmetry.unseen c), answer_bind, answer_bind, map_bind]
        exact bind_congr fun _ => ih (n + 1) (by omega) _

theorem answer_sumLattice (symmetry : Slots.Symmetry f) (dimension : Int) (c : Convergence R)
    (excludeInner : Bool) (begins ready : SumState R C → Attempt R Unit)
    (blind : ∀ s, begins (s.mapSlots f) = begins s) (blind' : ∀ s, ready (s.mapSlots f) = ready s)
    (first : Contribution.Alike f (series (firstBlock dimension c excludeInner)).answer
      (series' (firstBlock dimension c excludeInner)).answer)
    (alike : ∀ n, c.firstRound + 1 ≤ n → Contribution.Alike f
      (series (Cell.shell dimension n)).answer (series' (Cell.shell dimension n)).answer) :
    (sumLattice series' dimension c excludeInner begins ready).answer =
      Prod.map (SumState.mapSlots f) id <$>
        (sumLattice series dimension c excludeInner begins ready).answer := by
  have rest : ∀ s : SumState R C, (do
      begins (s.mapSlots f)
      sumShells series' dimension c ready c.shellBudget (c.firstRound + 1)
        (s.mapSlots f).snapshot : Attempt R _).answer = Prod.map (SumState.mapSlots f) id <$> (do
      begins s
      sumShells series dimension c ready c.shellBudget (c.firstRound + 1) s.snapshot :
        Attempt R _).answer := by
    intro s
    rw [blind, answer_bind, answer_bind, map_bind]
    exact bind_congr fun _ =>
      answer_sumShells symmetry dimension c ready blind' alike _ _ (le_refl _) s.snapshot
  have start := SumState.mapSlots_initial (R := R) symmetry.zero
  unfold sumLattice
  dsimp only
  split
  · have begun := rest SumState.initial
    rw [start] at begun
    exact begun
  · rw [answer_bind, answer_bind]
    generalize (series (firstBlock dimension c excludeInner)).answer = answer at first ⊢
    generalize (series' (firstBlock dimension c excludeInner)).answer = answer' at first ⊢
    cases first with
    | failed cause => rfl
    | singular slots slots' =>
      change Except.ok (SumState.initial, true) =
        Except.ok ((SumState.initial : SumState R C).mapSlots f, true)
      rw [start]
    | regular slots =>
      have added := SumState.add_mapSlots symmetry.add (SumState.initial : SumState R C) slots
        (firstBlock dimension c excludeInner).length
      rw [start] at added
      have begun := rest (SumState.initial.add slots (firstBlock dimension c excludeInner).length)
      rw [← added] at begun
      exact begun

/-- Sums whose series answer alike for the first block and for every shell have the same counts and
verdicts and mapped values. -/
theorem answer_accumulate (symmetry : Slots.Symmetry f) (dimension : Int) (c : Convergence R)
    (description : String) (excludeInner : Bool) (obstacles : Obstacles R)
    (first : Contribution.Alike f (series (firstBlock dimension c excludeInner)).answer
      (series' (firstBlock dimension c excludeInner)).answer)
    (alike : ∀ n, c.firstRound + 1 ≤ n → Contribution.Alike f
      (series (Cell.shell dimension n)).answer (series' (Cell.shell dimension n)).answer) :
    (accumulate series' dimension c description excludeInner obstacles).answer =
      LatticeSum.mapValues f <$>
        (accumulate series dimension c description excludeInner obstacles).answer := by
  have whole := answer_sumLattice symmetry dimension c excludeInner
    (fun s => Attempt.ofExcept (s.passLimits c obstacles))
    (fun s => Attempt.ofExcept (s.passObstacles c obstacles))
    (fun s => by rw [SumState.passLimits_mapSlots])
    (fun s => by rw [SumState.passObstacles_mapSlots (symmetry.unseen c)]) first alike
  have closing : ∀ (s : SumState R C) (singular : Bool),
      (do
        let result := s.result c singular
        if !singular && !result.converged then note (s.shortfall description)
        return result : Attempt R (LatticeSum C)).answer = .ok (s.result c singular) := by
    intro s singular
    dsimp only
    split <;> rfl
  unfold accumulate
  simp only [monadLift_self]
  rw [answer_bind, answer_bind, map_bind]
  refine bind_congr fun _ => ?_
  split
  · rfl
  · rw [answer_bind, answer_bind, whole, bind_map_left, map_bind]
    refine bind_congr fun ended => ?_
    rw [closing, closing]
    rfl

end

/-! ## Series that go cell by cell -/

/-- A list of cells is singular if one of them is, and otherwise contributes the sum of their
terms. -/
structure Cellwise {R C : Type} [OfScientific R] [ComplexFunctions R C] [Add C]
    (series : List Cell → Attempt R (Contribution C)) (singular : Cell → Bool)
    (term : Cell → Slots C) : Prop where
  interrupted : ∀ cells, cells.any singular = true →
    ∃ slots, (series cells).answer = .ok ⟨slots, true⟩
  complete : ∀ cells, cells.any singular = false →
    (series cells).answer = .ok ⟨Slots.sum (cells.map term), false⟩

namespace Cellwise
variable {f : Slots ℂ → Slots ℂ} {series series' : List Cell → Attempt ℝ (Contribution ℂ)}
variable {singular singular' : Cell → Bool} {term term' : Cell → Slots ℂ}

/-- Over cells that are renamed into each other two series answer alike. -/
theorem alike (goes : Cellwise series singular term) (goes' : Cellwise series' singular' term')
    (symmetry : Slots.Symmetry f) {rename : Cell → Cell}
    (flags : ∀ cell, singular' (rename cell) = singular cell)
    (terms : ∀ cell, term' (rename cell) = f (term cell)) {cells : List Cell}
    (renamed : (cells.map rename).Perm cells) :
    Contribution.Alike f (series cells).answer (series' cells).answer := by
  have same : cells.any singular' = cells.any singular := by
    rw [← renamed.any_eq, List.any_map]
    exact congrArg cells.any (funext flags)
  cases found : cells.any singular with
  | true =>
    obtain ⟨slots, answered⟩ := goes.interrupted cells found
    obtain ⟨slots', answered'⟩ := goes'.interrupted cells (same.trans found)
    rw [answered, answered']
    exact .singular slots slots'
  | false =>
    have total : Slots.sum (cells.map term') = f (Slots.sum (cells.map term)) := by
      rw [← exactAddition_complex.sum_perm (renamed.map term'), ← symmetry.sum_map, List.map_map,
        List.map_map]
      exact congrArg Slots.sum (List.map_congr_left fun cell _ => terms cell)
    rw [goes.complete cells found, goes'.complete cells (same.trans found), total]
    exact .regular _

/-- Sums over renamed cells have the same counts and verdicts and mapped values. -/
theorem answer_accumulate (goes : Cellwise series singular term)
    (goes' : Cellwise series' singular' term') (symmetry : Slots.Symmetry f) {dimension : Int}
    (rename : Cell.Renaming dimension) (flags : ∀ cell, singular' (rename cell) = singular cell)
    (terms : ∀ cell, term' (rename cell) = f (term cell)) {c : Convergence ℝ}
    (first : 0 ≤ c.firstRound) (description : String) (excludeInner : Bool)
    (obstacles : Obstacles ℝ) :
    (accumulate series' dimension c description excludeInner obstacles).answer =
      LatticeSum.mapValues f <$>
        (accumulate series dimension c description excludeInner obstacles).answer := by
  refine LatticeGreen.answer_accumulate symmetry dimension c description excludeInner obstacles ?_
    ?_
  · exact goes.alike goes' symmetry flags terms (rename.map_firstBlock_perm c excludeInner)
  · intro n beyond
    exact goes.alike goes' symmetry flags terms (rename.map_shell_perm (by omega))

end Cellwise

/-! ## Orders -/

section
variable {R C : Type} [Sub R] [Mul R] [Neg R] [OfScientific R] [LT R] [DecidableLT R]
variable [RealFunctions R] [Add C] [Mul C] [ComplexFunctions R C]
open Attempt

/-- Orders of a line are added one by one up to the first singular one. -/
theorem LineOrder.answer_shell (k : C) {term : R → Attempt R (Slots C)} {along : Cell → R}
    {slots : Cell → Slots C} (answers : ∀ cell, (term (along cell)).answer = .ok (slots cell))
    (cells : List Cell) : ∀ total,
      ((cells.any fun cell => isSingular k (along cell)) = true →
        ∃ rest, (shell k term (cells.map along) total).answer = .ok ⟨rest, true⟩) ∧
      ((cells.any fun cell => isSingular k (along cell)) = false →
        (shell k term (cells.map along) total).answer =
          .ok ⟨(cells.map slots).foldl (· + ·) total, false⟩) := by
  induction cells with
  | nil => exact fun total => ⟨fun found => absurd found Bool.false_ne_true, fun _ => rfl⟩
  | cons cell cells ih =>
    intro total
    rw [List.map_cons, List.any_cons]
    unfold shell
    cases found : isSingular k (along cell) with
    | true =>
      exact ⟨fun _ => ⟨total, rfl⟩, fun regular => absurd regular.symm Bool.false_ne_true⟩
    | false =>
      rw [if_neg Bool.false_ne_true, answer_bind, answers, Bool.false_or]
      exact ih (total + slots cell)

end

section
variable [SpecialFunctions ℂ]
open Attempt

theorem LineTransform.exists_longRange (kt2 : ℂ) (rho : ℝ) {eta : ℝ} (split : eta ≠ 0) :
    ∃ g, (longRange kt2 rho eta).answer = .ok g := by
  have divides : (eta * eta == 0.0) = false := beq_zero_of_ne (mul_self_ne_zero.mpr split)
  unfold longRange
  split
  · exact ⟨_, rfl⟩
  · rw [divides]
    exact ⟨_, rfl⟩

namespace Distant

/-- Every order has a term. -/
theorem exists_order (far : Distant ℝ ℂ) (periodic : far.periodicity ≠ .unspecified)
    (split : far.splitting ≠ 0) (cell : Cell) : ∃ slots, (far.order cell).2.answer = .ok slots := by
  unfold order
  cases kind : far.periodicity with
  | unspecified => exact absurd kind periodic
  | line =>
    obtain ⟨g, transformed⟩ := LineTransform.exists_longRange
      (LineOrder.transverse far.wavenumber (far.along cell)) far.reciprocal.rho split
    unfold LineOrder.term
    rw [answer_bind, transformed]
    exact ⟨_, rfl⟩
  | plane => exact ⟨_, rfl⟩

/-- The series of the distant sum goes cell by cell, with its orders as terms. -/
theorem cellwise (far : Distant ℝ ℂ) (periodic : far.periodicity ≠ .unspecified)
    {term : Cell → Slots ℂ} (answers : ∀ cell, (far.order cell).2.answer = .ok (term cell)) :
    Cellwise far.shell (fun cell => (far.order cell).1) term := by
  unfold order at answers ⊢
  cases kind : far.periodicity with
  | unspecified => exact absurd kind periodic
  | line =>
    rw [kind] at answers
    refine ⟨fun cells found => ?_, fun cells regular => ?_⟩
    · unfold shell
      rw [kind]
      exact (LineOrder.answer_shell far.wavenumber answers cells Slots.zero).1 found
    · unfold shell
      rw [kind]
      exact (LineOrder.answer_shell far.wavenumber answers cells Slots.zero).2 regular
  | plane =>
    rw [kind] at answers
    have asked : ∀ cells : List Cell, PlaneOrder.anySingular far.wavenumber
        (cells.map far.shifted) = cells.any fun cell => grazes far.wavenumber
          (modulus (PlaneOrder.propagation far.wavenumber (far.shifted cell))) := fun cells =>
      List.any_map
    have same : PlaneOrder.term far.wavenumber far.splitting far.point ∘ far.shifted = term :=
      funext fun cell => Except.ok.inj (answers cell)
    refine ⟨fun cells found => ?_, fun cells regular => ?_⟩
    · unfold shell PlaneOrder.shell
      rw [kind, asked, if_pos found]
      exact ⟨_, rfl⟩
    · unfold shell PlaneOrder.shell
      rw [kind, asked, regular, List.map_map, same]
      rfl

/-- The orders of a distant sum are renamed into those of another, which is mapped. -/
structure IsRenamed (f : Slots ℂ → Slots ℂ) (rename : Cell → Cell) (far far' : Distant ℝ ℂ) :
    Prop where
  periodicity : far'.periodicity = far.periodicity
  splitting : far'.splitting = far.splitting
  zoneMeasure : far'.reciprocal.zoneMeasure = far.reciprocal.zoneMeasure
  singular : ∀ cell, (far'.order (rename cell)).1 = (far.order cell).1
  term : ∀ cell, (far'.order (rename cell)).2.answer = f <$> (far.order cell).2.answer

/-- Orders are renamed if what is told of each is mapped. -/
theorem isRenamed_of_order {f : Slots ℂ → Slots ℂ} {rename : Cell → Cell} {far far' : Distant ℝ ℂ}
    (periodicity : far'.periodicity = far.periodicity) (splitting : far'.splitting = far.splitting)
    (zoneMeasure : far'.reciprocal.zoneMeasure = far.reciprocal.zoneMeasure)
    (order : ∀ cell, far'.order (rename cell) = (far.order cell).map id (f <$> ·)) :
    IsRenamed f rename far far' where
  periodicity := periodicity
  splitting := splitting
  zoneMeasure := zoneMeasure
  singular cell := by
    have same := congrArg Prod.fst (order cell)
    exact same
  term cell := by
    have mapped := congrArg (·.2.answer) (order cell)
    exact mapped.trans (answer_map _ _)

theorem IsRenamed.answer_construct {f : Slots ℂ → Slots ℂ} (symmetry : Slots.Symmetry f)
    {far far' : Distant ℝ ℂ} {dimension : Int} {rename : Cell.Renaming dimension}
    (renamed : IsRenamed f rename far far') (periodic : far.periodicity ≠ .unspecified)
    (along : far.periodicity.dimension = dimension) {c : Convergence ℝ} (first : 0 ≤ c.firstRound)
    (obstacles : Obstacles ℝ) :
    (far'.construct c obstacles).answer =
      LatticeSum.mapValues f <$> (far.construct c obstacles).answer := by
  have prefactor : far'.prefactor = far.prefactor := by
    unfold Distant.prefactor Periodicity.prefactor
    rw [renamed.periodicity, renamed.zoneMeasure]
  have none : (0.0 : ℝ) = 0 := by norm_num
  unfold construct
  rw [renamed.splitting, renamed.periodicity, prefactor, along]
  split
  · change Except.ok LatticeSum.empty = Except.ok (LatticeSum.empty.mapValues f)
    rw [LatticeSum.mapValues_empty symmetry]
  · rename_i divided
    have split : far.splitting ≠ 0 := by simpa [none] using divided
    choose term answers using far.exists_order periodic split
    choose term' answers' using
      far'.exists_order (renamed.periodicity ▸ periodic) (renamed.splitting ▸ split)
    have terms : ∀ cell, term' (rename cell) = f (term cell) := by
      intro cell
      have same := renamed.term cell
      rw [answers, answers'] at same
      exact Except.ok.inj same
    have goes' := far'.cellwise (renamed.periodicity ▸ periodic) answers'
    rw [answer_bind, answer_bind, (far.cellwise periodic answers).answer_accumulate goes' symmetry
      rename renamed.singular terms first, bind_map_left, map_bind]
    refine bind_congr fun result => ?_
    rw [answer_bind, answer_bind, map_bind]
    refine bind_congr fun factor => ?_
    change Except.ok _ = Except.ok _
    unfold LatticeSum.mapValues
    rw [← symmetry.scale]

end Distant

/-- The kernels of a source are mapped into those of another one, for another wavenumber. -/
structure Source.IsMapped (f : Slots ℂ → Slots ℂ) (k k' : ℂ) (eta : ℝ) (s s' : Source ℝ ℂ) :
    Prop where
  small : LongRange.isSmall k' eta s' = LongRange.isSmall k eta s
  whole : FreeSpace.term k' s'.displacement s'.phase = f (FreeSpace.term k s.displacement s.phase)
  short : ShortRange.term k' eta s' = f (ShortRange.term k eta s)
  series : LongRange.smallTerm k' eta s' = f (LongRange.smallTerm k eta s)

/-- What is left of the whole kernel without its short-range half is mapped too. -/
theorem Source.IsMapped.longRange {f : Slots ℂ → Slots ℂ} (symmetry : Slots.Symmetry f) {k k' : ℂ}
    {eta : ℝ} {s s' : Source ℝ ℂ} (mapped : IsMapped f k k' eta s s') :
    (LongRange.term k' eta s').value = f (LongRange.term k eta s).value := by
  unfold LongRange.term
  rw [mapped.small]
  split
  · exact mapped.series
  · change LongRange.difference k' eta s' = f (LongRange.difference k eta s)
    unfold LongRange.difference
    rw [mapped.whole, mapped.short, symmetry.sub]

namespace Nearby

/-- The cells of a nearby sum are renamed into those of another, which is mapped. -/
structure IsRenamed (f : Slots ℂ → Slots ℂ) (rename : Cell → Cell) (near near' : Nearby ℝ ℂ) :
    Prop where
  dimension : near'.basis.dimension = near.basis.dimension
  splitting : near'.splitting = near.splitting
  term : ∀ cell, near'.term (rename cell) = f (near.term cell)
  longRange : ∀ cell,
    (LongRange.term near'.wavenumber near'.splitting (near'.source (rename cell))).value =
      f (LongRange.term near.wavenumber near.splitting (near.source cell)).value

/-- Cells are renamed if the kernels of their sources are mapped. -/
theorem isRenamed_of_mapped {f : Slots ℂ → Slots ℂ} (symmetry : Slots.Symmetry f)
    {rename : Cell → Cell} {near near' : Nearby ℝ ℂ}
    (dimension : near'.basis.dimension = near.basis.dimension)
    (splitting : near'.splitting = near.splitting)
    (mapped : ∀ cell, Source.IsMapped f near.wavenumber near'.wavenumber near.splitting
      (near.source cell) (near'.source (rename cell))) : IsRenamed f rename near near' where
  dimension := dimension
  splitting := splitting
  term cell := by
    unfold term
    dsimp only
    rw [splitting]
    split
    · exact (mapped cell).whole
    · exact (mapped cell).short
  longRange cell := by
    rw [splitting]
    exact (mapped cell).longRange symmetry

/-- No cell is singular. -/
theorem cellwise (near : Nearby ℝ ℂ) :
    Cellwise (fun cells => pure ⟨near.shell cells, false⟩) (fun _ => false) near.term where
  interrupted cells found := by
    rw [List.any_eq_true] at found
    obtain ⟨cell, -, singular⟩ := found
    cases singular
  complete cells _ := by
    rw [near.shell_eq_sum]
    rfl

/-- Without splitting no cell has a long-range half. -/
theorem longRange_unsplit (near : Nearby ℝ ℂ) (whole : (near.splitting == 0.0) = true)
    (cells : List Cell) : near.longRange cells = pure Slots.zero := by
  unfold longRange
  rw [if_pos whole]

theorem value_longRange_unsplit (near : Nearby ℝ ℂ) (whole : (near.splitting == 0.0) = true)
    (cells : List Cell) : (near.longRange cells).value = Slots.zero := by
  rw [near.longRange_unsplit whole]
  rfl

variable {f : Slots ℂ → Slots ℂ} {near near' : Nearby ℝ ℂ}
variable {rename : Cell.Renaming near.basis.dimension}

theorem IsRenamed.answer_construct (symmetry : Slots.Symmetry f)
    (renamed : IsRenamed f rename near near') {c : Convergence ℝ} (first : 0 ≤ c.firstRound)
    (excludeInner : Bool) (obstacles : Obstacles ℝ) :
    (near'.construct c excludeInner obstacles).answer =
      LatticeSum.mapValues f <$> (near.construct c excludeInner obstacles).answer := by
  unfold construct
  rw [renamed.dimension]
  exact near.cellwise.answer_accumulate near'.cellwise symmetry rename (fun _ => rfl) renamed.term
    first description excludeInner obstacles

theorem IsRenamed.value_longRange (symmetry : Slots.Symmetry f)
    (renamed : IsRenamed f rename near near') (n : Int) :
    (near'.longRange (Cell.block near.basis.dimension n)).value =
      f (near.longRange (Cell.block near.basis.dimension n)).value := by
  cases whole : near.splitting == 0.0 with
  | true =>
    rw [near.value_longRange_unsplit whole,
      near'.value_longRange_unsplit (renamed.splitting ▸ whole), symmetry.zero]
  | false =>
    have whole' : (near'.splitting == 0.0) = false := by rw [renamed.splitting, whole]
    rw [near.value_longRange whole, near'.value_longRange whole', ← symmetry.sum_map, List.map_map,
      ← exactAddition_complex.sum_perm ((rename.map_block_perm n).map _), List.map_map]
    exact congrArg Slots.sum (List.map_congr_left fun cell _ => renamed.longRange cell)

end Nearby

/-! ## Pairs of sums -/

omit [SpecialFunctions ℂ] in
theorem Basis.dimension_periodicity {R : Type} (basis : Basis R) :
    basis.periodicity.dimension = basis.dimension := by
  cases basis with
  | line a => rfl
  | plane a1 a2 => rfl

omit [SpecialFunctions ℂ] in
theorem Basis.periodicity_ne_unspecified {R : Type} (basis : Basis R) :
    basis.periodicity ≠ .unspecified := by
  cases basis with
  | line a => exact fun unspecified => nomatch unspecified
  | plane a1 a2 => exact fun unspecified => nomatch unspecified

namespace PeriodicGreen

/-- What one pair of sums gives, told by the two sums and the correction. -/
theorem trial_eq (green : PeriodicGreen ℝ) (near : Nearby ℝ ℂ) (r : Reciprocal ℝ) (retried : Bool) :
    green.trial near r retried = (do
      let nearby ← (near.construct green.convergence green.excludeInner green.obstacles).answer
      let distant ← ((near.distant r).construct green.convergence green.obstacles).answer
      return ⟨nearby.values + distant.values - green.correction near, nearby, distant,
        green.correction near, near.splitting, near.bloch, retried⟩) := by
  have unchanged : ∀ c : ℂ, c - zeroC = c := by simp
  unfold trial
  rw [sums_eq]
  simp only [answer_bind, bind_assoc, value_combine unchanged]
  rfl

/-- A pair of sums over renamed cells gives the mapped values. -/
theorem trial_renamed (green : PeriodicGreen ℝ) (first : 0 ≤ green.convergence.firstRound)
    {f : Slots ℂ → Slots ℂ} (symmetry : Slots.Symmetry f) {near near' : Nearby ℝ ℂ}
    {r r' : Reciprocal ℝ} {rename rename' : Cell.Renaming near.basis.dimension}
    (nearby : near.IsRenamed f rename near')
    (distant : (near.distant r).IsRenamed f rename' (near'.distant r')) (retried : Bool) :
    green.trial near' r' retried =
      (fun result => { result.mapSlots f with bloch := near'.bloch }) <$>
        green.trial near r retried := by
  have far := distant.answer_construct symmetry near.basis.periodicity_ne_unspecified
    near.basis.dimension_periodicity first green.obstacles
  have correction : green.correction near' = f (green.correction near) := by
    unfold correction
    split
    · rw [nearby.dimension]
      exact nearby.value_longRange symmetry 1
    · exact symmetry.zero.symm
  rw [trial_eq, trial_eq, nearby.answer_construct symmetry first, far, correction, nearby.splitting,
    bind_map_left, map_bind]
  refine bind_congr fun sum => ?_
  rw [bind_map_left, map_bind]
  refine bind_congr fun orders => ?_
  have total : (sum.mapValues f).values + (orders.mapValues f).values - f (green.correction near) =
      f (sum.values + orders.values - green.correction near) := by
    rw [symmetry.sub, symmetry.add]
    rfl
  rw [total]
  rfl

end PeriodicGreen

end

end LatticeGreen

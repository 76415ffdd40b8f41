import LatticeGreen.Proofs.CellTiling
import LatticeGreen.Proofs.Outcomes

/-!
# When a sum is singular

A sum passes on whether a list of cells that it asked for was singular. So it is regular if no list
is, and singular if its first block is. A list of orders is singular as soon as one of them grazes
the lattice, whatever becomes of the others, unless these fail.
-/
namespace LatticeGreen

section
variable {R α β : Type}

/-- Every result of the attempt has a property. -/
def Attempt.Ensures (property : α → Prop) (x : Attempt R α) : Prop :=
  ∀ a events, x = done a events → property a

namespace Attempt
variable {property : β → Prop}

theorem ensures_pure {b : β} (holds : property b) : Ensures property (pure b : Attempt R β) := by
  intro b' events ran
  rw [pure_eq_done, done_inj] at ran
  obtain ⟨rfl, -⟩ := ran
  exact holds

theorem Ensures.bind {x : Attempt R α} {f : α → Attempt R β} {known : α → Prop}
    (first : Ensures known x) (rest : ∀ a, known a → Ensures property (f a)) :
    Ensures property (x >>= f) := by
  intro b events ran
  obtain ⟨a, early, late, asked, ran⟩ := exists_of_bind_eq_done ran
  exact rest a (first a early asked) b late ran

/-- Nothing need be known about the first of two attempts. -/
theorem ensures_bind {x : Attempt R α} {f : α → Attempt R β}
    (rest : ∀ a, Ensures property (f a)) : Ensures property (x >>= f) :=
  Ensures.bind (fun _ _ _ => trivial) fun a (_ : True) => rest a

end Attempt

end

/-! ## Series -/

section
variable {R C : Type} [OfScientific R] [Mul R] [Div R] [LT R] [DecidableLT R] [RealFunctions R]
variable [Add C] [Sub C] [ComplexFunctions R C] {series : List Cell → Attempt R (Contribution C)}
open Attempt

theorem regular_sumShells (asked : ∀ cells, Ensures (·.singular = false) (series cells))
    (dimension : Int) (c : Convergence R) (ready : SumState R C → Attempt R Unit) (budget : Nat) :
    ∀ (n : Int) (s : SumState R C),
      Ensures (·.2 = false) (sumShells series dimension c ready budget n s) := by
  induction budget with
  | zero => exact fun n s => ensures_pure rfl
  | succ budget ih =>
    intro n s
    unfold sumShells
    split
    · exact ensures_pure rfl
    · refine (asked _).bind fun contribution regular => ?_
      rw [if_neg (Bool.eq_false_iff.mp regular)]
      exact ensures_bind fun _ => ih _ _

theorem regular_sumLattice (asked : ∀ cells, Ensures (·.singular = false) (series cells))
    (dimension : Int) (c : Convergence R) (excludeInner : Bool)
    (begins ready : SumState R C → Attempt R Unit) :
    Ensures (·.2 = false) (sumLattice series dimension c excludeInner begins ready) := by
  unfold sumLattice
  dsimp only
  split
  · exact ensures_bind fun _ => regular_sumShells asked dimension c ready _ _ _
  · refine (asked _).bind fun contribution regular => ?_
    rw [if_neg (Bool.eq_false_iff.mp regular)]
    exact ensures_bind fun _ => regular_sumShells asked dimension c ready _ _ _

/-- A first block that is singular ends the sum before any shell. -/
theorem singular_sumLattice {dimension : Int} {c : Convergence R} {excludeInner : Bool}
    (begun : firstBlock dimension c excludeInner ≠ [])
    (asked : Ensures (·.singular = true) (series (firstBlock dimension c excludeInner)))
    (begins ready : SumState R C → Attempt R Unit) :
    Ensures (·.2 = true) (sumLattice series dimension c excludeInner begins ready) := by
  unfold sumLattice
  dsimp only
  rw [if_neg (mt List.isEmpty_iff.mp begun)]
  refine asked.bind fun contribution singular => ?_
  rw [if_pos singular]
  exact ensures_pure rfl

/-- The sum passes on the flag that its run ended with. -/
theorem ensures_accumulate {dimension : Int} {c : Convergence R} {excludeInner : Bool} {flag : Bool}
    (ended : ∀ begins ready,
      Ensures (·.2 = flag) (sumLattice series dimension c excludeInner begins ready))
    (description : String) (obstacles : Obstacles R) : Ensures (·.singular = flag)
      (accumulate series dimension c description excludeInner obstacles) := by
  have closing : ∀ (s : SumState R C) (singular : Bool), singular = flag →
      Ensures (·.singular = flag) (do
        let result := s.result c singular
        if !singular && !result.converged then Attempt.note (s.shortfall description)
        return result : Attempt R (LatticeSum C)) := by
    intro s singular told
    dsimp only
    split
    · exact ensures_bind fun _ => ensures_pure told
    · exact ensures_pure told
  unfold accumulate
  refine ensures_bind fun _ => ?_
  split
  · exact ensures_bind fun _ => (ended _ _).bind fun sum told => closing sum.1 sum.2 told
  · exact (ended _ _).bind fun sum told => closing sum.1 sum.2 told

end

/-! ## Orders that graze the lattice -/

section
variable {R C : Type}
variable [Sub R] [Mul R] [Neg R] [OfScientific R] [LT R] [DecidableLT R] [RealFunctions R]
variable [Add C] [Mul C] [ComplexFunctions R C]
open Attempt

/-- Orders of a line are looked at one by one, up to the one that grazes it. -/
theorem LineOrder.singular_shell {k : C} {term : R → Attempt R (Slots C)} {orders : List R} {kx : R}
    (listed : kx ∈ orders) (grazing : isSingular k kx = true) :
    ∀ total, Ensures (·.singular = true) (shell k term orders total) := by
  induction orders with
  | nil => cases listed
  | cons first orders ih =>
    intro total
    unfold shell
    split
    · exact ensures_pure rfl
    · rename_i regular
      have later : kx ∈ orders := by
        refine (List.mem_cons.mp listed).resolve_left fun same => ?_
        rw [← same] at regular
        exact regular grazing
      exact ensures_bind fun slots => ih later _

variable [Add R] [Div R] [IntCast R] [NatCast R] [Pow R Nat] [BEq R] [LE R] [DecidableLE R]
variable [Sub C] [Div C] [Neg C] [BEq C] [SpecialFunctions C]

omit [Pow R Nat] in
/-- A line is summed as singular if an order of the first block grazes it. -/
theorem Distant.singular_construct {far : Distant R C} (line : far.periodicity = .line)
    (divided : (far.splitting == 0.0) = false) {c : Convergence R} {cell : Cell}
    (first : cell ∈ Cell.block 1 c.firstRound)
    (grazing : LineOrder.isSingular far.wavenumber (far.along cell) = true)
    (obstacles : Obstacles R) : Ensures (·.singular = true) (far.construct c obstacles) := by
  have listed : cell ∈ firstBlock far.periodicity.dimension c false := by
    rw [line]
    exact first
  have asked : ∀ cells, cell ∈ cells → Ensures (·.singular = true) (far.shell cells) := by
    intro cells member
    unfold shell
    rw [line]
    exact LineOrder.singular_shell (List.mem_map_of_mem member) grazing _
  unfold construct
  rw [if_neg (Bool.eq_false_iff.mp divided)]
  refine (ensures_accumulate (singular_sumLattice (List.ne_nil_of_mem listed) (asked _ listed))
    description obstacles).bind fun sum singular => ?_
  exact ensures_bind fun factor => ensures_pure singular

/-- The distant half of a pair of sums is singular if an order of its first block grazes the
line. -/
theorem PeriodicGreen.singular_sums (green : PeriodicGreen R) (a : Vec2 R) (point : Vec3 R) {k : C}
    {bloch : Vec2 R} {eta : R} {reciprocal : Reciprocal R} (divided : (eta == 0.0) = false)
    (cell : Cell) (first : cell ∈ Cell.block 1 green.convergence.firstRound)
    (grazing : LineOrder.isSingular k (bloch.x - (cell.n1 : R) * reciprocal.gamma1.x) = true) :
    Ensures (·.distant.singular = true)
      (green.sums (.line a) point k bloch eta reciprocal) := by
  rw [sums_eq]
  refine ensures_bind fun nearby => ?_
  let far : Distant R C := ⟨.line, point, k, bloch, reciprocal, eta⟩
  have singular := far.singular_construct rfl divided first grazing green.obstacles
  exact singular.bind fun distant flagged => ensures_pure flagged

end

end LatticeGreen

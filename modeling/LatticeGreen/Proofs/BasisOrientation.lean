import LatticeGreen.Proofs.Inversion

/-!
# The orientation and the order of a basis

The rows of a basis may be reversed and exchanged: they span the same lattice. The cells are renamed
within their blocks and shells, the dual vectors follow the rows, and the cell measure, the distance
from a line and the splitting parameter stay as they are. Every evaluation has the same result, also
where it is retried and for left-handed bases.
-/
namespace LatticeGreen
open Attempt

/-- A change of the rows of a basis that keeps the lattice they span. A line has one row, which only
the reversal of the first changes. -/
inductive Turn where
  | reverseFirst | reverseSecond | exchange
  deriving Repr, DecidableEq

namespace Turn

/-- The changed rows. -/
def basis : Turn → Basis ℝ → Basis ℝ
  | reverseFirst, .line a => .line (-a)
  | reverseSecond, .line a => .line a
  | exchange, .line a => .line a
  | reverseFirst, .plane a1 a2 => .plane (-a1) a2
  | reverseSecond, .plane a1 a2 => .plane a1 (-a2)
  | exchange, .plane a1 a2 => .plane a2 a1

/-- The dual rows change with the rows, and nothing else of a reciprocal lattice. -/
def reciprocal (dimension : Int) (t : Turn) (r : Reciprocal ℝ) : Reciprocal ℝ :=
  match t with
  | reverseFirst => { r with gamma1 := -r.gamma1 }
  | reverseSecond => if dimension = 1 then r else { r with gamma2 := -r.gamma2 }
  | exchange => if dimension = 1 then r else { r with gamma1 := r.gamma2, gamma2 := r.gamma1 }

/-- The cell with the same source under the changed rows. -/
def cell (dimension : Int) (t : Turn) (cell : Cell) : Cell :=
  match t with
  | reverseFirst => ⟨-cell.n1, cell.n2⟩
  | reverseSecond => ⟨cell.n1, -cell.n2⟩
  | exchange => if dimension = 1 then cell else ⟨cell.n2, cell.n1⟩

variable (t : Turn)

@[simp] theorem dimension_basis (basis : Basis ℝ) :
    (t.basis basis).dimension = basis.dimension := by
  cases basis <;> cases t <;> rfl

theorem periodicity_basis (basis : Basis ℝ) : (t.basis basis).periodicity = basis.periodicity := by
  cases basis <;> cases t <;> rfl

theorem reciprocal_keeps (dimension : Int) (r : Reciprocal ℝ) :
    (t.reciprocal dimension r).zoneMeasure = r.zoneMeasure ∧
      (t.reciprocal dimension r).rho = r.rho ∧
      (t.reciprocal dimension r).optimalSplitting = r.optimalSplitting := by
  cases t with
  | reverseFirst => exact ⟨rfl, rfl, rfl⟩
  | reverseSecond =>
    unfold reciprocal
    dsimp only
    split <;> exact ⟨rfl, rfl, rfl⟩
  | exchange =>
    unfold reciprocal
    dsimp only
    split <;> exact ⟨rfl, rfl, rfl⟩

/-- Turned cells are as far from the origin. -/
def toRenaming (dimension : Int) : Cell.Renaming dimension where
  toFun := t.cell dimension
  injective := by
    rintro ⟨n1, n2⟩ ⟨m1, m2⟩ same
    cases t <;> grind [cell]
  radius_eq := by
    rintro ⟨n1, n2⟩
    cases t <;> grind [cell, Cell.radius]
  onLattice := by
    rintro ⟨n1, n2⟩ onLattice line
    have flat := onLattice line
    cases t <;> grind [cell]

end Turn

/-! ## Reciprocal lattices -/

namespace Vec2

instance : InvolutiveNeg (Vec2 ℝ) where
  neg_neg v := congrArg₂ Vec2.mk (neg_neg v.x) (neg_neg v.y)

theorem neg_cross (u v : Vec2 ℝ) : (-u).cross v = -u.cross v := by
  simp only [cross, x_neg, y_neg]
  ring

theorem cross_neg (u v : Vec2 ℝ) : u.cross (-v) = -u.cross v := by
  simp only [cross, x_neg, y_neg]
  ring

theorem cross_comm (u v : Vec2 ℝ) : v.cross u = -u.cross v := by
  simp only [cross]
  ring

end Vec2

namespace Reciprocal

theorem beq_zero_neg (x : ℝ) : (-x == 0.0) = (x == 0.0) := by
  simp only [beq_zero_exact, neg_eq_zero]

/-- A reversed line is as long, and as far from the point. -/
theorem ofLine_neg (a : Vec2 ℝ) (k : ℂ) (point : Vec3 ℝ) :
    ofLine (-a) k point = Turn.reverseFirst.reciprocal 1 <$> ofLine a k point := by
  have factor : point.planar.dot (-a) = -point.planar.dot a := by
    simp only [Vec2.dot, Vec2.x_neg, Vec2.y_neg]
    ring
  have dual : ∀ norm : ℝ, (⟨norm * -a.x, norm * -a.y⟩ : Vec2 ℝ) = -⟨norm * a.x, norm * a.y⟩ :=
    fun norm => congrArg₂ Vec2.mk (mul_neg _ _) (mul_neg _ _)
  unfold ofLine
  simp only [Vec2.dot_neg_neg, Vec2.x_neg, Vec2.y_neg, beq_zero_neg, factor, neg_div, neg_mul_neg,
    dual]
  split
  · rfl
  split
  · rfl
  · rfl

/-- The row across a vector that is dual to the other one, for the area that both span. -/
noncomputable def dualRow (v : Vec2 ℝ) (area : ℝ) : Vec2 ℝ :=
  ⟨2.0 * pi * v.y / area, 2.0 * pi * -v.x / area⟩

theorem dualRow_neg_area (v : Vec2 ℝ) (area : ℝ) : dualRow v (-area) = -dualRow v area :=
  congrArg₂ Vec2.mk (div_neg _) (div_neg _)

theorem dualRow_neg (v : Vec2 ℝ) (area : ℝ) : dualRow (-v) area = -dualRow v area := by
  refine congrArg₂ Vec2.mk ?_ ?_ <;>
  · simp only [dualRow, Vec2.x_neg, Vec2.y_neg, mul_neg, neg_div]

/-- The reciprocal lattice of a plane with the given dual rows. -/
noncomputable def ofDual (area w : ℝ) (g1 g2 : Vec2 ℝ) : Reciprocal ℝ :=
  ⟨g1, g2, |g1.cross g2|, 0.0, planeSplitting area w g1 g2⟩

theorem ofPlane_eq (a1 a2 : Vec2 ℝ) (k : ℂ) :
    ofPlane a1 a2 k = if a1.cross a2 == 0.0 then .error .emptyCell
      else .ok (ofDual (a1.cross a2) ‖k‖ (dualRow a2 (a1.cross a2))
        (dualRow a1 (-a1.cross a2))) := by
  have second : dualRow a1 (-a1.cross a2) =
      ⟨2.0 * pi * -a1.y / a1.cross a2, 2.0 * pi * a1.x / a1.cross a2⟩ := by
    refine congrArg₂ Vec2.mk ?_ ?_
    · rw [mul_neg, neg_div, div_neg]
    · rw [mul_neg, neg_div_neg_eq]
  rw [second]
  rfl

/-- Of the dual rows the measure and the splitting parameter see sizes only. -/
theorem ofDual_congr {area area' : ℝ} (w : ℝ) {g1 g2 h1 h2 : Vec2 ℝ} (size : |area'| = |area|)
    (measure : |h1.cross h2| = |g1.cross g2|)
    (length : h1.dot h1 + h2.dot h2 = g1.dot g1 + g2.dot g2) :
    ofDual area' w h1 h2 = { ofDual area w g1 g2 with gamma1 := h1, gamma2 := h2 } := by
  have splitting : planeSplitting area' w h1 h2 = planeSplitting area w g1 g2 := by
    rw [planeSplitting_eq_max, planeSplitting_eq_max, size, add_assoc, length, ← add_assoc]
  unfold ofDual
  rw [measure, splitting]

/-- Rows that span the same area with the other sign have turned dual rows, if these are as long and
span as much. -/
theorem ofPlane_of_flipped (t : Turn) {a1 a2 b1 b2 : Vec2 ℝ} (k : ℂ)
    (flipped : b1.cross b2 = -a1.cross a2) :
    let g1 := dualRow a2 (a1.cross a2)
    let g2 := dualRow a1 (-a1.cross a2)
    let h1 := dualRow b2 (-a1.cross a2)
    let h2 := dualRow b1 (a1.cross a2)
    |h1.cross h2| = |g1.cross g2| → h1.dot h1 + h2.dot h2 = g1.dot g1 + g2.dot g2 →
    (∀ r : Reciprocal ℝ, r.gamma1 = g1 → r.gamma2 = g2 →
      t.reciprocal 2 r = { r with gamma1 := h1, gamma2 := h2 }) →
    ofPlane b1 b2 k = t.reciprocal 2 <$> ofPlane a1 a2 k := by
  intro g1 g2 h1 h2 measure length turned
  rw [ofPlane_eq, ofPlane_eq, flipped, beq_zero_neg, neg_neg,
    ofDual_congr ‖k‖ (abs_neg (a1.cross a2)) measure length, ← turned _ rfl rfl]
  split
  · rfl
  · rfl

/-- Turned rows span a cell of the same area, with the other sign. -/
theorem ofPlane_turn (t : Turn) (a1 a2 : Vec2 ℝ) (k : ℂ) (point : Vec3 ℝ) :
    construct (t.basis (.plane a1 a2)) k point =
      t.reciprocal 2 <$> construct (.plane a1 a2) k point := by
  let area := a1.cross a2
  have outward : ∀ v, dualRow v (-area) = -dualRow v area := fun v => dualRow_neg_area v area
  cases t with
  | reverseFirst =>
    have same : dualRow (-a1) area = dualRow a1 (-area) := by rw [dualRow_neg, outward]
    refine ofPlane_of_flipped _ k (a1.neg_cross a2) ?_ ?_ ?_
    · rw [same, outward a2, Vec2.neg_cross, abs_neg]
    · rw [same, outward a2, Vec2.dot_neg_neg]
    · intro r first second
      rw [same, outward a2, ← first, ← second]
      rfl
  | reverseSecond =>
    have same : dualRow (-a2) (-area) = dualRow a2 area := by rw [dualRow_neg, outward, neg_neg]
    have reversed : dualRow a1 area = -dualRow a1 (-area) := by rw [outward, neg_neg]
    refine ofPlane_of_flipped _ k (a1.cross_neg a2) ?_ ?_ ?_
    · rw [same, reversed, Vec2.cross_neg, abs_neg]
    · rw [same, reversed, Vec2.dot_neg_neg]
    · intro r first second
      rw [same, reversed, ← first, ← second]
      rfl
  | exchange =>
    refine ofPlane_of_flipped _ k (a1.cross_comm a2) ?_ (add_comm _ _) ?_
    · rw [Vec2.cross_comm, abs_neg]
    · intro r first second
      rw [← first, ← second]
      rfl

/-- The dual rows follow the rows. -/
theorem construct_turn (t : Turn) (basis : Basis ℝ) (k : ℂ) (point : Vec3 ℝ) :
    construct (t.basis basis) k point =
      t.reciprocal basis.dimension <$> construct basis k point := by
  have same : ∀ answer : Except (ConfigurationError ℝ) (Reciprocal ℝ), answer = id <$> answer :=
    fun answer => (id_map answer).symm
  cases basis with
  | line a =>
    cases t with
    | reverseFirst => exact ofLine_neg a k point
    | reverseSecond => exact same _
    | exchange => exact same _
  | plane a1 a2 => exact ofPlane_turn t a1 a2 k point

end Reciprocal

/-! ## Both sums -/

/-- What a nearby sum depends on, with its rows turned. -/
def Nearby.turn (near : Nearby ℝ ℂ) (t : Turn) : Nearby ℝ ℂ :=
  { near with basis := t.basis near.basis }

theorem Nearby.latticePoint_turn (near : Nearby ℝ ℂ) (t : Turn) (cell : Cell) :
    (near.turn t).latticePoint (t.cell near.basis.dimension cell) = near.latticePoint cell := by
  have plane : (2 : Int) ≠ 1 := by decide
  obtain ⟨point, k, bloch, basis, eta⟩ := near
  cases basis with
  | line a =>
    cases t with
    | reverseFirst =>
      refine congrArg₂ Vec2.mk ?_ ?_ <;>
      · simp only [Turn.cell, Vec2.x_neg, Vec2.y_neg]
        push_cast
        ring
    | reverseSecond => rfl
    | exchange => rfl
  | plane a1 a2 =>
    cases t with
    | reverseFirst =>
      refine congrArg₂ Vec2.mk ?_ ?_ <;>
      · simp only [Turn.cell, Vec2.x_neg, Vec2.y_neg]
        push_cast
        ring
    | reverseSecond =>
      refine congrArg₂ Vec2.mk ?_ ?_ <;>
      · simp only [Turn.cell, Vec2.x_neg, Vec2.y_neg]
        push_cast
        ring
    | exchange => exact congrArg₂ Vec2.mk (add_comm _ _) (add_comm _ _)

/-- Each source has a new name. -/
theorem Nearby.source_turn (near : Nearby ℝ ℂ) (t : Turn) (cell : Cell) :
    (near.turn t).source (t.cell near.basis.dimension cell) = near.source cell := by
  unfold source displacement phase
  rw [near.latticePoint_turn]
  rfl

/-- Each reciprocal vector of a plane has a new name. -/
theorem Reciprocal.vector_turn (r : Reciprocal ℝ) (t : Turn) (cell : Cell) :
    (t.reciprocal 2 r).vector (t.cell 2 cell) = r.vector cell := by
  cases t with
  | reverseFirst =>
    refine congrArg₂ Vec2.mk ?_ ?_ <;>
    · simp only [Turn.cell, Turn.reciprocal, Vec2.x_neg, Vec2.y_neg]
      push_cast
      ring
  | reverseSecond =>
    change (⟨r.gamma1, -r.gamma2, r.zoneMeasure, r.rho, r.optimalSplitting⟩ : Reciprocal ℝ).vector
      ⟨cell.n1, -cell.n2⟩ = _
    refine congrArg₂ Vec2.mk ?_ ?_ <;>
    · simp only [Vec2.x_neg, Vec2.y_neg]
      push_cast
      ring
  | exchange => exact congrArg₂ Vec2.mk (add_comm _ _) (add_comm _ _)

section
variable [SpecialFunctions ℂ]

omit [SpecialFunctions ℂ] in
theorem Slots.symmetry_id : Slots.Symmetry (id : Slots ℂ → Slots ℂ) where
  zero := rfl
  add _ _ := rfl
  sub _ _ := rfl
  scale _ _ := rfl
  modulus _ := rfl

theorem Nearby.isRenamed_turn (near : Nearby ℝ ℂ) (t : Turn) :
    near.IsRenamed id (t.toRenaming near.basis.dimension) (near.turn t) := by
  refine isRenamed_of_mapped Slots.symmetry_id (t.dimension_basis near.basis) rfl fun cell => ?_
  have source : (near.turn t).source ((t.toRenaming near.basis.dimension) cell) =
    near.source cell := near.source_turn t cell
  rw [source]
  exact ⟨rfl, rfl, rfl, rfl⟩

/-- Each order has a new name. -/
theorem Distant.order_turn (near : Nearby ℝ ℂ) (r : Reciprocal ℝ) (t : Turn) (cell : Cell) :
    ((near.turn t).distant (t.reciprocal near.basis.dimension r)).order
      (t.cell near.basis.dimension cell) = (near.distant r).order cell := by
  obtain ⟨-, distance, -⟩ := t.reciprocal_keeps near.basis.dimension r
  obtain ⟨point, k, bloch, basis, eta⟩ := near
  cases basis with
  | line a =>
    let kx : Cell → ℝ := fun cell => bloch.x - (cell.n1 : ℝ) * (t.reciprocal 1 r).gamma1.x
    have along : kx (t.cell 1 cell) = bloch.x - (cell.n1 : ℝ) * r.gamma1.x := by
      cases t with
      | reverseFirst =>
        simp only [kx, Turn.cell, Turn.reciprocal, Vec2.x_neg]
        push_cast
        ring
      | reverseSecond => rfl
      | exchange => rfl
    have named : ((Nearby.turn ⟨point, k, bloch, .line a, eta⟩ t).distant (t.reciprocal 1 r)).order
        (t.cell 1 cell) = (LineOrder.isSingular k (kx (t.cell 1 cell)),
          LineOrder.term k (t.reciprocal 1 r).rho eta point (kx (t.cell 1 cell))) := by
      cases t <;> rfl
    have kept : (t.reciprocal 1 r).rho = r.rho := distance
    exact named.trans (by rw [along, kept]; rfl)
  | plane a1 a2 =>
    let p : Vec2 ℝ := ⟨bloch.x - ((t.reciprocal 2 r).vector (t.cell 2 cell)).x,
      bloch.y - ((t.reciprocal 2 r).vector (t.cell 2 cell)).y⟩
    have shifted : p = ⟨bloch.x - (r.vector cell).x, bloch.y - (r.vector cell).y⟩ := by
      simp only [p, r.vector_turn]
    have named : ((Nearby.turn ⟨point, k, bloch, .plane a1 a2, eta⟩ t).distant
        (t.reciprocal 2 r)).order (t.cell 2 cell) =
        (grazes k (modulus (PlaneOrder.propagation k p)),
          pure (PlaneOrder.term k eta point p)) := by
      cases t <;> rfl
    exact named.trans (by rw [shifted]; rfl)

theorem Distant.isRenamed_turn (near : Nearby ℝ ℂ) (r : Reciprocal ℝ) (t : Turn) :
    (near.distant r).IsRenamed id (t.toRenaming near.basis.dimension)
      ((near.turn t).distant (t.reciprocal near.basis.dimension r)) := by
  refine isRenamed_of_order (t.periodicity_basis near.basis) rfl
    (t.reciprocal_keeps near.basis.dimension r).1 fun cell => (order_turn near r t cell).trans ?_
  exact Prod.ext rfl (id_map _).symm

/-! ## Evaluations -/

namespace PeriodicGreen

/-- Pairs of sums over turned rows give the same, and so does what a second pair would give. -/
theorem trial_turn (green : PeriodicGreen ℝ) (first : 0 ≤ green.convergence.firstRound)
    (near : Nearby ℝ ℂ) (r : Reciprocal ℝ) (t : Turn) (retried : Bool) :
    green.trial (near.turn t) (t.reciprocal near.basis.dimension r) retried =
      green.trial near r retried := by
  rw [green.trial_renamed first Slots.symmetry_id (near.isRenamed_turn t)
    (Distant.isRenamed_turn near r t) retried]
  cases tried : green.trial near r retried with
  | error cause => rfl
  | ok result =>
    have same : { result.mapSlots id with bloch := (near.turn t).bloch } = result := by
      change { result with bloch := near.bloch } = result
      rw [← bloch_trial tried]
    exact congrArg Except.ok same

theorem tries_turn (green : PeriodicGreen ℝ) (first : 0 ≤ green.convergence.firstRound)
    (near : Nearby ℝ ℂ) (r : Reciprocal ℝ) (t : Turn) :
    green.tries (near.turn t) (t.reciprocal near.basis.dimension r) = green.tries near r := by
  let shifted : Nearby ℝ ℂ := { near with bloch := shiftedBloch near.wavenumber near.bloch }
  have again : green.trial { near.turn t with bloch := shiftedBloch near.wavenumber near.bloch }
      (t.reciprocal near.basis.dimension r) true = green.trial shifted r true :=
    green.trial_turn first shifted r t true
  unfold tries
  rw [green.trial_turn first near r t false]
  refine bind_congr fun sums => ?_
  change (if sums.distant.singular = true then green.trial { near.turn t with
    bloch := shiftedBloch near.wavenumber near.bloch } _ true else _) = _
  rw [again]

end PeriodicGreen

end

/-- The rows after one turn after the other. -/
def Basis.turned (turns : List Turn) (basis : Basis ℝ) : Basis ℝ :=
  turns.foldl (fun basis t => t.basis basis) basis

/-- The reciprocal lattice after one turn of the rows after the other. -/
def Reciprocal.turned (dimension : Int) (turns : List Turn) (r : Reciprocal ℝ) : Reciprocal ℝ :=
  turns.foldl (fun r t => t.reciprocal dimension r) r

theorem Basis.dimension_turned (turns : List Turn) :
    ∀ basis : Basis ℝ, (basis.turned turns).dimension = basis.dimension := by
  induction turns with
  | nil => exact fun basis => rfl
  | cons t turns ih => exact fun basis => (ih (t.basis basis)).trans (t.dimension_basis basis)

theorem Reciprocal.optimalSplitting_turned (dimension : Int) (turns : List Turn) :
    ∀ r : Reciprocal ℝ, (r.turned dimension turns).optimalSplitting = r.optimalSplitting := by
  induction turns with
  | nil => exact fun r => rfl
  | cons t turns ih =>
    exact fun r => (ih (t.reciprocal dimension r)).trans (t.reciprocal_keeps dimension r).2.2

theorem Reciprocal.construct_turned (k : ℂ) (point : Vec3 ℝ) (turns : List Turn) :
    ∀ basis : Basis ℝ, construct (basis.turned turns) k point =
      turned basis.dimension turns <$> construct basis k point := by
  induction turns with
  | nil => exact fun basis => (id_map _).symm
  | cons t turns ih =>
    intro basis
    have later := ih (t.basis basis)
    rw [t.dimension_basis, construct_turn, Functor.map_map] at later
    exact later

theorem ok_bind {ε α β : Type} (a : α) (f : α → Except ε β) : (Except.ok a >>= f) = f a := rfl

/-- The number of rows tells a line from a plane. -/
theorem Lattice.dimension_of_vectors {lattice : Lattice ℝ} {basis : Basis ℝ}
    (vectors : lattice.vectors = .ok basis) : (lattice.dimension : Int) = basis.dimension := by
  have shape : lattice.basis.toArray.shape =
    lattice.dimension :: lattice.basis.columns :: lattice.basis.inner := rfl
  change Reciprocal.readBasis lattice.basis.toArray = .ok basis at vectors
  unfold Reciprocal.readBasis at vectors
  rw [shape] at vectors
  dsimp only at vectors
  split at vectors
  · rename_i row _
    rw [← Except.ok.inj vectors, (List.cons.inj row).1]
    rfl
  · cases vectors
  · cases vectors
  · cases vectors
  · rename_i rows
    split at vectors
    · rw [← Except.ok.inj vectors, (List.cons.inj rows).1]
      rfl
    · cases vectors
  · split at vectors
    · cases vectors
    · split at vectors
      · split at vectors <;> cases vectors
      · cases vectors
  all_goals cases vectors

/-- The rows as an array. -/
def Basis.rows : Basis ℝ → RealArray ℝ
  | .line a => ⟨[1, 2], [a.x, a.y], rfl⟩
  | .plane a1 a2 => ⟨[2, 2], [a1.x, a1.y, a2.x, a2.y], rfl⟩

/-- Any rows make a lattice, which has them as its vectors. -/
theorem Lattice.exists_ofBasis (basis : Basis ℝ) :
    ∃ lattice, ofBasis basis.rows = .ok lattice ∧ lattice.vectors = .ok basis := by
  cases basis with
  | line a => exact ⟨_, rfl, rfl⟩
  | plane a1 a2 => exact ⟨_, rfl, rfl⟩

/-- A lattice with turned rows has the same reciprocal lattice, but for the dual rows. -/
theorem Lattice.reciprocal_turned {lattice other : Lattice ℝ} {basis : Basis ℝ}
    (vectors : lattice.vectors = .ok basis) (turns : List Turn)
    (turned : other.vectors = .ok (basis.turned turns)) (k : ℂ) (point : Vec3 ℝ) :
    other.reciprocal k point =
      Reciprocal.turned basis.dimension turns <$> lattice.reciprocal k point := by
  rw [Lattice.reciprocal_eq turned, Lattice.reciprocal_eq vectors, Reciprocal.construct_turned]
  cases Reciprocal.construct basis k point with
  | error cause => rfl
  | ok r => rfl

namespace PeriodicGreen
variable [SpecialFunctions ℂ]

theorem tries_turned (green : PeriodicGreen ℝ) (first : 0 ≤ green.convergence.firstRound)
    (turns : List Turn) : ∀ (near : Nearby ℝ ℂ) (r : Reciprocal ℝ),
      green.tries { near with basis := near.basis.turned turns }
        (r.turned near.basis.dimension turns) = green.tries near r := by
  induction turns with
  | nil => exact fun near r => rfl
  | cons t turns ih =>
    intro near r
    have later := ih (near.turn t) (t.reciprocal near.basis.dimension r)
    have same : (near.turn t).basis.dimension = near.basis.dimension := t.dimension_basis near.basis
    rw [same, green.tries_turn first] at later
    exact later

omit [SpecialFunctions ℂ] in
theorem splittingFor_turned (green : PeriodicGreen ℝ) (lattice : Lattice ℝ) (dimension : Int)
    (turns : List Turn) (r : Reciprocal ℝ) :
    ({ green with lattice } : PeriodicGreen ℝ).splittingFor (r.turned dimension turns) =
      green.splittingFor r := by
  unfold splittingFor
  rw [r.optimalSplitting_turned]

/-- The sums depend on a lattice through its vectors only. -/
theorem tries_lattice (green : PeriodicGreen ℝ) (lattice : Lattice ℝ) (near : Nearby ℝ ℂ)
    (r : Reciprocal ℝ) :
    ({ green with lattice } : PeriodicGreen ℝ).tries near r = green.tries near r := by
  unfold tries trial combine sums
  rfl

/-- The answer of an evaluation is the same for every basis of the lattice with these rows. -/
theorem answer_evaluate_turned (green : PeriodicGreen ℝ)
    (first : 0 ≤ green.convergence.firstRound) {basis : Basis ℝ}
    (vectors : green.lattice.vectors = .ok basis) (turns : List Turn) {lattice : Lattice ℝ}
    (turned : lattice.vectors = .ok (basis.turned turns)) (point : RealArray ℝ) (k : ℂ)
    (bloch : RealArray ℝ) :
    (({ green with lattice } : PeriodicGreen ℝ).evaluate point k bloch).answer =
      (green.evaluate point k bloch).answer := by
  have rows : lattice.dimension = green.lattice.dimension := by
    have := Lattice.dimension_of_vectors turned
    have := Lattice.dimension_of_vectors vectors
    have := basis.dimension_turned turns
    omega
  have sums : ∀ p b r, ({ green with lattice } : PeriodicGreen ℝ).tries
      (({ green with lattice } : PeriodicGreen ℝ).nearFor p k b (basis.turned turns)
        (r.turned basis.dimension turns)) (r.turned basis.dimension turns) =
      green.tries (green.nearFor p k b basis r) r := by
    intro p b r
    unfold nearFor
    rw [tries_lattice, splittingFor_turned]
    exact green.tries_turned first turns ⟨p, k, b, basis, green.splittingFor r⟩ r
  rw [answer_evaluate, answer_evaluate]
  refine bind_congr fun p => ?_
  dsimp only
  rw [rows]
  refine bind_congr fun b => ?_
  by_cases wave : (k == zeroC) = true
  · rw [if_pos wave, if_pos wave]
    rfl
  · rw [if_neg wave, if_neg wave, turned, vectors, ok_bind, ok_bind,
      Lattice.reciprocal_turned vectors turns turned, bind_map_left]
    exact bind_congr fun r => sums p b r

/-- Reversing rows of a basis and exchanging them changes no result: a lattice can be made of the
turned rows, its reciprocal lattice differs in the dual rows only, and evaluations on both lattices
answer the same, with all parts of the result. Arguments that are accepted have a result. -/
theorem evaluate_turned (green : PeriodicGreen ℝ) (first : 0 ≤ green.convergence.firstRound)
    {basis : Basis ℝ} (vectors : green.lattice.vectors = .ok basis) (turns : List Turn) :
    (∃ lattice, Lattice.ofBasis (basis.turned turns).rows = .ok lattice ∧
      lattice.vectors = .ok (basis.turned turns)) ∧
    ∀ lattice : Lattice ℝ, lattice.vectors = .ok (basis.turned turns) →
      (∀ (k : ℂ) (point : Vec3 ℝ), lattice.reciprocal k point =
        Reciprocal.turned basis.dimension turns <$> green.lattice.reciprocal k point) ∧
      ∀ (point : RealArray ℝ) (k : ℂ) (bloch : RealArray ℝ),
        (({ green with lattice } : PeriodicGreen ℝ).evaluate point k bloch).answer =
          (green.evaluate point k bloch).answer ∧
        ∀ reading, green.Accepts point k bloch reading → ∃ result events later,
          green.evaluate point k bloch = done result events ∧
          ({ green with lattice } : PeriodicGreen ℝ).evaluate point k bloch =
            done result later := by
  refine ⟨Lattice.exists_ofBasis _, fun lattice turned => ⟨?_, fun point k bloch => ?_⟩⟩
  · exact Lattice.reciprocal_turned vectors turns turned
  · have same := green.answer_evaluate_turned first vectors turns turned point k bloch
    refine ⟨same, fun reading accepted => ?_⟩
    obtain ⟨result, _, _, events, ran, _⟩ := evaluate_course accepted
    obtain ⟨later, ran'⟩ := answer_eq_ok_iff.mp (same.trans (answer_eq_ok_iff.mpr ⟨events, ran⟩))
    exact ⟨result, events, later, ran, ran'⟩

end PeriodicGreen

/-- The sum over an oblique lattice, without the innermost cells, for the splitting parameter that
suits it. -/
noncomputable def obliqueGreen : PeriodicGreen ℝ where
  lattice := ⟨.oblique, ⟨2, 2, [], [1, 0, 0.5, 1], rfl⟩⟩
  splitting := PeriodicGreen.automatic
  excludeInner := true
  convergence := fiveShells

/-- Both rows, reversed and in the other order, turn the other way around. -/
theorem PeriodicGreen.evaluate_turned_left_handed :
    let rows : Basis ℝ := .plane (-⟨0.5, 1⟩) (-⟨1, 0⟩)
    (Basis.plane ⟨1, 0⟩ ⟨0.5, 1⟩).turned [.exchange, .reverseFirst, .reverseSecond] = rows ∧
      ∃ lattice, Lattice.ofBasis rows.rows = .ok lattice ∧
        ∃ result : Evaluation ℝ ℂ, ∃ events later,
          obliqueGreen.evaluate (.ofList [0.1, 0.2, 0.3]) (1 : ℂ) (.ofList [1, 0]) =
            done result events ∧
          ({ obliqueGreen with lattice } : PeriodicGreen ℝ).evaluate (.ofList [0.1, 0.2, 0.3])
            (1 : ℂ) (.ofList [1, 0]) = done result later := by
  intro rows
  have vectors : obliqueGreen.lattice.vectors = .ok (.plane ⟨1, 0⟩ ⟨0.5, 1⟩) := rfl
  have spans : (Basis.plane ⟨1, 0⟩ ⟨0.5, 1⟩).Spans := by norm_num [Basis.Spans, Vec2.cross]
  have place : readPoint (.ofList [0.1, 0.2, 0.3]) =
    .ok (⟨0.1, 0.2, 0.3⟩ : Vec3 ℝ) := rfl
  have phase : readBloch obliqueGreen.lattice.dimension (.ofList [1, 0]) =
    .ok (⟨1, 0⟩ : Vec2 ℝ) := rfl
  obtain ⟨reciprocal, -, accepted⟩ := exists_accepts vectors spans place phase (k := 1) one_ne_zero
    obliqueGreen.splitting (c := fiveShells) (by decide)
  obtain ⟨⟨lattice, made, turned⟩, same⟩ :=
    evaluate_turned obliqueGreen (by decide) vectors [.exchange, .reverseFirst, .reverseSecond]
  obtain ⟨-, alike⟩ := same lattice turned
  obtain ⟨-, ends⟩ := alike (.ofList [0.1, 0.2, 0.3]) 1 (.ofList [1, 0])
  exact ⟨rfl, lattice, made, ends _ (accepted true)⟩

end LatticeGreen

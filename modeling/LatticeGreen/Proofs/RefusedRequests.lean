import LatticeGreen.Message
import LatticeGreen.Proofs.Answers
import LatticeGreen.Proofs.CheckedBases

/-!
# Requests that are refused

A request for the Green's function on a lattice is checked in several places: the basis when the
lattice is made, the splitting parameter, then the point and the Bloch vector, and the cell only
when there is something to be summed. Each check has a list of faults, and it fails for the first of
them; checks in a row have the joined list. Once all have passed, no sum refuses the configuration
any more. So the one list of faults tells which requests are refused, and for what.
-/
namespace LatticeGreen

/-! ## Faults -/

/-- Something that may be wrong with a request, and the cause that it is refused for. -/
structure Fault (R : Type) where
  present : Bool
  cause : ConfigurationError R

namespace Fault
variable {R α β : Type}

/-- The cause of the first fault that is present. -/
def first (faults : List (Fault R)) : Option (ConfigurationError R) :=
  (faults.find? (·.present)).map (·.cause)

@[simp] theorem first_nil : first ([] : List (Fault R)) = none := rfl

theorem first_cons_of_present {fault : Fault R} (present : fault.present = true)
    (rest : List (Fault R)) : first (fault :: rest) = some fault.cause := by
  unfold first
  rw [List.find?_cons_of_pos present]
  rfl

theorem first_cons_of_absent {fault : Fault R} (absent : fault.present = false)
    (rest : List (Fault R)) : first (fault :: rest) = first rest := by
  unfold first
  rw [List.find?_cons_of_neg (Bool.eq_false_iff.mp absent)]

theorem first_append (faults later : List (Fault R)) :
    first (faults ++ later) = (first faults).or (first later) := by
  unfold first
  rw [List.find?_append, Option.map_or]

/-- The step refuses the configuration for the first fault, if any is present. -/
def Refuses (x : Except (Failure R) α) (faults : List (Fault R)) : Prop :=
  ∀ cause, x = .error (.configuration cause) ↔ first faults = some cause

theorem first_eq_none_iff {faults : List (Fault R)} :
    first faults = none ↔ ∀ fault ∈ faults, fault.present = false := by
  unfold first
  rw [Option.map_eq_none_iff, List.find?_eq_none]
  simp

theorem Refuses.exists_iff {x : Except (Failure R) α} {faults : List (Fault R)}
    (refuses : Refuses x faults) :
    (∃ cause, x = .error (.configuration cause)) ↔ ∃ fault ∈ faults, fault.present = true := by
  have some_iff : (∃ cause, first faults = some cause) ↔ ¬ first faults = none := by
    rw [← ne_eq, Option.ne_none_iff_exists']
  rw [exists_congr refuses, some_iff, first_eq_none_iff]
  simp

/-- The text of the failure is that of the first fault. -/
theorem Refuses.message_eq {x : Except (Failure R) α} {faults : List (Fault R)}
    (refuses : Refuses x faults) (cause : ConfigurationError R) (failure : Failure R)
    (write : R → String) (found : first faults = some cause) (failed : x = .error failure) :
    failure.message? write = some (cause.message write) := by
  obtain rfl := Except.error.inj (failed.symm.trans ((refuses cause).mpr found))
  rfl

/-- The step fails for the first fault, if any is present, and for nothing else. -/
inductive Checks : Except (Failure R) α → List (Fault R) → Prop
  | refused {faults : List (Fault R)} {cause : ConfigurationError R}
      (found : first faults = some cause) : Checks (.error (.configuration cause)) faults
  | passed {faults : List (Fault R)} (a : α) (none : first faults = none) : Checks (.ok a) faults

theorem Checks.refuses {x : Except (Failure R) α} {faults : List (Fault R)}
    (checks : Checks x faults) : Refuses x faults := by
  intro cause
  cases checks with
  | refused found => simp [found]
  | passed a none => simp [none]

theorem Checks.exists_ok {x : Except (Failure R) α} {faults : List (Fault R)}
    (checks : Checks x faults) (none : first faults = none) : ∃ a, x = .ok a := by
  cases checks with
  | refused found => cases none.symm.trans found
  | passed a _ => exact ⟨a, rfl⟩

/-- Checks in a row have their faults in a row. -/
theorem Checks.bind {x : Except (Failure R) α} {f : α → Except (Failure R) β}
    {faults later : List (Fault R)} (checks : Checks x faults)
    (next : ∀ a, x = .ok a → Checks (f a) later) : Checks (x >>= f) (faults ++ later) := by
  cases checks with
  | refused found => exact .refused (by rw [first_append, found, Option.some_or])
  | passed a none =>
    have same : first (faults ++ later) = first later := by
      rw [first_append, none, Option.none_or]
    have next := next a rfl
    change Checks (f a) _
    generalize f a = answer at next ⊢
    cases next with
    | refused found => exact .refused (same.trans found)
    | passed b none => exact .passed b (same.trans none)

/-- A step that may fail otherwise can follow a check. -/
theorem Checks.bind_refuses {x : Except (Failure R) α} {f : α → Except (Failure R) β}
    {faults later : List (Fault R)} (checks : Checks x faults)
    (next : ∀ a, x = .ok a → Refuses (f a) later) : Refuses (x >>= f) (faults ++ later) := by
  intro cause
  rw [first_append]
  cases checks with
  | refused found =>
    rw [found, Option.some_or, Option.some_inj]
    change Except.error _ = Except.error _ ↔ _
    rw [Except.error.injEq, Failure.configuration.injEq]
  | passed a none =>
    rw [none, Option.none_or]
    exact next a rfl cause

/-- A step that refuses no configuration, with more such steps after it. -/
theorem Refuses.bind_nil {x : Except (Failure R) α} {f : α → Except (Failure R) β}
    (first : Refuses x []) (later : ∀ a, Refuses (f a) []) : Refuses (x >>= f) [] := by
  intro cause
  cases x with
  | error failure =>
    rw [← first cause]
    change Except.error failure = Except.error _ ↔ _
    rw [Except.error.injEq, Except.error.injEq]
  | ok a => exact later a cause

theorem Refuses.map {x : Except (Failure R) α} {faults : List (Fault R)}
    (refuses : Refuses x faults) (f : α → β) : Refuses (f <$> x) faults := by
  intro cause
  rw [← refuses cause]
  cases x with
  | error failure =>
    change (Except.error failure : Except (Failure R) β) = .error (.configuration cause) ↔ _
    rw [Except.error.injEq, Except.error.injEq]
  | ok a => exact ⟨nofun, nofun⟩

end Fault

/-! ## Cells of two axes -/

namespace Grid
variable {R : Type} [OfScientific R]

/-- The first number at a row and column; zero where there is none. -/
def entry (g : Grid R) (i j : Nat) : R := (g.cell i j).headD 0.0

/-- The first two numbers of a row. -/
def vector (g : Grid R) (i : Nat) : Vec2 R := ⟨g.entry i 0, g.entry i 1⟩

theorem cell_of_plain {g : Grid R} (plain : g.inner = []) {i j : Nat} (inside : i < g.rows)
    (within : j < g.columns) : g.cell i j = [g.entry i j] := by
  have depth : g.depth = 1 := by
    unfold depth
    rw [plain]
    rfl
  have length : (g.cell i j).length = 1 := by
    unfold cell
    rw [depth, List.length_take, List.length_drop, length_row g inside, depth]
    omega
  obtain ⟨x, single⟩ := List.length_eq_one_iff.mp length
  unfold entry
  rw [single]
  rfl

theorem leavesPlane_of_plain [BEq R] {g : Grid R} (plain : g.inner = []) {rows : Nat}
    (inside : rows ≤ g.rows) (three : g.columns = 3) :
    g.leavesPlane rows = decide (∃ i < rows, (g.entry i 2 == 0.0) = false) := by
  have third : ∀ i < rows, g.cell i 2 = [g.entry i 2] := fun i early =>
    cell_of_plain plain (Nat.lt_of_lt_of_le early inside) (by omega)
  unfold leavesPlane
  rw [Bool.eq_iff_iff, List.any_eq_true, decide_eq_true_iff]
  refine exists_congr fun i => ?_
  rw [List.mem_range]
  refine and_congr_right fun early => ?_
  rw [third i early]
  simp

end Grid

/-- A lattice of plain rows has them for its vectors. -/
theorem Lattice.vectors_of_plain {R : Type} [Add R] [Sub R] [Mul R] [OfScientific R] [BEq R]
    {symmetry : Symmetry} {kept : Grid R} (plain : kept.inner = []) (columns : kept.columns = 2)
    (known : kept.rows = 1 ∨ kept.rows = 2) :
    (⟨symmetry, kept⟩ : Lattice R).vectors = .ok
      (if kept.rows = 1 then .line (kept.vector 0)
        else .plane (kept.vector 0) (kept.vector 1)) := by
  obtain ⟨rows, width, inner, entries, size⟩ := kept
  subst plain columns
  rcases known with one | two
  · obtain rfl : rows = 1 := one
    obtain ⟨x, y, rfl⟩ := List.length_eq_two.mp size
    rfl
  · obtain rfl : rows = 2 := two
    match entries, size with
    | [x1, y1, x2, y2], _ => rfl

/-! ## Requests -/

/-- A request for the values on the lattice spanned by the first rows of a basis. -/
structure Request (R C : Type) where
  basis : RealArray R
  dimension : Option Int
  splitting : R
  point : RealArray R
  wavenumber : C
  bloch : RealArray R

namespace Request
variable {R C : Type}

/-- The number of directions in which sources are repeated. -/
def directions (request : Request R C) : Int := request.basis.directions request.dimension

section
variable [Add R] [Sub R] [Mul R] [Neg R] [OfScientific R] [BEq R] [LT R] [DecidableLT R]
variable [BEq C] [ComplexFunctions R C]

/-- What may be wrong with the basis. -/
def basisFaults (request : Request R C) : List (Fault R) :=
  let g := request.basis.atLeast2d
  let d := request.directions
  [⟨¬ (d = 1 ∨ d = 2), .unsupportedDimension (.integer d)⟩,
    ⟨(g.rows : Int) < d ∨ ¬ (g.columns = 2 ∨ g.columns = 3), .basisShape (.integer d) g.shape⟩,
    ⟨g.columns = 3 ∧ ∃ i < d.toNat, (g.entry i 2 == 0.0) = false, .outOfPlane⟩]

/-- What may be wrong with the splitting parameter. -/
def splittingFaults (request : Request R C) : List (Fault R) :=
  [⟨request.splitting < 0.0 ∧ (request.splitting == -1.0) = false,
    .negativeSplitting request.splitting⟩]

/-- What may be wrong with the point. -/
def pointFaults (request : Request R C) : List (Fault R) :=
  let entries := request.point.entries.length
  [⟨entries ≠ 3, .pointShape [entries]⟩]

/-- What may be wrong with the Bloch vector. -/
def blochFaults (request : Request R C) : List (Fault R) :=
  let entries := request.bloch.entries.length
  [⟨¬ (entries = 2 ∨ entries = 1 ∧ request.directions = 1), .blochShape [entries]⟩]

/-- What may be wrong with the cell, if there is something to be summed. -/
def cellFaults (request : Request R C) : List (Fault R) :=
  let a1 := request.basis.atLeast2d.vector 0
  let a2 := request.basis.atLeast2d.vector 1
  if request.wavenumber == zeroC then []
  else if request.directions = 1 then
    [⟨a1.dot a1 == 0.0, .emptyCell⟩, ⟨!(a1.y == 0.0), .notAlongX⟩]
  else [⟨a1.cross a2 == 0.0, .emptyCell⟩]

/-- What may be wrong with a request before anything is summed, in the order in which it is found
out. -/
def earlyFaults (request : Request R C) : List (Fault R) :=
  request.basisFaults ++ request.splittingFaults ++ request.pointFaults ++ request.blochFaults

/-- All that may be wrong with a request. -/
def faults (request : Request R C) : List (Fault R) := request.earlyFaults ++ request.cellFaults

end

variable [Add R] [Sub R] [Mul R] [Div R] [Neg R] [OfScientific R] [IntCast R] [NatCast R]
variable [Pow R Nat] [BEq R] [LT R] [DecidableLT R] [LE R] [DecidableLE R] [RealFunctions R]
variable [Add C] [Sub C] [Mul C] [Div C] [Neg C] [BEq C] [ComplexFunctions R C]
variable [SpecialFunctions C]

/-- The Green's function that a request is made to. -/
def green (request : Request R C) (excludeInner : Bool) (c : Convergence R) :
    Except (Failure R) (PeriodicGreen R) := do
  let rows ← validateBasis request.basis (request.dimension.map .integer)
  let lattice ← Lattice.ofBasis rows.toArray
  PeriodicGreen.create lattice request.splitting excludeInner c

/-- The values that a request asks for. -/
def values (request : Request R C) (excludeInner : Bool) (c : Convergence R) :
    Attempt R (Slots C) :=
  PeriodicGreen.onBasis request.basis (request.dimension.map .integer) request.splitting
    excludeInner c {} request.point request.wavenumber request.bloch

end Request

/-! ## Single checks -/

section
variable {R C : Type} [OfScientific R] [BEq R] [LT R] [DecidableLT R]
open Fault

theorem checks_validateBasis [NatCast R] (request : Request R C)
    (flat : request.basis.shape.length ≤ 2) :
    Checks (validateBasis request.basis (request.dimension.map .integer)) request.basisFaults := by
  have plain := request.basis.inner_atLeast2d_eq_nil_iff.mpr flat
  have verdict : BasisVerdict request.basis.atLeast2d request.directions _ :=
    verdict_validateBasis request.basis request.dimension
  have leaves : request.basis.atLeast2d.columns = 3 →
      request.directions ≤ request.basis.atLeast2d.rows →
      request.basis.atLeast2d.leavesPlane request.directions.toNat =
        decide (∃ i < request.directions.toNat,
          (request.basis.atLeast2d.entry i 2 == 0.0) = false) :=
    fun three inside => Grid.leavesPlane_of_plain plain (by omega) three
  generalize validateBasis request.basis (request.dimension.map .integer) = answer at verdict ⊢
  unfold Request.basisFaults
  cases verdict with
  | unsupported strange => exact .refused (first_cons_of_present (decide_eq_true strange) _)
  | misshapen known shape =>
    refine .refused ?_
    rw [first_cons_of_absent (decide_eq_false (not_not_intro known)),
      first_cons_of_present (decide_eq_true shape)]
  | outOfPlane known rows three leaving =>
    rw [leaves three rows, decide_eq_true_iff] at leaving
    refine .refused ?_
    rw [first_cons_of_absent (decide_eq_false (not_not_intro known)),
      first_cons_of_absent (decide_eq_false (by omega)),
      first_cons_of_present (decide_eq_true ⟨three, leaving⟩)]
  | accepted known rows inside columns level =>
    refine .passed _ ?_
    have flatly : ¬ (request.basis.atLeast2d.columns = 3 ∧ ∃ i < request.directions.toNat,
        (request.basis.atLeast2d.entry i 2 == 0.0) = false) := by
      rintro ⟨three, leaving⟩
      have level := level three
      rw [leaves three (by omega), decide_eq_false_iff_not] at level
      exact level leaving
    rw [first_cons_of_absent (decide_eq_false (not_not_intro known)),
      first_cons_of_absent (decide_eq_false (by omega)),
      first_cons_of_absent (decide_eq_false flatly), first_nil]

theorem PeriodicGreen.eq_of_create [Neg R] {lattice : Lattice R} {splitting : R}
    {excludeInner : Bool} {c : Convergence R} {green : PeriodicGreen R}
    (made : create lattice splitting excludeInner c = .ok green) :
    green = ⟨lattice, splitting, excludeInner, c, {}⟩ := by
  unfold create at made
  split at made
  · cases made
  · exact (Except.ok.inj made).symm

theorem checks_create [Neg R] (lattice : Lattice R) (splitting : R) (excludeInner : Bool)
    (c : Convergence R) :
    Checks (PeriodicGreen.create lattice splitting excludeInner c)
      [⟨splitting < 0.0 ∧ (splitting == -1.0) = false, .negativeSplitting splitting⟩] := by
  have same : (decide (splitting < 0.0) && !(splitting == PeriodicGreen.automatic)) =
      decide (splitting < 0.0 ∧ (splitting == -1.0) = false) := by
    unfold PeriodicGreen.automatic
    rw [Bool.eq_iff_iff]
    simp
  unfold PeriodicGreen.create
  rw [same]
  split
  · rename_i present
    exact .refused (first_cons_of_present present _)
  · rename_i absent
    exact .passed _ (first_cons_of_absent (Bool.eq_false_iff.mpr absent) _)

end

section
variable {R : Type}
open Fault

theorem checks_readPoint (point : RealArray R) :
    Checks (PeriodicGreen.readPoint point)
      [⟨point.entries.length ≠ 3, .pointShape [point.entries.length]⟩] := by
  unfold PeriodicGreen.readPoint
  match point.entries with
  | [x, y, z] => exact .passed _ rfl
  | [] | [_] | [_, _] => exact .refused rfl
  | first :: second :: third :: fourth :: rest =>
    have long : (first :: second :: third :: fourth :: rest).length ≠ 3 := by simp
    exact .refused (by rw [first_cons_of_present (decide_eq_true long)])

theorem checks_readBloch [OfScientific R] (dimension : Nat) (bloch : RealArray R) :
    Checks (PeriodicGreen.readBloch dimension bloch)
      [⟨¬ (bloch.entries.length = 2 ∨ bloch.entries.length = 1 ∧ dimension = 1),
        .blochShape [bloch.entries.length]⟩] := by
  unfold PeriodicGreen.readBloch
  match bloch.entries with
  | [] => exact .refused rfl
  | [x] =>
    by_cases one : dimension = 1
    · subst one
      exact .passed _ rfl
    · have short : ¬ ([x].length = 2 ∨ [x].length = 1 ∧ dimension = 1) := by simp [one]
      dsimp only
      rw [if_neg one]
      exact .refused (by rw [first_cons_of_present (decide_eq_true short)]; rfl)
  | [x, y] => exact .passed _ rfl
  | x :: y :: z :: rest =>
    have long : ¬ ((x :: y :: z :: rest).length = 2 ∨
        (x :: y :: z :: rest).length = 1 ∧ dimension = 1) := by simp
    exact .refused (by rw [first_cons_of_present (decide_eq_true long)])

end

section
variable {R C : Type} [Add R] [Sub R] [Mul R] [Div R] [OfScientific R] [BEq R] [LT R]
variable [DecidableLT R] [RealFunctions R] [ComplexFunctions R C]
open Fault

theorem checks_ofLine (a : Vec2 R) (k : C) (point : Vec3 R) :
    Checks ((Reciprocal.ofLine a k point).mapError .configuration)
      [⟨a.dot a == 0.0, .emptyCell⟩, ⟨!(a.y == 0.0), .notAlongX⟩] := by
  unfold Reciprocal.ofLine
  dsimp only
  split
  · rename_i empty
    exact .refused (first_cons_of_present empty _)
  · rename_i long
    have long := Bool.eq_false_iff.mpr long
    split
    · rename_i across
      exact .refused (by rw [first_cons_of_absent long, first_cons_of_present across])
    · rename_i along
      refine .passed _ ?_
      rw [first_cons_of_absent long, first_cons_of_absent (Bool.eq_false_iff.mpr along), first_nil]

theorem checks_ofPlane [Neg R] (a1 a2 : Vec2 R) (k : C) :
    Checks ((Reciprocal.ofPlane a1 a2 k).mapError .configuration)
      [⟨a1.cross a2 == 0.0, .emptyCell⟩] := by
  unfold Reciprocal.ofPlane
  dsimp only
  split
  · rename_i empty
    exact .refused (first_cons_of_present empty _)
  · rename_i wide
    exact .passed _ (first_cons_of_absent (Bool.eq_false_iff.mpr wide) _)

end

/-! ## The sums refuse nothing -/

namespace PeriodicGreen
open Attempt Fault

variable {R C : Type} [Add R] [Sub R] [Mul R] [Div R] [Neg R] [OfScientific R] [IntCast R]
variable [NatCast R] [Pow R Nat] [BEq R] [LT R] [DecidableLT R] [LE R] [DecidableLE R]
variable [RealFunctions R]
variable [Add C] [Sub C] [Mul C] [Div C] [Neg C] [BEq C] [ComplexFunctions R C]
variable [SpecialFunctions C]

/-- The sums fail for a missing first block or a division by zero at most. -/
theorem within_sums_or_emptyBlock (green : PeriodicGreen R) (readable : green.obstacles = {})
    (basis : Basis R) (point : Vec3 R) (k : C) (bloch : Vec2 R) (eta : R)
    (reciprocal : Reciprocal R) :
    Within (fun cause => cause = .emptyBlock ∨ cause = .divisionByZero)
      (green.sums basis point k bloch eta reciprocal) := by
  by_cases begins : green.excludeInner = true → 0 ≤ green.convergence.firstRound
  · exact (green.within_sums readable begins ..).weaken fun cause divided => .inr divided.1
  · obtain ⟨excluded, early⟩ := Classical.not_imp.mp begins
    have empty : (green.excludeInner && decide (green.convergence.firstRound < 0)) = true := by
      rw [excluded, Bool.true_and, decide_eq_true_iff]
      exact Int.not_le.mp early
    rw [sums_eq, readable]
    unfold Nearby.construct accumulate
    simp only [empty, if_true]
    exact within_fail (.inl rfl)

theorem refuses_trial (green : PeriodicGreen R) (readable : green.obstacles = {})
    (near : Nearby R C) (r : Reciprocal R) (retried : Bool) :
    Refuses (green.trial near r retried) [] := by
  have summed : Refuses (green.sums near.basis near.point near.wavenumber near.bloch near.splitting
      r).answer [] := by
    intro cause
    refine ⟨fun failure => ?_, fun missing => nomatch missing⟩
    rcases (green.within_sums_or_emptyBlock readable ..).fails _ failure with early | divided
    · cases early
    · cases divided
  exact summed.bind_nil fun halves => (Checks.passed _ rfl).refuses

theorem refuses_tries (green : PeriodicGreen R) (readable : green.obstacles = {})
    (near : Nearby R C) (r : Reciprocal R) : Refuses (green.tries near r) [] := by
  refine (green.refuses_trial readable near r false).bind_nil fun first => ?_
  split
  · exact green.refuses_trial readable _ r true
  · exact (Checks.passed _ rfl).refuses

end PeriodicGreen

/-! ## All checks in a row -/

theorem Attempt.ofExcept_bind {R α β : Type} (x : Except (Failure R) α)
    (f : α → Except (Failure R) β) :
    ofExcept (x >>= f) = ofExcept x >>= fun a => ofExcept (f a) := by
  cases x with
  | error cause => rfl
  | ok a => rfl

namespace Request
open Attempt Fault

section
variable {R C : Type} [Add R] [Sub R] [Mul R] [OfScientific R] [BEq R]

/-- The vectors that the first rows of a basis are. -/
def spanned (request : Request R C) : Basis R :=
  if request.directions = 1 then .line (request.basis.atLeast2d.vector 0)
  else .plane (request.basis.atLeast2d.vector 0) (request.basis.atLeast2d.vector 1)

/-- The Green's function of a request has the vectors that were asked for. -/
structure Opened (request : Request R C) (green : PeriodicGreen R) : Prop where
  dimension : (green.lattice.dimension : Int) = request.directions
  vectors : green.lattice.vectors = .ok request.spanned
  readable : green.obstacles = {}

variable {request : Request R C}

theorem checks_bloch {green : PeriodicGreen R} (opened : request.Opened green) :
    Checks (PeriodicGreen.readBloch green.lattice.dimension request.bloch) request.blochFaults := by
  have line : green.lattice.dimension = 1 ↔ request.directions = 1 := by
    rw [← opened.dimension]
    omega
  have checks := checks_readBloch green.lattice.dimension request.bloch
  simp only [line] at checks
  exact checks

end

section
variable {R C : Type} [Mul R] [Div R] [Neg R] [OfScientific R] [NatCast R] [BEq R] [LT R]
variable [DecidableLT R] [RealFunctions R]
variable {request : Request R C} {excludeInner : Bool} {c : Convergence R}

theorem checks_green (flat : request.basis.shape.length ≤ 2) :
    Checks (request.green excludeInner c) (request.basisFaults ++ request.splittingFaults) := by
  refine (checks_validateBasis request flat).bind fun rows validated => ?_
  rw [(readOff_of_validateBasis validated).1.ofBasis]
  exact checks_create _ _ _ _

theorem opened_of_green [Add R] [Sub R] (flat : request.basis.shape.length ≤ 2)
    {green : PeriodicGreen R} (made : request.green excludeInner c = .ok green) :
    request.Opened green := by
  obtain ⟨rows, validated, made⟩ := exists_of_bind_eq_ok made
  obtain ⟨lattice, formed, made⟩ := exists_of_bind_eq_ok made
  obtain ⟨reads, nested⟩ := readOff_of_validateBasis validated
  obtain rfl : ⟨.oblique, rows⟩ = lattice := Except.ok.inj (reads.ofBasis.symm.trans formed)
  obtain rfl := PeriodicGreen.eq_of_create made
  have plain : rows.inner = [] :=
    nested.trans (request.basis.inner_atLeast2d_eq_nil_iff.mpr flat)
  have directions : (rows.rows : Int) = request.directions := reads.directions
  have vector : ∀ i < rows.rows, rows.vector i = request.basis.atLeast2d.vector i := by
    intro i inside
    unfold Grid.vector Grid.entry
    rw [reads.cells i inside 0 (by omega), reads.cells i inside 1 (by omega)]
  refine ⟨directions, ?_, rfl⟩
  rw [Lattice.vectors_of_plain plain reads.columns reads.known]
  unfold spanned
  rcases reads.known with one | two
  · rw [if_pos one, if_pos (by omega), vector 0 (by omega)]
  · rw [if_neg (by omega), if_neg (by omega), vector 0 (by omega), vector 1 (by omega)]

end

section
variable {R C : Type} [Add R] [Sub R] [Mul R] [Div R] [Neg R] [OfScientific R] [BEq R] [LT R]
variable [DecidableLT R] [RealFunctions R] [BEq C] [ComplexFunctions R C] {request : Request R C}

theorem checks_reciprocal (summed : ¬ (request.wavenumber == zeroC) = true) (point : Vec3 R) :
    Checks ((Reciprocal.construct request.spanned request.wavenumber point).mapError .configuration)
      request.cellFaults := by
  unfold spanned cellFaults
  dsimp only
  rw [if_neg summed]
  split
  · exact checks_ofLine _ _ _
  · exact checks_ofPlane _ _ _

end

variable {R C : Type} [Add R] [Sub R] [Mul R] [Div R] [Neg R] [OfScientific R] [IntCast R]
variable [NatCast R] [Pow R Nat] [BEq R] [LT R] [DecidableLT R] [LE R] [DecidableLE R]
variable [RealFunctions R]
variable [Add C] [Sub C] [Mul C] [Div C] [Neg C] [BEq C] [ComplexFunctions R C]
variable [SpecialFunctions C]
variable {request : Request R C} {green : PeriodicGreen R}

theorem refuses_evaluate (opened : request.Opened green) :
    Refuses (green.evaluate request.point request.wavenumber request.bloch).answer
      (request.pointFaults ++ (request.blochFaults ++ request.cellFaults)) := by
  rw [PeriodicGreen.answer_evaluate]
  refine (checks_readPoint request.point).bind_refuses fun p _ => ?_
  refine (checks_bloch opened).bind_refuses fun b _ => ?_
  split
  · rename_i wave
    have unsummed : request.cellFaults = [] := by
      unfold cellFaults
      rw [if_pos wave]
    rw [unsummed]
    exact (Checks.passed _ rfl).refuses
  · rename_i wave
    rw [opened.vectors]
    change Refuses (green.lattice.reciprocal request.wavenumber p >>= fun r => _) _
    rw [Lattice.reciprocal_eq opened.vectors, ← List.append_nil request.cellFaults]
    exact (checks_reciprocal wave p).bind_refuses fun r _ =>
      green.refuses_tries opened.readable _ r

theorem values_eq (request : Request R C) (excludeInner : Bool) (c : Convergence R) :
    request.values excludeInner c = (do
      let green ← Attempt.ofExcept (request.green excludeInner c)
      return (← green.evaluate request.point request.wavenumber request.bloch).values) := by
  unfold values PeriodicGreen.onBasis Request.green
  simp only [ofExcept_bind, bind_assoc]

theorem refuses_values (flat : request.basis.shape.length ≤ 2) (excludeInner : Bool)
    (c : Convergence R) : Refuses (request.values excludeInner c).answer request.faults := by
  have assembled : request.faults = (request.basisFaults ++ request.splittingFaults) ++
      (request.pointFaults ++ (request.blochFaults ++ request.cellFaults)) := by
    simp only [faults, earlyFaults, List.append_assoc]
  rw [values_eq, answer_bind, assembled]
  refine (checks_green flat).bind_refuses fun green made => ?_
  rw [answer_bind]
  exact (refuses_evaluate (opened_of_green flat made)).map _

/-- For the wavenumber zero a request that has no early fault is answered at once: with zeros, no
sums and no events. -/
theorem waveless_values (flat : request.basis.shape.length ≤ 2) (excludeInner : Bool)
    (c : Convergence R) (wave : (request.wavenumber == zeroC) = true)
    (faultless : first request.earlyFaults = none) :
    request.values excludeInner c = done Slots.zero [] ∧
      ∃ green bloch, request.green excludeInner c = .ok green ∧
        (green.evaluateIn request.point request.wavenumber 0).run ⟨[request.bloch], []⟩ =
          done (green.zeroEvaluation bloch, ⟨[request.bloch, bloch.toArray], []⟩) [] := by
  have held : [request.bloch][0]? = some request.bloch := rfl
  obtain ⟨⟨opening, points⟩, phases⟩ :
      (first (request.basisFaults ++ request.splittingFaults) = none ∧
        first request.pointFaults = none) ∧ first request.blochFaults = none := by
    simpa only [earlyFaults, first_append, Option.or_eq_none_iff, and_assoc] using faultless
  obtain ⟨green, made⟩ := (checks_green flat).exists_ok opening
  obtain ⟨p, place⟩ := (checks_readPoint request.point).exists_ok points
  obtain ⟨b, phase⟩ := (checks_bloch (opened_of_green flat made)).exists_ok phases
  have ran : (green.evaluateIn request.point request.wavenumber 0).run ⟨[request.bloch], []⟩ =
      done (green.zeroEvaluation b, ⟨[request.bloch, b.toArray], []⟩) [] := by
    have copied : [request.bloch, b.toArray][1]? = some b.toArray := rfl
    unfold PeriodicGreen.evaluateIn
    simp only [StateT.run_bind, ofExcept_ok, liftM_pure, StateT.run_pure, pure_bind, place, phase,
      wave, Workspace.run_read (w := ⟨[request.bloch], []⟩) held, Workspace.run_keep, if_true]
    rw [List.singleton_append, List.length_singleton,
      Workspace.run_readVector (w := ⟨[request.bloch, b.toArray], []⟩) copied]
    rfl
  refine ⟨?_, green, b, made, ran⟩
  rw [values_eq, made, ofExcept_ok, pure_bind]
  unfold PeriodicGreen.evaluate
  rw [ran, map_done, done_bind, pure_eq_done, after_done]
  rfl

/-- Rows that are not asked for make no difference, except for the shape that is reported where the
columns are too few or too many. -/
theorem values_of_same_rows {d : Int} (asked : request.dimension = some d) (excludeInner : Bool)
    (c : Convergence R) {other : RealArray R}
    (columns : other.atLeast2d.columns = request.basis.atLeast2d.columns)
    (inner : other.atLeast2d.inner = request.basis.atLeast2d.inner)
    (rows : d ≤ request.basis.atLeast2d.rows) (rows' : d ≤ other.atLeast2d.rows)
    (same : ∀ i < d.toNat, other.atLeast2d.row i = request.basis.atLeast2d.row i) :
    { request with basis := other }.values excludeInner c = request.values excludeInner c ∨
      request.values excludeInner c = Attempt.fail
        (.configuration (.basisShape (.integer d) request.basis.atLeast2d.shape)) ∧
      { request with basis := other }.values excludeInner c = Attempt.fail
        (.configuration (.basisShape (.integer d) other.atLeast2d.shape)) := by
  unfold values PeriodicGreen.onBasis
  dsimp only
  rw [asked, Option.map_some]
  rcases validateBasis_of_same_rows columns inner rows rows' same with equal | ⟨refused, refused'⟩
  · rw [equal]
    exact .inl rfl
  · rw [refused, refused']
    exact .inr ⟨rfl, rfl⟩

/-- What a request comes to. A configuration is refused exactly if something is wrong with it, for
the first fault in the order in which the checks are made, and in the words of that fault. For the
wavenumber zero nothing is summed and nothing is noted, whatever the cell is. Rows that are not
asked for change nothing but the shape that is reported where the columns are too few or too
many. -/
theorem refused_for_first_fault (request : Request R C) (flat : request.basis.shape.length ≤ 2)
    (excludeInner : Bool) (c : Convergence R) :
    ((∃ cause, (request.values excludeInner c).answer = .error (.configuration cause)) ↔
        ∃ fault ∈ request.faults, fault.present = true) ∧
      (∀ cause, (request.values excludeInner c).answer = .error (.configuration cause) ↔
        first request.faults = some cause) ∧
      (∀ cause failure write, first request.faults = some cause →
        (request.values excludeInner c).answer = .error failure →
        failure.message? write = some (cause.message write)) ∧
      ((request.wavenumber == zeroC) = true → first request.earlyFaults = none →
        request.values excludeInner c = done Slots.zero [] ∧
          ∃ green bloch, request.green excludeInner c = .ok green ∧
            (green.evaluateIn request.point request.wavenumber 0).run ⟨[request.bloch], []⟩ =
              done (green.zeroEvaluation bloch, ⟨[request.bloch, bloch.toArray], []⟩) []) ∧
      ∀ d other, request.dimension = some d → other.shape.length ≤ 2 →
        other.atLeast2d.columns = request.basis.atLeast2d.columns →
        d ≤ request.basis.atLeast2d.rows → d ≤ other.atLeast2d.rows →
        (∀ i < d.toNat, other.atLeast2d.row i = request.basis.atLeast2d.row i) →
        { request with basis := other }.values excludeInner c = request.values excludeInner c ∨
          request.values excludeInner c = Attempt.fail
            (.configuration (.basisShape (.integer d) request.basis.atLeast2d.shape)) ∧
          { request with basis := other }.values excludeInner c = Attempt.fail
            (.configuration (.basisShape (.integer d) other.atLeast2d.shape)) := by
  have refuses := refuses_values flat excludeInner c
  refine ⟨refuses.exists_iff, refuses, refuses.message_eq, waveless_values flat excludeInner c, ?_⟩
  intro d other asked flat' columns rows rows' same
  have inner : other.atLeast2d.inner = request.basis.atLeast2d.inner := by
    rw [other.inner_atLeast2d_eq_nil_iff.mpr flat',
      request.basis.inner_atLeast2d_eq_nil_iff.mpr flat]
  exact values_of_same_rows asked excludeInner c columns inner rows rows' same

/-- A line whose vector is zero. The second row is not asked for. -/
def emptyLine (k : Cartesian Float) (bloch : RealArray Float) :
    Request Float (Cartesian Float) where
  basis := ⟨[2, 2], [0.0, 0.0, 1.0, 2.0], rfl⟩
  dimension := some 1
  splitting := 0.0
  point := .ofList [0.1, 0.2, 0.3]
  wavenumber := k
  bloch

/-- The cell is found empty unless the wavenumber is zero, but a Bloch vector of three entries is
found first. -/
theorem emptyLine_refused :
    let c := PeriodicGreen.lineWithoutCenter.convergence
    ((emptyLine ⟨1.0, 0.0⟩ (.ofList [0.5])).values false c).answer =
        .error (.configuration .emptyCell) ∧
      ((emptyLine ⟨1.0, 0.0⟩ (.ofList [0.5, 0.0, 0.0])).values false c).answer =
        .error (.configuration (.blochShape [3])) ∧
      (emptyLine ⟨0.0, 0.0⟩ (.ofList [0.5])).values false c = done Slots.zero [] := by
  intro c
  have waved := (emptyLine ⟨1.0, 0.0⟩ (.ofList [0.5])).refused_for_first_fault (by decide) false c
  have crowded :=
    (emptyLine ⟨1.0, 0.0⟩ (.ofList [0.5, 0.0, 0.0])).refused_for_first_fault (by decide) false c
  have waveless :=
    (emptyLine ⟨0.0, 0.0⟩ (.ofList [0.5])).refused_for_first_fault (by decide) false c
  exact ⟨(waved.2.1 _).mpr rfl, (crowded.2.1 _).mpr rfl, (waveless.2.2.2.1 rfl rfl).1⟩

end Request

end LatticeGreen

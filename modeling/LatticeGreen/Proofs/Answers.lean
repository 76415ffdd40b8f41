import LatticeGreen.Proofs.SingularRetry

/-!
# What an attempt answers

The answer of an attempt is its result or its cause of failure; the events on the way are left
aside. An evaluation answers what its first pair of sums gives, or, if the distant sum of that is
singular, what a second pair gives. Neither the store of shared arrays nor the events have a part in
it.
-/
namespace LatticeGreen

section
variable {R α β : Type}

/-- The result or the cause of failure, without the events. -/
def Attempt.answer (x : Attempt R α) : Except (Failure R) α := x.run.value

namespace Attempt

@[simp] theorem answer_pure (a : α) : (pure a : Attempt R α).answer = pure a := rfl

@[simp] theorem answer_note (event : Event R) : (note event : Attempt R Unit).answer = pure () :=
  rfl

/-- Attempts in a row answer in a row. -/
theorem answer_bind (x : Attempt R α) (f : α → Attempt R β) :
    (x >>= f).answer = x.answer >>= fun a => (f a).answer := by
  rcases x.done_or_failed with ⟨a, events, rfl⟩ | ⟨cause, events, rfl⟩
  · rfl
  · rfl

theorem answer_map (f : α → β) (x : Attempt R α) : (f <$> x).answer = f <$> x.answer := by
  rw [map_eq_pure_bind, answer_bind, map_eq_pure_bind]
  rfl

theorem answer_eq_ok_iff {x : Attempt R α} {a : α} :
    x.answer = .ok a ↔ ∃ events, x = done a events := by
  constructor
  · intro answered
    rcases x.done_or_failed with ⟨a', events, rfl⟩ | ⟨cause, events, rfl⟩
    · cases answered
      exact ⟨events, rfl⟩
    · cases answered
  · rintro ⟨events, rfl⟩
    rfl

/-- What a bind that has a result did. -/
theorem exists_of_bind_eq_ok {x : Except (Failure R) α} {f : α → Except (Failure R) β} {b : β}
    (both : (x >>= f) = .ok b) : ∃ a, x = .ok a ∧ f a = .ok b := by
  cases x with
  | ok a => exact ⟨a, rfl, both⟩
  | error cause => cases both

/-! ## Work on shared arrays -/

theorem answer_run_ofExcept (e : Except (Failure R) α) (f : α → Working R β) (w : Workspace R) :
    ((liftM (ofExcept e) >>= f : Working R β).run w).answer =
      e >>= fun a => ((f a).run w).answer := by
  cases e with
  | ok a => rfl
  | error cause => rfl

theorem answer_run_liftM (x : Attempt R α) (f : α → Working R β) (w : Workspace R) :
    ((liftM x >>= f : Working R β).run w).answer = x.answer >>= fun a => ((f a).run w).answer := by
  rw [StateT.run_bind, Workspace.run_lift, bind_assoc, answer_bind]
  simp only [pure_bind]

end Attempt

end

namespace PeriodicGreen
open Attempt

variable {R C : Type} [Add R] [Sub R] [Mul R] [Div R] [Neg R] [OfScientific R] [IntCast R]
variable [Pow R Nat] [BEq R] [LT R] [DecidableLT R] [LE R] [DecidableLE R] [RealFunctions R]
variable [Add C] [Sub C] [Mul C] [Div C] [Neg C] [ComplexFunctions R C] [SpecialFunctions C]

theorem distant_combine (green : PeriodicGreen R) (halves : Halves R C) (eta : R) (bloch : Vec2 R)
    (retried : Bool) :
    (green.combine halves eta bloch retried).value.distant = halves.distant := by
  unfold combine
  split <;> rfl

theorem retried_combine (green : PeriodicGreen R) (halves : Halves R C) (eta : R) (bloch : Vec2 R)
    (retried : Bool) : (green.combine halves eta bloch retried).value.retried = retried := by
  unfold combine
  split <;> rfl

theorem bloch_combine (green : PeriodicGreen R) (halves : Halves R C) (eta : R) (bloch : Vec2 R)
    (retried : Bool) : (green.combine halves eta bloch retried).value.bloch = bloch := by
  unfold combine
  split <;> rfl

theorem answer_run_combine (green : PeriodicGreen R) (halves : Halves R C) (eta : R)
    (retried : Bool) {w : Workspace R} {place : Nat} {bloch : Vec2 R}
    (held : w.arrays[place]? = some bloch.toArray) :
    Prod.fst <$> ((do
      let bloch ← Workspace.readVector place
      (green.combine halves eta bloch retried : Logged R (Evaluation R C)) :
        Working R (Evaluation R C)).run w).answer =
      .ok (green.combine halves eta bloch retried).value := by
  rw [run_combine halves eta retried held]
  rfl

variable [NatCast R] [BEq C]

/-- What one pair of sums gives. -/
def trial (green : PeriodicGreen R) (near : Nearby R C) (r : Reciprocal R) (retried : Bool) :
    Except (Failure R) (Evaluation R C) := do
  let halves ← (green.sums near.basis near.point near.wavenumber near.bloch near.splitting r).answer
  return (green.combine halves near.splitting near.bloch retried).value

/-- What the first pair of sums gives, or, after a singular one, the pair for a shifted Bloch
vector. -/
def tries (green : PeriodicGreen R) (near : Nearby R C) (r : Reciprocal R) :
    Except (Failure R) (Evaluation R C) := do
  let first ← green.trial near r false
  if first.distant.singular then
    green.trial { near with bloch := shiftedBloch near.wavenumber near.bloch } r true
  else return first

/-- The nearby sum that an evaluation takes first, from what it reads. -/
def nearFor (green : PeriodicGreen R) (point : Vec3 R) (k : C) (bloch : Vec2 R) (basis : Basis R)
    (r : Reciprocal R) : Nearby R C :=
  ⟨point, k, bloch, basis, green.splittingFor r⟩

theorem retried_trial {green : PeriodicGreen R} {near : Nearby R C} {r : Reciprocal R}
    {retried : Bool} {result : Evaluation R C} (tried : green.trial near r retried = .ok result) :
    result.retried = retried := by
  obtain ⟨halves, -, combined⟩ := exists_of_bind_eq_ok tried
  rw [← Except.ok.inj combined, retried_combine]

theorem bloch_trial {green : PeriodicGreen R} {near : Nearby R C} {r : Reciprocal R}
    {retried : Bool} {result : Evaluation R C} (tried : green.trial near r retried = .ok result) :
    result.bloch = near.bloch := by
  obtain ⟨halves, -, combined⟩ := exists_of_bind_eq_ok tried
  rw [← Except.ok.inj combined, bloch_combine]

/-- Sums are taken for the Bloch vector at a place, and the arrays stay as they are. -/
theorem answer_run_sumsAt {α : Type} (green : PeriodicGreen R) (basis : Basis R) (point : Vec3 R)
    (k : C) (eta : R) (r : Reciprocal R) {arrays : List (RealArray R)} {place : Nat}
    {bloch : Vec2 R} (held : arrays[place]? = some bloch.toArray) (summed : List (Vec2 R))
    (next : Halves R C → Working R α) :
    ((green.sumsAt basis point k eta r place >>= next).run ⟨arrays, summed⟩).answer =
      (green.sums basis point k bloch eta r).answer >>= fun halves =>
        ((next halves).run ⟨arrays, summed ++ [bloch]⟩).answer := by
  rw [StateT.run_bind, run_sumsAt basis point eta r (w := ⟨arrays, summed⟩) held, bind_assoc,
    answer_bind]
  simp only [pure_bind]

theorem answer_run_evaluateAt (green : PeriodicGreen R) (p : Vec3 R) (k : C)
    (arrays : List (RealArray R)) (b : Vec2 R) :
    Prod.fst <$> ((green.evaluateAt p k arrays.length).run ⟨arrays ++ [b.toArray], []⟩).answer = (do
      let basis ← green.lattice.vectors
      let r ← green.lattice.reciprocal k p
      green.tries (green.nearFor p k b basis r) r) := by
  have copied : (arrays ++ [b.toArray])[arrays.length]? = some b.toArray := by simp
  have moved : (arrays ++ [b.toArray, (shiftedBloch k b).toArray])[arrays.length + 1]? =
      some (shiftedBloch k b).toArray := by simp
  unfold evaluateAt tries trial nearFor
  rw [answer_run_ofExcept, map_bind]
  refine bind_congr fun basis => ?_
  rw [answer_run_ofExcept, map_bind]
  refine bind_congr fun r => ?_
  dsimp only
  rw [answer_run_liftM, answer_note, pure_bind, answer_run_sumsAt _ _ _ _ _ _ copied, map_bind,
    bind_assoc]
  refine bind_congr fun halves => ?_
  rw [pure_bind, distant_combine]
  split
  · rw [answer_run_liftM, answer_note, pure_bind, Workspace.run_shift,
      answer_run_sumsAt _ _ _ _ _ _ moved, map_bind]
    refine bind_congr fun again => ?_
    split
    · rw [answer_run_liftM, answer_note, pure_bind]
      exact answer_run_combine _ _ _ _ moved
    · exact answer_run_combine _ _ _ _ moved
  · exact answer_run_combine _ _ _ _ copied

/-- The answer of an evaluation, with the store left aside. -/
theorem answer_evaluate (green : PeriodicGreen R) (point : RealArray R) (k : C)
    (bloch : RealArray R) :
    (green.evaluate point k bloch).answer = (do
      let p ← readPoint point
      let b ← readBloch green.lattice.dimension bloch
      if k == zeroC then return green.zeroEvaluation b
      else
        let basis ← green.lattice.vectors
        let r ← green.lattice.reciprocal k p
        green.tries (green.nearFor p k b basis r) r) := by
  have held : [bloch][0]? = some bloch := rfl
  unfold evaluate evaluateIn
  rw [answer_map, answer_run_ofExcept, map_bind]
  refine bind_congr fun p => ?_
  rw [StateT.run_bind, Workspace.run_read (w := ⟨[bloch], []⟩) held, pure_bind,
    answer_run_ofExcept, map_bind]
  refine bind_congr fun b => ?_
  rw [StateT.run_bind, Workspace.run_keep, pure_bind]
  split
  · rfl
  · exact green.answer_run_evaluateAt p k [bloch] b

/-- An evaluation that ends without a second pair of sums: for the wavenumber zero, or with a first
pair whose distant sum is regular. -/
inductive EndsAtOnce (green : PeriodicGreen R) (point : RealArray R) (k : C) (bloch : RealArray R) :
    Evaluation R C → Prop
  | waveless (p : Vec3 R) (b : Vec2 R) (place : readPoint point = .ok p)
      (phase : readBloch green.lattice.dimension bloch = .ok b) (wave : (k == zeroC) = true) :
      EndsAtOnce green point k bloch (green.zeroEvaluation b)
  | regular (p : Vec3 R) (b : Vec2 R) (basis : Basis R) (r : Reciprocal R)
      (result : Evaluation R C) (place : readPoint point = .ok p)
      (phase : readBloch green.lattice.dimension bloch = .ok b) (wave : (k == zeroC) = false)
      (vectors : green.lattice.vectors = .ok basis)
      (reciprocal : green.lattice.reciprocal k p = .ok r)
      (tried : green.trial (green.nearFor p k b basis r) r false = .ok result)
      (unbroken : result.distant.singular = false) : EndsAtOnce green point k bloch result

theorem endsAtOnce_iff {green : PeriodicGreen R} {point : RealArray R} {k : C}
    {bloch : RealArray R} {result : Evaluation R C} :
    green.EndsAtOnce point k bloch result ↔
      (green.evaluate point k bloch).answer = .ok result ∧ result.retried = false := by
  rw [answer_evaluate]
  constructor
  · rintro (⟨p, b, place, phase, wave⟩ |
      ⟨p, b, basis, r, _, place, phase, wave, vectors, reciprocal, tried, unbroken⟩)
    · rw [place, phase, wave]
      exact ⟨rfl, rfl⟩
    · have first : green.tries (green.nearFor p k b basis r) r = .ok result := by
        unfold tries
        rw [tried]
        change (if result.distant.singular then _ else pure result) = Except.ok result
        rw [unbroken]
        rfl
      have reached : (green.lattice.reciprocal k p >>= fun r =>
          green.tries (green.nearFor p k b basis r) r) = .ok result := by
        rw [reciprocal]
        exact first
      rw [place, phase, wave, vectors]
      exact ⟨reached, retried_trial tried⟩
  · rintro ⟨answered, once⟩
    obtain ⟨p, place, answered⟩ := exists_of_bind_eq_ok answered
    obtain ⟨b, phase, answered⟩ := exists_of_bind_eq_ok answered
    split at answered
    · rename_i wave
      rw [← Except.ok.inj answered]
      exact .waveless p b place phase wave
    · rename_i wave
      obtain ⟨basis, vectors, answered⟩ := exists_of_bind_eq_ok answered
      obtain ⟨r, reciprocal, answered⟩ := exists_of_bind_eq_ok answered
      obtain ⟨first, tried, answered⟩ := exists_of_bind_eq_ok answered
      split at answered
      · rw [retried_trial answered] at once
        cases once
      · rename_i unbroken
        obtain rfl := Except.ok.inj answered
        exact .regular p b basis r first place phase (Bool.eq_false_iff.mpr wave) vectors reciprocal
          tried (Bool.eq_false_iff.mpr unbroken)

theorem endsAtOnce_of_done {green : PeriodicGreen R} {point : RealArray R} {k : C}
    {bloch : RealArray R} {result : Evaluation R C} {events : List (Event R)}
    (ran : green.evaluate point k bloch = done result events) (once : result.retried = false) :
    green.EndsAtOnce point k bloch result :=
  endsAtOnce_iff.mpr ⟨answer_eq_ok_iff.mpr ⟨events, ran⟩, once⟩

theorem EndsAtOnce.exists_done {green : PeriodicGreen R} {point : RealArray R} {k : C}
    {bloch : RealArray R} {result : Evaluation R C} (ends : green.EndsAtOnce point k bloch result) :
    ∃ events, green.evaluate point k bloch = done result events :=
  answer_eq_ok_iff.mp (endsAtOnce_iff.mp ends).1

end PeriodicGreen

end LatticeGreen

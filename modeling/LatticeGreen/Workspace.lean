import LatticeGreen.Coordinates
import LatticeGreen.Failure
import LatticeGreen.RealArray

/-!
# Arrays that are shared

A Bloch vector is handed over as an array that belongs to the caller. Whoever knows the place of an
array sees what is written to it, so an evaluation makes copies and writes to these. It also keeps
the Bloch vectors that it took lattice sums for.
-/
namespace LatticeGreen

namespace RealArray
variable {R : Type}

/-- Changes the entry at a position, counted row by row. -/
def modify (a : RealArray R) (i : Nat) (f : R → R) : RealArray R :=
  ⟨a.shape, a.entries.modify i f, by rw [List.length_modify, a.size_eq]⟩

end RealArray

/-- A vector of the plane as an array of two entries. -/
def Vec2.toArray {R : Type} (v : Vec2 R) : RealArray R := .ofList [v.x, v.y]

/-- Arrays by their place, the caller's first and then the copies made of it, and the Bloch vectors
for which lattice sums were taken. -/
structure Workspace (R : Type) where
  arrays : List (RealArray R)
  summed : List (Vec2 R)

/-- A computation on shared arrays that may fail. -/
abbrev Working (R : Type) := StateT (Workspace R) (Attempt R)

namespace Workspace
variable {R : Type}

/-- The array at a place. -/
def read (place : Nat) : Working R (RealArray R) := fun w =>
  match w.arrays[place]? with
  | some a => pure (a, w)
  | none => Attempt.fail .missingComponent

/-- The array at a place as a vector of the plane. -/
def readVector (place : Nat) : Working R (Vec2 R) := do
  match (← read place).entries with
  | [x, y] => return ⟨x, y⟩
  | _ => (Attempt.fail .missingComponent : Attempt R (Vec2 R))

/-- Puts an array in a new place. -/
def keep (a : RealArray R) : Working R Nat := fun w =>
  pure (w.arrays.length, { w with arrays := w.arrays ++ [a] })

/-- Adds to an entry of the array at a place. -/
def increase [Add R] (place i : Nat) (x : R) : Working R Unit := fun w =>
  pure ((), { w with arrays := w.arrays.modify place (·.modify i (· + x)) })

/-- Keeps that lattice sums are taken for a Bloch vector. -/
def noteSummed (bloch : Vec2 R) : Working R Unit := fun w =>
  pure ((), { w with summed := w.summed ++ [bloch] })

/-- An attempt in between leaves the arrays alone. -/
theorem run_lift {α : Type} (x : Attempt R α) (w : Workspace R) :
    (liftM x : Working R α).run w = (do let a ← x; pure (a, w)) := rfl

theorem run_read {w : Workspace R} {place : Nat} {a : RealArray R}
    (held : w.arrays[place]? = some a) : (read place).run w = pure (a, w) := by
  change (match w.arrays[place]? with
    | some a => pure (a, w)
    | none => Attempt.fail .missingComponent : Attempt R (RealArray R × Workspace R)) = _
  rw [held]

theorem run_readVector {w : Workspace R} {place : Nat} {v : Vec2 R}
    (held : w.arrays[place]? = some v.toArray) : (readVector place).run w = pure (v, w) := by
  unfold readVector
  rw [StateT.run_bind, run_read held, pure_bind]
  rfl

theorem run_keep (w : Workspace R) (a : RealArray R) :
    (keep a).run w = pure (w.arrays.length, { w with arrays := w.arrays ++ [a] }) := rfl

theorem run_increase [Add R] (w : Workspace R) (place i : Nat) (x : R) :
    (increase place i x).run w =
      pure ((), { w with arrays := w.arrays.modify place (·.modify i (· + x)) }) := rfl

theorem run_noteSummed (w : Workspace R) (bloch : Vec2 R) :
    (noteSummed bloch).run w = pure ((), { w with summed := w.summed ++ [bloch] }) := rfl

/-- What is written to a copy that was just made is written nowhere else. -/
theorem modify_copy (arrays : List (RealArray R)) (a : RealArray R)
    (f : RealArray R → RealArray R) :
    (arrays ++ [a]).modify arrays.length f = arrays ++ [f a] := by
  induction arrays with
  | nil => rfl
  | cons first arrays ih =>
    rw [List.cons_append, List.length_cons, List.modify_succ_cons, ih, List.cons_append]

end Workspace

end LatticeGreen

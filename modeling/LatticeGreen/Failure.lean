import LatticeGreen.Log
import LatticeGreen.Quantity

/-!
# Causes of failure

One constructor per cause. The wording of those that have a text of their own is formed where
reals can be printed.
-/
namespace LatticeGreen

/-- Why the sums cannot be evaluated on a lattice, at a point or with a splitting parameter. -/
inductive ConfigurationError (R : Type) where
  | unsupportedDimension (dimension : Quantity R)
  | basisShape (dimension : Quantity R) (shape : List Nat)
  | outOfPlane
  | obliqueWithoutBasis
  | linearLengths
  | rectangularLengths
  | hexagonalLengths
  | emptyCell
  | notAlongX
  | negativeSplitting (value : R)
  | pointShape (shape : List Nat)
  | blochShape (shape : List Nat)
  deriving Repr, DecidableEq

/-- Why an operation has no result. -/
inductive Failure (R : Type) where
  | configuration (cause : ConfigurationError R)
  /-- Arrays that are ragged or do not fit together. -/
  | shapeMismatch
  /-- There is no first block to leave cells out of. -/
  | emptyBlock
  /-- A point lacks a component. -/
  | missingComponent
  /-- A value of another kind stands where a number, an integer or a list is read. -/
  | wrongType
  /-- The terms of a sum are arrays instead of numbers. -/
  | arrayTerms
  /-- A convergence setting of an unknown name. -/
  | unknownSetting
  /-- A text does not spell a number. -/
  | notNumeric
  /-- A number is larger than any machine number, or than any index. -/
  | tooLarge
  /-- An undefined number stands where an integer is read. -/
  | undefinedInteger
  /-- Fields are asked of a value that has none. -/
  | noFields
  | unknownLevel
  | divisionByZero
  /-- A reciprocal sum of neither dimension has no terms. -/
  | noTerms
  | noDistantSum (dimension : Quantity R)
  | unknownSymmetry (name : String)
  | missingKey (name : String)
  | basisOrSymmetryMissing
  | malformedDocument
  /-- A text that goes on in the next line of a document has no name to be kept under. -/
  | namelessText
  /-- The values of a document are nested too deeply. -/
  | tooDeep
  /-- A date is a day or more away from universal time. -/
  | impossibleOffset
  | wrongExtension (extension : String)
  | fileNotFound (path : String)
  | isDirectory
  /-- A document is where a directory is wanted. -/
  | isDocument
  deriving Repr, DecidableEq

/-- A computation that may fail and keeps the events up to the failure. -/
abbrev Attempt (R : Type) := ExceptT (Failure R) (Logged R)

namespace Attempt
variable {R α : Type}

def fail (cause : Failure R) : Attempt R α := throw cause

def ofExcept (e : Except (Failure R) α) : Attempt R α := ⟨e, []⟩

def note (event : Event R) : Attempt R Unit := (Logged.note event : Logged R Unit)

/-- An attempt that had a result, with what was noted on the way. -/
def done (a : α) (events : List (Event R)) : Attempt R α :=
  (⟨.ok a, events⟩ : Logged R (Except (Failure R) α))

/-- An attempt that is made after some events. -/
def after (events : List (Event R)) (x : Attempt R α) : Attempt R α :=
  (⟨x.run.value, events ++ x.run.events⟩ : Logged R (Except (Failure R) α))

/-- A contribution to a sum of numbers: terms that are arrays do not fit into it. -/
def summand (x : Attempt R α) : Attempt R α :=
  tryCatch x fun
    | .arrayTerms => throw .shapeMismatch
    | cause => throw cause

theorem pure_eq_done (a : α) : (pure a : Attempt R α) = done a [] := rfl

theorem ofExcept_ok (a : α) : (ofExcept (.ok a) : Attempt R α) = pure a := rfl

theorem note_eq_done (event : Event R) : (note event : Attempt R Unit) = done () [event] := rfl

theorem done_inj {a b : α} {events later : List (Event R)} :
    (done a events : Attempt R α) = done b later ↔ a = b ∧ events = later := by
  change (⟨.ok a, events⟩ : Logged R (Except (Failure R) α)) = ⟨.ok b, later⟩ ↔ _
  rw [Logged.mk.injEq, Except.ok.injEq]

theorem fail_ne_done (cause : Failure R) (a : α) (events : List (Event R)) :
    (fail cause : Attempt R α) ≠ done a events := by
  intro equal
  cases congrArg (fun x : Attempt R α => x.run.value) equal

theorem done_bind {β : Type} (a : α) (f : α → Attempt R β) (events : List (Event R)) :
    (done a events >>= f) = after events (f a) := rfl

theorem after_done (a : α) (events later : List (Event R)) :
    after events (done a later : Attempt R α) = done a (events ++ later) := rfl

theorem map_done {β : Type} (f : α → β) (a : α) (events : List (Event R)) :
    (f <$> done a events : Attempt R β) = done (f a) events := by
  rw [map_eq_pure_bind, done_bind, pure_eq_done, after_done, List.append_nil]

theorem liftM_eq_done (x : Logged R α) : (liftM x : Attempt R α) = done x.value x.events := by
  change done x.value (x.events ++ []) = _
  rw [List.append_nil]

end Attempt

end LatticeGreen

import LatticeGreen.Convergence
import LatticeGreen.Toml.Numbers

/-!
# Convergence settings

Settings arrive under their names, as numbers of any kind or as something that is no number at all.
One that cannot be read is an obstacle for the sums that need it, and for no other.
-/
namespace LatticeGreen

open Toml (Value)

/-- Settings as they were given. -/
structure Settings (V : Type) where
  absoluteTolerance : V
  relativeTolerance : V
  slotFloor : V
  firstRound : V
  maxShells : V
  convergedRounds : V
  deriving Repr

namespace Settings

/-- The settings of a sum unless others are given. -/
def standard : Settings Value :=
  { absoluteTolerance := .real 0.0
    relativeTolerance := .real 1.0e-8
    slotFloor := .real 1.0e-10
    firstRound := .integer 1
    maxShells := .integer 10000
    convergedRounds := .integer 3 }

/-- The settings with their names. -/
def fields {V : Type} (s : Settings V) : List (String × V) :=
  [("absolute_tolerance", s.absoluteTolerance), ("relative_tolerance", s.relativeTolerance),
    ("slot_floor", s.slotFloor), ("first_round", s.firstRound), ("max_shells", s.maxShells),
    ("converged_rounds", s.convergedRounds)]

/-- Gives the setting of a name another value. -/
def set {V : Type} (s : Settings V) (name : String) (v : V) :
    Except (Failure Float) (Settings V) :=
  match name with
  | "absolute_tolerance" => .ok { s with absoluteTolerance := v }
  | "relative_tolerance" => .ok { s with relativeTolerance := v }
  | "slot_floor" => .ok { s with slotFloor := v }
  | "first_round" => .ok { s with firstRound := v }
  | "max_shells" => .ok { s with maxShells := v }
  | "converged_rounds" => .ok { s with convergedRounds := v }
  | _ => .error .unknownSetting

/-- The settings with some of them given. -/
def override {V : Type} (s : Settings V) (given : List (String × V)) :
    Except (Failure Float) (Settings V) :=
  given.foldlM (fun s (name, v) => s.set name v) s

/-- The greatest integer that counts of shells are compared with. -/
def horizon : Int := 0x4000000000000000

def wholePart (x : Float) : Int := (Float.floor x).toInt64.toInt

/-- The last shell a cap allows; an undefined cap allows none. -/
def lastShell (firstRound : Int) : Quantity Float → Int
  | .integer n => n
  | .flag b => if b then 1 else 0
  | .real x => if x.isNaN then firstRound else min horizon (wholePart x)

/-- The least count that reaches a number; an undefined one is never reached. -/
def leastCount : Quantity Float → Int
  | .integer n => n
  | .flag b => if b then 1 else 0
  | .real x => if x.isNaN then horizon else min horizon (-wholePart (-x))

/-- A number that others are compared with. An array of one number counts as that number. -/
def comparand : Value → Except (Failure Float) Float
  | .array items =>
    match RealArray.ofNested? (Value.array items).nested with
    | none => .error .shapeMismatch
    | some cells =>
      match cells.entries.mapM Value.quantity? with
      | none => .error .wrongType
      | some [q] => .ok q.toReal
      | some _ => .error .shapeMismatch
  | v => v.plainNumber

/-- What is in the way of reading a setting. -/
def obstacle {α : Type} : Except (Failure Float) α → Option (Failure Float)
  | .ok _ => none
  | .error cause => some cause

/-- The obstacle of a setting that must be a number of some kind. -/
def ifNone {α : Type} (number : Option α) : Option (Failure Float) :=
  if number.isSome then none else some .wrongType

/-- The numbers that a sum runs with; nothing depends on those that cannot be read. -/
def resolve (s : Settings Value) : Convergence Float :=
  let firstRound := (s.firstRound.quantity?.bind Quantity.toIndex?).getD 0
  { firstRound
    convergedRounds := (s.convergedRounds.quantity?.map leastCount).getD 0
    maxShells := (s.maxShells.quantity?.map (lastShell firstRound)).getD 0
    slotFloor := (s.slotFloor.plainNumber.toOption).getD 0.0
    absoluteTolerance := (comparand s.absoluteTolerance).toOption.getD 0.0
    relativeTolerance :=
      (s.relativeTolerance.quantity?.map Quantity.toReal).getD
        ((comparand s.relativeTolerance).toOption.getD 0.0) }

/-- The settings that cannot be read. The relative change of no slot is zero, which can be compared
with any number, but not with an array. -/
def obstacles (s : Settings Value) : Obstacles Float :=
  { firstRound := ifNone (s.firstRound.quantity?.bind Quantity.toIndex?)
    convergedRounds := ifNone s.convergedRounds.quantity?
    maxShells := ifNone s.maxShells.quantity?
    slotFloor := obstacle s.slotFloor.plainNumber
    absoluteTolerance := obstacle (comparand s.absoluteTolerance)
    relativeTolerance := obstacle (comparand s.relativeTolerance)
    relativeAtZero := ifNone s.relativeTolerance.quantity? }

end Settings

end LatticeGreen

import LatticeGreen.Files
import LatticeGreen.Message
import LatticeGreen.Periodic
import LatticeGreen.Settings
import LatticeGreen.Toml.Numbers
import LatticeGreen.Double.BesselK
import LatticeGreen.Double.Digits

/-!
# Calculations

A document describes a calculation in four tables: the lattice, the parameters of the Green's
function, the settings of the sums and the points of observation. Each part can be read alone.
-/
namespace LatticeGreen

open Toml (Table Value)

/-! ## Lattices -/

/-- The symmetry that a value names. -/
def Symmetry.ofValue (v : Value) : Except (Failure Float) Symmetry :=
  let named (name : String) : Except (Failure Float) Symmetry :=
    (ofName? name).elim (.error (.unknownSymmetry name)) .ok
  match v, v.quantity? with
  | .text s, _ => named s
  | .date m, _ => do named (← Value.dateText m)
  | .time c, _ => named c.text
  | _, some q => named (q.text Double.text)
  | _, none => .error .wrongType

namespace Lattice

/-- The lattice of a table. Its vectors are used if they are given, else its symmetry. -/
def ofTable (t : Table) : Except (Failure Float) (Lattice Float) := do
  match t.get? "basis_vectors", t.get? "symmetry" with
  | some rows, _ => ofBasis (← rows.numbers)
  | none, none => throw .basisOrSymmetryMissing
  | none, some name =>
    let symmetry ← Symmetry.ofValue name
    let lengths ← (← (← t.require "lengths").members).mapM Value.number
    ofSymmetry symmetry lengths none

def ofFile (files : Files) (path : String) : Except (Failure Float) (Lattice Float) := do
  ofTable (← (← (← files.document path).require "Lattice").fieldsOr .noFields)

end Lattice

/-! ## Parameters -/

/-- What a Green's function needs besides its lattice and its point. -/
structure Parameters where
  wavenumber : Double.Complex
  bloch : RealArray Float
  splitting : Float
  excludeInner : Bool
  deriving Repr

namespace Parameters

/-- The parameters of a table. Only the wavenumber must be given. -/
def ofTable (t : Table) : Except (Failure Float) Parameters := do
  let wavenumber ← (← t.require "wavenumber").complexNumber
  let bloch ← (t.get? "bloch_vector").elim (.ok (RealArray.ofList [0.0, 0.0])) Value.numbers
  let splitting ← (t.get? "splitting_parameter").elim (.ok PeriodicGreen.automatic) Value.number
  return ⟨wavenumber, bloch, splitting, ((t.get? "exclude_inner_cells").map Value.holds).getD false⟩

def ofFile (files : Files) (path : String) : Except (Failure Float) Parameters := do
  ofTable (← (← (← files.document path).require "Green").fieldsOr .wrongType)

end Parameters

/-- The settings of a document, as they are written there. The table may be missing. -/
def Settings.ofFile (files : Files) (path : String) :
    Except (Failure Float) (Settings Value) := do
  let fields ← ((← files.document path).get? "Convergence").elim (.ok []) (·.fieldsOr .wrongType)
  Settings.standard.override fields

/-! ## Calculations -/

/-- A Green's function and the points where it is evaluated, one in each row. -/
structure Calculation where
  name : String
  lattice : Lattice Float
  parameters : Parameters
  points : Grid Float
  settings : Settings Value

namespace Calculation

/-- The points of observation of a document. -/
def pointsOf (files : Files) (path : String) : Except (Failure Float) (Grid Float) := do
  let fields ← (← (← files.document path).require "Points").fieldsOr .wrongType
  return (← (← fields.require "observation_points").numbers).atLeast2d

/-- The calculation that a document describes. Faults of the points are found first, then those of
the lattice, the parameters and the settings. -/
def ofFile (files : Files) (path : String) : Except (Failure Float) Calculation := do
  let points ← pointsOf files path
  let lattice ← Lattice.ofFile files path
  let parameters ← Parameters.ofFile files path
  let settings ← Settings.ofFile files path
  return ⟨Path.name path, lattice, parameters, points, settings⟩

/-- The Green's function of a calculation with a splitting parameter. -/
def greenWith (c : Calculation) (splitting : Float) :
    Except (Failure Float) (PeriodicGreen Float) :=
  PeriodicGreen.create c.lattice splitting c.parameters.excludeInner c.settings.resolve
    c.settings.obstacles

/-- The values at all points. -/
def valuesOf (c : Calculation) (green : PeriodicGreen Float) :
    Attempt Float (List (Slots Double.Complex)) :=
  c.points.rowArrays.mapM fun point => do
    return (← green.evaluate point c.parameters.wavenumber c.parameters.bloch).values

/-- Evaluates the Green's function at all points. -/
def evaluate (c : Calculation) : Attempt Float (List (Slots Double.Complex)) := do
  let green ← Attempt.ofExcept (c.greenWith c.parameters.splitting)
  Attempt.note (.evaluationStarted c.name c.points.rows c.lattice.dimension
    c.lattice.symmetry.name.toLower)
  let values ← tryCatch (c.valuesOf green) fun failure => do
    Attempt.note .evaluationFailed
    throw failure
  Attempt.note .evaluationFinished
  return values

end Calculation

end LatticeGreen

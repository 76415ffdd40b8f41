import LatticeGreen.Failure

/-!
# The wording of failures

A failure has a text when it names something the caller gave: a shape, a number, a name. The others
are told apart by their cause alone.
-/
namespace LatticeGreen

/-- Extents in brackets, a single one with a comma. -/
def shapeText : List Nat → String
  | [] => "()"
  | [n] => s!"({n},)"
  | shape => "(" ++ ", ".intercalate (shape.map toString) ++ ")"

variable {R : Type}

/-- A quantity as it was written, given the text of reals. -/
def Quantity.text (write : R → String) : Quantity R → String
  | integer n => toString n
  | real x => write x
  | flag b => if b then "True" else "False"

def ConfigurationError.message (write : R → String) : ConfigurationError R → String
  | unsupportedDimension dimension =>
    "only 1D or 2D periodicity is supported, received dimension " ++ dimension.text write
  | basisShape dimension shape =>
    "expected " ++ dimension.text write ++
      " lattice vectors with 2 components, received an array of shape " ++ shapeText shape
  | outOfPlane => "lattice vectors must lie in the xy plane"
  | obliqueWithoutBasis => "an oblique lattice is characterised by explicit basis vectors"
  | linearLengths => "a linear lattice is characterised by a single length"
  | rectangularLengths => "a rectangular lattice is characterised by two lengths"
  | hexagonalLengths => "a hexagonal lattice is characterised by a single length"
  | emptyCell => "lattice has empty unit cell"
  | notAlongX => "1D lattice vectors must point in the x direction"
  | negativeSplitting value =>
    "splitting parameter must be non-negative or -1.0, received " ++ write value
  | pointShape shape => "expected a 3D observation point, received shape " ++ shapeText shape
  | blochShape shape => "expected an in-plane Bloch vector, received shape " ++ shapeText shape

/-- The text of a failure that has one. -/
def Failure.message? (write : R → String) : Failure R → Option String
  | configuration cause => some (cause.message write)
  | noTerms => some ""
  | noDistantSum dimension =>
    some ("no spectral sum for " ++ dimension.text write ++ "D lattices")
  | unknownSymmetry name => some name
  | missingKey name => some name
  | basisOrSymmetryMissing => some "the [Lattice] table needs either `basis_vectors` or `symmetry`"
  | wrongExtension extension => some s!"expected a `.toml` file, received a `{extension}` file"
  | fileNotFound path => some s!"file {path} not found"
  | _ => none

end LatticeGreen

import LatticeGreen.Failure
import LatticeGreen.Path
import LatticeGreen.Toml.Document

/-!
# Files

A document is found under the shortest spelling of its path. Its extension is looked at before the
file itself.
-/
namespace LatticeGreen

/-- What a path leads to. -/
inductive Entry where
  | document (text : String)
  | directory
  | missing
  deriving DecidableEq, Repr

/-- The entries at the shortest spellings of paths. -/
abbrev Files := String → Entry

/-- The failure that a fault of a document amounts to. -/
def Failure.ofFault {R : Type} : Toml.Fault → Failure R
  | .malformed => .malformedDocument
  | .notATable => .wrongType
  | .pastEnd => .missingComponent
  | .notAnArray => .noFields
  | .nameless => .namelessText
  | .tooLarge => .tooLarge
  | .tooDeep => .tooDeep

namespace Files

/-- The extension of the documents that are opened. -/
def documentExtension : String := ".toml"

/-- The table of a document. -/
def document {R : Type} (files : Files) (path : String) : Except (Failure R) Toml.Table :=
  let extension := Path.extension path
  if extension != documentExtension then .error (.wrongExtension extension)
  else
    let path := Path.normalise path
    match files path with
    | .missing => .error (.fileNotFound path)
    | .directory => .error .isDirectory
    | .document text => (Toml.parse text).mapError .ofFault

end Files

/-! ## Files in memory -/

open Text

/-- Documents and directories by the place where they lie: the names on the way to it from the
first directory, which is always there. -/
structure Disk where
  documents : List (List Chars × String) := []
  directories : List (List Chars) := []

namespace Disk

/-- A name that leads back to the directory above. -/
def parentName : Chars := ['.', '.']

def isDirectory (disk : Disk) (place : List Chars) : Bool :=
  place.isEmpty || disk.directories.contains place

/-- The place that a path leads to, from a place on. Every step is made from a directory, and none
leads above the first one. -/
def walk (disk : Disk) : (place steps : List Chars) → Option (List Chars)
  | place, [] => some place
  | place, step :: steps =>
    if !disk.isDirectory place then none
    else if step != parentName then disk.walk (place ++ [step]) steps
    else if place.isEmpty then none
    else disk.walk place.dropLast steps

/-- What the paths of a disk lead to. Paths from the root lead nowhere. -/
def files (disk : Disk) : Files := fun path =>
  if !(Path.root path).isEmpty then .missing
  else match disk.walk [] (Path.steps path) with
    | none => .missing
    | some place =>
      match disk.documents.lookup place with
      | some text => .document text
      | none => if disk.isDirectory place then .directory else .missing

/-- Puts a directory at a place, unless there is one. -/
def withDirectory {R : Type} (disk : Disk) (place : List Chars) : Except (Failure R) Disk :=
  if disk.isDirectory place then .ok disk
  else if (disk.documents.lookup place).isSome then .error .isDocument
  else .ok { disk with directories := place :: disk.directories }

/-- Puts directories at all places that steps from a place lead to. -/
def withDirectories {R : Type} (disk : Disk) :
    (place steps : List Chars) → Except (Failure R) (Disk × List Chars)
  | place, [] => .ok (disk, place)
  | place, step :: steps =>
    if step == parentName then disk.withDirectories place.dropLast steps
    else do (← disk.withDirectory (place ++ [step])).withDirectories (place ++ [step]) steps

/-- Writes a document in place of the one at the end of a path, if any. The directories on the way
are put there first. -/
def write {R : Type} (disk : Disk) (path text : String) : Except (Failure R) Disk := do
  let steps := Path.steps path
  let (disk, directory) ← disk.withDirectories [] steps.dropLast
  let place := directory ++ steps.drop (steps.length - 1)
  if disk.isDirectory place then throw .isDirectory
  return { disk with
    documents := (place, text) :: disk.documents.filter fun (p, _) => p != place }

end Disk

end LatticeGreen

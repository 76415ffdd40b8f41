import LatticeGreen.Sweep

/-!
# Command line

Sweeps the splitting parameter of the calculation in a document, which the first argument names,
and prints how far the values depend on it.
-/
namespace LatticeGreen

/-- What a path leads to on the disk. -/
def Entry.read (path : String) : IO Entry := do
  match ← (IO.FS.readFile path).toBaseIO with
  | .ok text => return .document text
  | .error (.noFileOrDirectory ..) => return .missing
  | .error _ => return .directory

/-- Prints a line for each splitting parameter; the records of the sums go to standard error. -/
def Sweep.command (arguments : List String) : IO UInt32 := do
  let path := Path.normalise (arguments.head?.getD Sweep.standardPath)
  let entry ← Entry.read path
  let outcome : Logged Float (Except (Failure Float) Sweep) :=
    (Sweep.ofFile (fun _ => entry) path).run
  for (level, text) in (Logger.mk Sweep.logLevel.severity).records outcome.events do
    IO.eprintln (level ++ " " ++ text)
  match outcome.value with
  | .ok sweep =>
    for line in sweep.table do
      IO.println line
    return 0
  | .error failure =>
    IO.eprintln ((failure.message? Double.text).getD "the calculation cannot be evaluated")
    return 1

end LatticeGreen

def main (arguments : List String) : IO UInt32 := LatticeGreen.Sweep.command arguments

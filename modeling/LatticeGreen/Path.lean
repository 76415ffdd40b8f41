import LatticeGreen.Text
import LatticeGreen.Text.LetterCase

/-!
# Paths of files

A path is taken apart at slashes. Parts that change nothing, empty ones and single dots, go.
-/
namespace LatticeGreen.Path

open Text

def parts (path : String) : List Chars := split ['/'] path.toList

/-- The parts that say where a file is. -/
def steps (path : String) : List Chars := (parts path).filter fun p => !p.isEmpty && p != ['.']

/-- The slashes a path from the root starts with: two if there are exactly two, else one. -/
def root (path : String) : Chars :=
  match (path.toList.takeWhile (· == '/')).length with
  | 0 => []
  | 2 => ['/', '/']
  | _ => ['/']

/-- The shortest spelling of a path; the empty path is a dot. -/
def normalise (path : String) : String :=
  match root path ++ join ['/'] (steps path) with
  | [] => "."
  | cs => String.ofList cs

/-- The last part of a path. -/
def name (path : String) : String :=
  String.ofList ((parts (normalise path)).getLast?.getD [])

/-- The name without its last suffix. A dot at the start or the end of a name marks no suffix. -/
def stem (path : String) : String :=
  let cs := (name path).toList
  let suffix := (cs.reverse.takeWhile (· != '.')).length
  let before := cs.take (cs.length - suffix - 1)
  if suffix < cs.length && suffix != 0 && !before.isEmpty then String.ofList before
  else String.ofList cs

/-- The extension with its dot, in small letters. Dots at the start of a name mark none. -/
def extension (path : String) : String :=
  let cs := (parts path).getLast?.getD []
  let after := cs.reverse.takeWhile (· != '.')
  let before := (cs.reverse.dropWhile (· != '.')).drop 1
  if cs.contains '.' && before.any (· != '.') then
    String.ofList (lower ('.' :: after.reverse))
  else ""

end LatticeGreen.Path

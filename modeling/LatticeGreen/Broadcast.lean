import LatticeGreen.RealArray

/-!
# Arrays that fit together

Extents are compared from the last axis on. Two of them fit if they are equal or one of them is
one; an axis of extent one, or one that is missing, is repeated.
-/
namespace LatticeGreen

namespace Extents

/-- The common extent of two axes. -/
def common? (n m : Nat) : Option Nat :=
  if n = m || m = 1 then some n else if n = 1 then some m else none

/-- The common extents of two lists that start with the last axis. -/
def commonReversed? : (ns ms : List Nat) → Option (List Nat)
  | [], ms => some ms
  | ns, [] => some ns
  | n :: ns, m :: ms => do return (← common? n m) :: (← commonReversed? ns ms)

/-- The extents of two arrays together. -/
def join? (ns ms : List Nat) : Option (List Nat) :=
  (commonReversed? ns.reverse ms.reverse).map List.reverse

@[simp] theorem common?_self (n : Nat) : common? n n = some n := by simp [common?]

@[simp] theorem join?_self (ns : List Nat) : join? ns ns = some ns := by
  have (ms : List Nat) : commonReversed? ms ms = some ms := by
    induction ms with
    | nil => rfl
    | cons m ms ih => simp [commonReversed?, ih]
  simp [join?, this]

/-- An array of some extents fills one of others. Extents of one in front may go. -/
def fills (value target : List Nat) : Bool :=
  let extra := value.length - target.length
  (value.take extra).all (· == 1) && join? (value.drop extra) target == some target

/-- The extents of a product of matrices, or of stacks of them. -/
def product? (ns ms : List Nat) : Option (List Nat) :=
  match ns.reverse, ms.reverse with
  | [], _ | _, [] => none
  | [k], [l] => if k = l then some [] else none
  | [k], m :: l :: stack => if k = l then some ((m :: stack).reverse) else none
  | k :: n :: stack, [l] => if k = l then some ((n :: stack).reverse) else none
  | k :: n :: stack, m :: l :: others =>
    if k = l then (commonReversed? stack others).map fun joint => (m :: n :: joint).reverse
    else none

end Extents

namespace RealArray
variable {R S T : Type}

/-- All positions of an array, the last axis running fastest. -/
def positions : (shape : List Nat) → List (List Nat)
  | [] => [[]]
  | n :: shape => (List.range n).flatMap fun i => (positions shape).map (i :: ·)

/-- The place of an entry, given extents and position from the last axis on. -/
def offset : (extents position : List Nat) → Nat
  | n :: extents, i :: position => (if n = 1 then 0 else i) + n * offset extents position
  | _, _ => 0

/-- The entry at a position of a larger array that this one fits into. -/
def entry? (a : RealArray R) (position : List Nat) : Option R :=
  a.entries[offset a.shape.reverse position.reverse]?

/-- Combines the entries of two arrays that fit together. -/
def zipWith? (f : R → S → T) (a : RealArray R) (b : RealArray S) : Option (RealArray T) := do
  let shape ← Extents.join? a.shape b.shape
  let entries ← (positions shape).mapM fun i => do return f (← a.entry? i) (← b.entry? i)
  ofEntries? shape entries

/-- The entries of an array that fills one of the given extents. -/
def fill? (shape : List Nat) (a : RealArray R) : Option (List R) :=
  if Extents.fills a.shape shape then (positions shape).mapM a.entry? else none

variable [Add R] [Mul R] [OfScientific R]

/-- The sum of products; zero if there are none. -/
def dot : List (R × R) → R
  | [] => 0.0
  | (x, y) :: rest => rest.foldl (fun sum p => sum + p.1 * p.2) (x * y)

/-- The product of two matrices, of stacks of them, or of matrices and vectors. -/
def product? (a b : RealArray R) : Option (RealArray R) := do
  let shape ← Extents.product? a.shape b.shape
  let count := a.shape.getLast?.getD 0
  let entries ← (positions shape).mapM fun position => do
    let inFront := if b.shape.length = 1 then position else position.dropLast
    let behind := if b.shape.length = 1 then [] else position.drop (position.length - 1)
    let stack := if a.shape.length = 1 then inFront else inFront.dropLast
    let pairs ← (List.range count).mapM fun i => do
      return (← a.entry? (inFront ++ [i]), ← b.entry? (stack ++ i :: behind))
    return dot pairs
  ofEntries? shape entries

end RealArray

end LatticeGreen

/-!
# Numbers as they were given

Counts and caps keep the form they were written in: an integer, a real or a truth value. A truth
value counts as zero or one; a real never stands for an index.
-/
namespace LatticeGreen

inductive Quantity (R : Type) where
  | integer (n : Int)
  | real (x : R)
  | flag (b : Bool)
  deriving Repr, DecidableEq

namespace Quantity
variable {R : Type}

/-- The integer an index or a range bound is read as. -/
def toIndex? : Quantity R → Option Int
  | integer n => some n
  | flag b => some (if b then 1 else 0)
  | real _ => none

/-- The real of the same value. -/
def toReal [IntCast R] : Quantity R → R
  | integer n => n
  | flag b => ((if b then 1 else 0 : Int) : R)
  | real x => x

end Quantity

end LatticeGreen

import LatticeGreen.Scalar

/-!
# The eight slots of a Green's function

A value together with its first, mixed second and mixed third derivatives. Sums, scalings and
comparisons act slot by slot.
-/
namespace LatticeGreen

/-- `G`, its gradient, the three mixed second derivatives and the mixed third derivative. -/
structure Slots (α : Type) where
  value : α
  dx : α
  dy : α
  dz : α
  dxdy : α
  dxdz : α
  dydz : α
  dxdydz : α
  deriving Repr, DecidableEq

namespace Slots
variable {α β γ : Type}

def replicate (a : α) : Slots α := ⟨a, a, a, a, a, a, a, a⟩

def map (f : α → β) (s : Slots α) : Slots β :=
  ⟨f s.value, f s.dx, f s.dy, f s.dz, f s.dxdy, f s.dxdz, f s.dydz, f s.dxdydz⟩

def zipWith (f : α → β → γ) (s : Slots α) (t : Slots β) : Slots γ :=
  ⟨f s.value t.value, f s.dx t.dx, f s.dy t.dy, f s.dz t.dz, f s.dxdy t.dxdy, f s.dxdz t.dxdz,
    f s.dydz t.dydz, f s.dxdydz t.dxdydz⟩

/-- The slots in the order of the structure. -/
def toList (s : Slots α) : List α :=
  [s.value, s.dx, s.dy, s.dz, s.dxdy, s.dxdz, s.dydz, s.dxdydz]

/-- Eight entries fill the slots in order; a single entry fills them all. -/
def ofList? : List α → Option (Slots α)
  | [a] => some (replicate a)
  | [a, b, c, d, e, f, g, h] => some ⟨a, b, c, d, e, f, g, h⟩
  | _ => none

@[simp] theorem length_toList (s : Slots α) : s.toList.length = 8 := rfl

@[simp] theorem ofList?_toList (s : Slots α) : ofList? s.toList = some s := rfl

@[simp] theorem toList_map (f : α → β) (s : Slots α) : (s.map f).toList = s.toList.map f := rfl

@[simp] theorem toList_zipWith (f : α → β → γ) (s : Slots α) (t : Slots β) :
    (zipWith f s t).toList = List.zipWith f s.toList t.toList := rfl

instance [Add α] : Add (Slots α) := ⟨zipWith (· + ·)⟩
instance [Sub α] : Sub (Slots α) := ⟨zipWith (· - ·)⟩

end Slots

section
variable {R C : Type} [OfScientific R] [ComplexFunctions R C]

/-- The slots of nothing. -/
def Slots.zero : Slots C := Slots.replicate zeroC

/-- Multiplies every slot by a complex factor from the right. -/
def Slots.scale [Mul C] (s : Slots C) (c : C) : Slots C := s.map (· * c)

/-- Adds the rows from the first to the last. -/
def Slots.sum [Add C] (rows : List (Slots C)) : Slots C := rows.foldl (· + ·) Slots.zero

end

end LatticeGreen

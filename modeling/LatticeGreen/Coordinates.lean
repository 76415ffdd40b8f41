/-!
# Vectors in space and in the lattice plane

The lattice lies in the plane `z = 0`.
-/
namespace LatticeGreen

/-- A vector of space. -/
structure Vec3 (R : Type) where
  x : R
  y : R
  z : R
  deriving Repr, DecidableEq

/-- A vector of the lattice plane. -/
structure Vec2 (R : Type) where
  x : R
  y : R
  deriving Repr, DecidableEq

variable {R : Type}

/-- The part of a vector in the lattice plane. -/
def Vec3.planar (v : Vec3 R) : Vec2 R := ⟨v.x, v.y⟩

def Vec2.dot [Add R] [Mul R] (u v : Vec2 R) : R := u.x * v.x + u.y * v.y

/-- The signed area spanned by two vectors. -/
def Vec2.cross [Sub R] [Mul R] (u v : Vec2 R) : R := u.x * v.y - u.y * v.x

end LatticeGreen

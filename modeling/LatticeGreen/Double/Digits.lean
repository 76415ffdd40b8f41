import LatticeGreen.Decimal
import LatticeGreen.Double.Elementary

/-!
# The digits of machine numbers

A finite machine number is an exact decimal. Its text has the fewest digits that read back to it,
and of those the nearest ones.
-/
namespace LatticeGreen.Double

/-- The exact value of a finite number: `m * 2 ^ q`, or `m * 5 ^ n / 10 ^ n` for `q = -n`. -/
def exact (x : Float) : Decimal :=
  let bits := x.toBits
  let fraction := (bits &&& 0xFFFFFFFFFFFFF).toNat
  let e := ((bits >>> 52) &&& 0x7FF).toNat
  let m := if e = 0 then fraction else 0x10000000000000 + fraction
  let q : Int := if e = 0 then -1074 else (e : Int) - 1075
  if 0 ≤ q then ⟨isNegative x, m <<< q.toNat, 0⟩
  else ⟨isNegative x, m * Nat.pow 5 (-q).toNat, q⟩

/-- The number of that size nearest to a decimal. -/
def readDecimal (d : Decimal) : Float :=
  let size := Float.ofScientific d.digits (decide (d.exponent < 0)) d.exponent.natAbs
  if d.negative then -size else size

/-- The fewest digits that read back, and of those the nearest. -/
def shortest (x : Float) : Decimal :=
  let value := exact x
  let reads (d : Decimal) := (readDecimal d).toBits == x.toBits
  ((List.range 17).findSome? fun n : Nat =>
    (value.around (value.leading - n)).find? reads).getD value

/-- The shortest text of a number. -/
def text (x : Float) : String :=
  if x.isNaN then "nan"
  else if x.isInf then (if isNegative x then "-inf" else "inf")
  else (shortest x).text

end LatticeGreen.Double

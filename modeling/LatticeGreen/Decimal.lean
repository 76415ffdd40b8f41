/-!
# Decimal numbers

Numbers are written from exact decimals. Every machine number is one; what is printed is the
nearest decimal on a coarser grid, a half going to the even neighbour.
-/
namespace LatticeGreen

/-- `digits * 10 ^ exponent`, below zero if so marked. -/
structure Decimal where
  negative : Bool
  digits : Nat
  exponent : Int
  deriving Repr, DecidableEq

namespace Decimal

/-- Number of decimal digits. -/
def digitCount (n : Nat) : Nat := (Nat.toDigits 10 n).length

/-- The power of ten of the first digit. -/
def leading (d : Decimal) : Int := d.exponent + digitCount d.digits - 1

/-- The two integers next to a quotient, the nearer first; of equally near ones the even first. -/
def neighbours (a b : Nat) : Nat × Nat :=
  let q := a / b
  let r := a % b
  if 2 * r < b || (2 * r == b && q % 2 == 0) then (q, q + 1) else (q + 1, q)

/-- The multiples of `10 ^ place` next to a decimal, the nearest first. -/
def around (place : Int) (d : Decimal) : List Decimal :=
  if place ≤ d.exponent then [d]
  else
    let (near, far) := neighbours d.digits (Nat.pow 10 (place - d.exponent).toNat)
    [{ d with digits := near, exponent := place }, { d with digits := far, exponent := place }]

/-- The nearest multiple of `10 ^ place`. -/
def roundTo (place : Int) (d : Decimal) : Decimal := (around place d).headD d

/-- The place of the last of `precision` significant digits. Nothing finer than two digits below
those of a scale is kept. -/
def lastPlace (precision : Int) (scale : Option Decimal) (d : Decimal) : Int :=
  let own := d.leading - (precision - 1)
  match scale with
  | none => own
  | some s => max own (s.leading - (precision + 1))

/-- The digits from the first to the last that is not zero. -/
def significantDigits (d : Decimal) : List Char :=
  ((Nat.toDigits 10 d.digits).reverse.dropWhile (· == '0')).reverse

/-- Digits with a point after the first `n`, each side of it filled with a zero at least. -/
def pointed (digits : List Char) (n : Nat) : String :=
  let whole := digits.take n ++ List.replicate (n - digits.length) '0'
  let fraction := digits.drop n
  String.ofList (if whole.isEmpty then ['0'] else whole) ++ "." ++
    String.ofList (if fraction.isEmpty then ['0'] else fraction)

/-- An exponent with its sign and two digits at least. -/
def exponentText (e : Int) : String :=
  let digits := toString e.natAbs
  (if e < 0 then "e-" else "e+") ++ (if digits.length < 2 then "0" ++ digits else digits)

/-- Positional from `1e-4` up to `1e16`, otherwise with an exponent. -/
def text (d : Decimal) : String :=
  let sign := if d.negative then "-" else ""
  let digits := d.significantDigits
  let e := d.leading
  if digits.isEmpty then sign ++ "0.0"
  else if e < -4 || 16 ≤ e then
    let mantissa := match digits with
      | [c] => String.ofList [c]
      | _ => pointed digits 1
    sign ++ mantissa ++ exponentText e
  else if e < 0 then sign ++ pointed (List.replicate (-e - 1).toNat '0' ++ digits) 0
  else sign ++ pointed digits (e + 1).toNat

end Decimal

end LatticeGreen

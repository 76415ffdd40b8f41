import LatticeGreen.Double.Elementary
import LatticeGreen.Text
import LatticeGreen.Text.DecimalDigit

/-!
# Numbers in texts

Real, complex and integer numbers as people write them. Underscores may stand between digits, white
space around the number, and the digits may be those of any script.
-/
namespace LatticeGreen.Numeral

open Text

/-! ## Characters -/

/-- White space that may surround a number. -/
def isSpace (c : Char) : Bool :=
  let n := c.toNat
  (9 ≤ n && n ≤ 13) || n == 32

/-- The ASCII character that a character of a number stands for: white space beyond ASCII for a
space, a digit for that of the same value. -/
def plainChar? (c : Char) : Option Char :=
  if c.toNat < 0x7F then some c
  else if isBlank c then some ' '
  else (digitValue? c).map digitOf

/-- The text of a number in ASCII, without white space around it. -/
def plainText? (cs : Chars) : Option Chars := do
  let plain ← cs.mapM plainChar?
  return ((plain.dropWhile isSpace).reverse.dropWhile isSpace).reverse

/-! ## Digits -/

/-- The decimal `m * 10 ^ e`, rounded to the nearest machine number. Decimals beyond the range of
machine numbers are told by their first digit. -/
def nearest (m : Nat) (e : Int) : Float :=
  let leading := e + (Nat.toDigits 10 m).length
  if m = 0 || leading < -330 then 0.0
  else if 310 < leading then Double.infinity
  else Float.ofScientific m (decide (e < 0)) e.natAbs

/-- The value of digits in a base. -/
def digitsValue (base : Nat) (cs : Chars) : Nat :=
  cs.foldl (fun n c =>
    let d := if c.isDigit then c.toNat - 48 else c.toLower.toNat - 87
    base * n + d) 0

/-- A digit of a base up to sixteen. -/
def isDigitOf (base : Nat) (c : Char) : Bool :=
  if c.isDigit then decide (c.toNat - 48 < base)
  else base == 16 && decide ('a' ≤ c.toLower) && decide (c.toLower ≤ 'f')

/-- Every underscore has a digit on both sides. -/
def underscoresFit (cs : Chars) : Bool :=
  let before := ' ' :: cs
  let after := cs.tail ++ [' ']
  (before.zip (cs.zip after)).all fun (b, c, a) => c != '_' || (b.isDigit && a.isDigit)

def withoutUnderscores (cs : Chars) : Chars := cs.filter (· != '_')

/-- A sign at the start, if any. -/
def sign : Chars → Bool × Chars
  | '-' :: cs => (true, cs)
  | '+' :: cs => (false, cs)
  | cs => (false, cs)

/-- The text after a word, in any case, at the start. -/
def afterWord? (word : String) (cs : Chars) : Option Chars :=
  let n := word.length
  if (cs.take n).map Char.toLower == word.toList then some (cs.drop n) else none

/-- An exponent at the start: `e`, a sign if any, and digits. Without digits it is no exponent. -/
def exponent (cs : Chars) : Int × Chars :=
  match cs with
  | c :: rest =>
    if c == 'e' || c == 'E' then
      let (negative, rest) := sign rest
      let digits := rest.takeWhile Char.isDigit
      if digits.isEmpty then (0, cs)
      else
        let n : Int := digitsValue 10 digits
        (if negative then -n else n, rest.dropWhile Char.isDigit)
    else (0, cs)
  | [] => (0, [])

/-! ## Real numbers -/

/-- A number without a sign at the start of a text, and the text after it. -/
def unsigned? (cs : Chars) : Option (Float × Chars) :=
  match afterWord? "infinity" cs, afterWord? "inf" cs, afterWord? "nan" cs with
  | some rest, _, _ => some (Double.infinity, rest)
  | none, some rest, _ => some (Double.infinity, rest)
  | none, none, some rest => some (Double.nan, rest)
  | none, none, none =>
    let whole := cs.takeWhile Char.isDigit
    let rest := cs.dropWhile Char.isDigit
    let (fraction, rest) := match rest with
      | '.' :: after => (after.takeWhile Char.isDigit, after.dropWhile Char.isDigit)
      | _ => ([], rest)
    if whole.isEmpty && fraction.isEmpty then none
    else
      let (e, rest) := exponent rest
      some (nearest (digitsValue 10 (whole ++ fraction)) (e - fraction.length), rest)

/-- A number with a sign, if any, at the start of a text, and the text after it. -/
def signed? (cs : Chars) : Option (Float × Chars) :=
  let (negative, rest) := sign cs
  (unsigned? rest).map fun (x, after) => (if negative then -x else x, after)

/-- A text that is one real number. -/
def real? (text : Chars) : Option Float := do
  let cs ← plainText? text
  if !underscoresFit cs then none
  else match signed? (withoutUnderscores cs) with
    | some (x, []) => some x
    | _ => none

/-! ## Complex numbers -/

/-- The mark of an imaginary part, and the text after it. -/
def imaginaryMark? : Chars → Option Chars
  | 'j' :: rest => some rest
  | 'J' :: rest => some rest
  | _ => none

/-- An imaginary part with its mark. A sign or nothing stands for a unit. -/
def imaginary? (cs : Chars) : Option (Float × Chars) :=
  let (y, rest) := (signed? cs).getD
    (let (negative, rest) := sign cs
     (if negative then -1.0 else 1.0, rest))
  (imaginaryMark? rest).map fun after => (y, after)

/-- A complex number at the start of a text: a real part, an imaginary part, or both. -/
def complexPrefix? (cs : Chars) : Option (Cartesian Float × Chars) :=
  match signed? cs with
  | none => (imaginary? cs).map fun (y, rest) => (⟨0.0, y⟩, rest)
  | some (x, rest) =>
    match rest with
    | '+' :: _ | '-' :: _ => (imaginary? rest).map fun (y, after) => (⟨x, y⟩, after)
    | _ =>
      match imaginaryMark? rest with
      | some after => some (⟨0.0, x⟩, after)
      | none => some (⟨x, 0.0⟩, rest)

/-- A text that is one complex number, in brackets or not. -/
def complex? (text : Chars) : Option (Cartesian Float) := do
  let cs ← plainText? text
  if !underscoresFit cs then none
  else
    match withoutUnderscores cs with
    | '(' :: rest =>
      match complexPrefix? (rest.dropWhile isSpace) with
      | some (z, after) => if after.dropWhile isSpace == [')'] then some z else none
      | none => none
    | cs =>
      match complexPrefix? cs with
      | some (z, []) => some z
      | _ => none

/-! ## Integers -/

/-- Decimal integers of more digits are not read. -/
def maxDigits : Nat := 4300

/-- Digits of a base, one at least. -/
def natural? (base : Nat) (cs : Chars) : Option Nat :=
  if cs.isEmpty || !cs.all (isDigitOf base) || (base == 10 && maxDigits < cs.length) then none
  else some (digitsValue base cs)

def withSign (negative : Bool) (n : Nat) : Int := if negative then -(n : Int) else n

/-- A text that is one decimal integer. -/
def decimal? (text : Chars) : Option Int := do
  let (negative, digits) := sign (← plainText? text)
  if !underscoresFit digits then none
  else (natural? 10 (withoutUnderscores digits)).map (withSign negative)

/-- A text that is one integer. The base is told by a mark at the start; without one, a leading
zero is allowed in zeros only. -/
def integer? (text : Chars) : Option Int := do
  let (negative, digits) := sign (← plainText? text)
  let n := match digits with
    | '0' :: mark :: rest =>
      match mark.toLower with
      | 'x' => natural? 16 rest
      | 'o' => natural? 8 rest
      | 'b' => natural? 2 rest
      | _ => (natural? 10 digits).filter (· == 0)
    | _ => natural? 10 digits
  n.map (withSign negative)

end LatticeGreen.Numeral

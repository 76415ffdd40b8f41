import LatticeGreen.Numeral

/-!
# Dates and times

A date is a day, or a day with a time of day and perhaps an offset from universal time. The parts
are read at fixed positions, whatever stands between them, and only days and times that exist are
dates and times.
-/
namespace LatticeGreen.Toml

open Text

/-- A time of day. -/
structure Clock where
  hour : Nat
  minute : Nat
  second : Nat
  microsecond : Nat
  deriving DecidableEq, Repr

/-- A day of the calendar, the time of that day and the offset from universal time in minutes. -/
structure Moment where
  year : Nat
  month : Nat
  day : Nat
  clock : Option Clock
  offset : Option Int
  deriving DecidableEq, Repr

/-! ## Texts -/

/-- Digits with zeros in front up to a width. -/
def padded (width n : Nat) : String :=
  let digits := toString n
  String.ofList (List.replicate (width - digits.length) '0') ++ digits

namespace Clock

/-- Two digits each, and six of the fraction unless it is zero. -/
def text (c : Clock) : String :=
  padded 2 c.hour ++ ":" ++ padded 2 c.minute ++ ":" ++ padded 2 c.second ++
    (if c.microsecond = 0 then "" else "." ++ padded 6 c.microsecond)

end Clock

namespace Moment

/-- An offset with its sign, in hours and minutes. -/
def offsetText (minutes : Int) : String :=
  (if minutes < 0 then "-" else "+") ++ padded 2 (minutes.natAbs / 60) ++ ":" ++
    padded 2 (minutes.natAbs % 60)

def text (m : Moment) : String :=
  padded 4 m.year ++ "-" ++ padded 2 m.month ++ "-" ++ padded 2 m.day ++
    (m.clock.elim "" fun c => " " ++ c.text) ++ m.offset.elim "" offsetText

/-- An offset is shorter than a day. -/
def offsetExists (m : Moment) : Bool := m.offset.all fun minutes => minutes.natAbs < 1440

end Moment

/-! ## Reading -/

def daysInMonth (year month : Int) : Int :=
  if month = 2 then
    if year % 4 = 0 && (year % 100 != 0 || year % 400 = 0) then 29 else 28
  else if month = 4 || month = 6 || month = 9 || month = 11 then 30 else 31

/-- The integer between two positions. -/
def field? (cs : Chars) (start stop : Nat) : Option Int :=
  Numeral.decimal? ((cs.drop start).take (stop - start))

/-- An integer from zero up to a bound. -/
def below? (bound n : Int) : Option Nat := if 0 ≤ n && n < bound then some n.toNat else none

/-- The time of day that the given numbers make. -/
def Clock.of? (hour minute second microsecond : Int) : Option Clock := do
  return ⟨← below? 24 hour, ← below? 60 minute, ← below? 60 second, ← below? 1000000 microsecond⟩

/-- Two digits, a colon, two digits, a colon, two digits. -/
def startsLikeTime (cs : Chars) : Bool :=
  match cs with
  | h1 :: h2 :: ':' :: m1 :: m2 :: ':' :: s1 :: s2 :: _ =>
    [h1, h2, m1, m2, s1, s2].all Char.isDigit
  | _ => false

/-- The number after a point that follows a time: up to six digits, of which there are three at
least. It counts microseconds as it stands. -/
def timeFraction (cs : Chars) : Nat :=
  match cs with
  | '.' :: rest =>
    let digits := (rest.take 6).takeWhile Char.isDigit
    if digits.length < 3 then 0 else Numeral.digitsValue 10 digits
  | _ => 0

/-- The time at the start of a text that starts like one. -/
def Clock.ofText? (cs : Chars) : Option Clock := do
  Clock.of? (← field? cs 0 2) (← field? cs 3 5) (← field? cs 6 8) (timeFraction (cs.drop 8))

/-- The offset in minutes that a text stands for: `Z`, or a sign, hours and minutes at fixed
positions. -/
def offset? (cs : Chars) : Option Int :=
  if cs == ['Z'] then some 0
  else do
    let minutes := 60 * (← field? cs 1 3) + (← field? cs 4 6)
    return if cs.head? == some '-' then -minutes else minutes

/-- The fraction of a second and the offset behind it: an offset starts at its sign, or is a `Z` at
the end. -/
def splitOffset (cs : Chars) : Chars × Option Chars :=
  let fromSign (sign : Char) := (cs.takeWhile (· != sign), some (cs.dropWhile (· != sign)))
  if cs.getLast?.any fun c => c == 'Z' || c == 'z' then (cs.dropLast, some ['Z'])
  else if cs.contains '+' then fromSign '+'
  else if cs.contains '-' then fromSign '-'
  else (cs, none)

/-- A number of digits after a point, in microseconds. From the seventh digit on it is a product of
machine numbers, which must not be too large. -/
def microseconds (width : Nat) (n : Int) : Option Int :=
  if width ≤ 6 then some (n * Nat.pow 10 (6 - width))
  else
    let size : Float := n
    if size.isInf then none
    else some (size * Float.pow 10.0 (6.0 - width.toFloat)).toInt64.toInt

/-- The fraction of a second and the offset behind a time; `none` if the fraction is too large. What
cannot be read counts as absent. -/
def suffix? (cs : Chars) : Option (Int × Option Int) :=
  match cs with
  | [] => some (0, none)
  | '.' :: rest =>
    let (fraction, zone) := splitOffset rest
    match zone.map offset?, Numeral.decimal? fraction with
    | some none, _ => some (0, none)
    | _, none => some (0, none)
    | zone, some n => (microseconds fraction.length n).map fun micro => (micro, zone.join)
  | zone => some (0, offset? zone)

/-- The day at the start of a text. -/
def day? (cs : Chars) : Option Moment := do
  let year ← field? cs 0 4
  let month ← field? cs 5 7
  let day ← field? cs 8 10
  if 1 ≤ year && year ≤ 9999 && 1 ≤ month && month ≤ 12 && 1 ≤ day &&
      day ≤ daysInMonth year month then
    some ⟨year.toNat, month.toNat, day.toNat, none, none⟩
  else none

/-- The date that a text of ten characters is, or that starts a longer one. -/
def Moment.at? (cs : Chars) (micro : Int) (zone : Option Int) : Option Moment := do
  let day ← day? cs
  if cs.length = 10 then return day
  else
    let clock ← Clock.of? (← field? cs 11 13) (← field? cs 14 16) (← field? cs 17 19) micro
    return { day with clock := some clock, offset := zone }

end LatticeGreen.Toml

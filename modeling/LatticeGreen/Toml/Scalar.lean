import LatticeGreen.Numeral
import LatticeGreen.Toml.Value

/-!
# Texts, dates and numbers of a document

Values without parts. A text in double quotes has escapes, one in single quotes has none.
-/
namespace LatticeGreen.Toml

open Text

/-! ## Texts -/

/-- What stands for a character after a backslash. -/
def escapes : List (Char × Char) :=
  [('0', '\x00'), ('b', '\x08'), ('f', '\x0c'), ('n', '\n'), ('r', '\r'), ('t', '\t'), ('"', '"')]

/-- Characters after the closing quote are refused. The parts are those between quotes; the empty
ones in front of a text in triple quotes have been taken away. -/
def closesOnce (triple : Bool) : (quotes : Nat) → (closed : Bool) → List Chars → Bool
  | _, _, [] => true
  | quotes, closed, part :: parts =>
    if part.isEmpty then
      if triple then closesOnce triple (quotes + 1) closed parts
      else closesOnce triple quotes true parts
    else if endsEscaped part then closesOnce triple quotes closed parts
    else if closed then false
    else if !triple || quotes > 1 then closesOnce triple quotes true parts
    else closesOnce triple 0 closed parts

/-- Every part after a backslash starts with a known escape. An empty part is a second backslash,
which makes the next part plain. -/
def escapesKnown : (plain : Bool) → List Chars → Bool
  | _, [] => true
  | plain, part :: parts =>
    match part with
    | [] => escapesKnown (!plain) parts
    | c :: _ =>
      (plain || (escapes.lookup c).isSome || c == 'u' || c == 'U') && escapesKnown false parts

/-- The character of a code in hexadecimal digits. A code that starts with the digit of the halves
of pairs must not be one of them. -/
def codePoint (digits : Chars) : Except Fault Char :=
  match digits, Numeral.natural? 16 digits with
  | [], _ => .error .pastEnd
  | _, none => .error .malformed
  | ['d'], _ => .error .pastEnd
  | first :: rest, some n =>
    if first == 'd' && rest.head?.any (fun c => !(decide ('0' ≤ c) && decide (c ≤ '7'))) then
      .error .malformed
    else if 0x80000000 ≤ n then .error .tooLarge
    else if 0x110000 ≤ n then .error .malformed
    else .ok (ofCode n)

/-- Replaces codes of a width after a mark. A mark behind an odd number of backslashes is kept. -/
def replaceCodes (mark : Chars) (width : Nat) :
    (kept : Bool) → Chars → List Chars → Except Fault Chars
  | _, done, [] => .ok done
  | true, done, part :: parts =>
    replaceCodes mark width (endsEscaped part) (done ++ mark ++ part) parts
  | false, done, part :: parts => do
    let c ← codePoint ((part.take width).map Char.toLower)
    replaceCodes mark width false (done ++ [c] ++ part.drop width) parts

/-- Replaces all codes after a mark. -/
def withCodes (mark : Chars) (width : Nat) (cs : Chars) : Except Fault Chars :=
  match split mark cs with
  | [] => .ok cs
  | first :: parts =>
    if parts.isEmpty then .ok cs else replaceCodes mark width (endsEscaped first) first parts

/-- Replaces escapes of one character. Marks of codes that were kept stay. -/
def withEscapes : Chars → Except Fault Chars
  | '\\' :: c :: cs =>
    match escapes.lookup c with
    | some e => do return e :: (← withEscapes cs)
    | none =>
      if c == '\\' then do return '\\' :: (← withEscapes cs)
      else if c == 'u' || c == 'U' then do return '\\' :: c :: (← withEscapes cs)
      else .error .malformed
  | c :: cs => do return c :: (← withEscapes cs)
  | [] => .ok []

/-- A text with its quotes. -/
def readText (quote : Char) (cs : Chars) : Except Fault String := do
  let parts := split [quote] cs.tail
  let (triple, parts) := match parts with
    | [] :: [] :: rest => (true, rest)
    | _ => (false, parts)
  if !closesOnce triple 0 false parts then throw .malformed
  let cs ←
    if quote == '"' then do
      if !escapesKnown false (split ['\\'] cs).tail then throw .malformed
      withEscapes (← withCodes ['\\', 'U'] 8 (← withCodes ['\\', 'u'] 4 cs))
    else pure cs
  let doubled := match cs with
    | _ :: b :: rest => b == quote && rest.head?.all (· == b)
    | _ => false
  let cs := if doubled then (cs.drop 2).dropLast.dropLast else cs
  return String.ofList (inner cs)

/-! ## Dates -/

/-- The date that a text is, if it is one. A date has a hyphen after its first character. -/
def date? (cs : Chars) : Except Fault (Option Moment) :=
  match if 19 < cs.length then suffix? (cs.drop 19) else some (0, none) with
  | none => .error .tooLarge
  | some (micro, zone) => .ok (if cs.tail.contains '-' then Moment.at? cs micro zone else none)

/-! ## Numbers -/

/-- Leading zeros are allowed before a point or a mark of the base, underscores not at an end, next
to a point or in pairs. -/
def strictNumber (cs : Chars) : Bool :=
  match strip cs with
  | [] => false
  | first :: rest =>
    let cs := first :: rest
    if first == '_' || cs.getLast? == some '_' then false
    else if count ['_', '.'] cs != 0 || count ['.', '_'] cs != 0 then false
    else match rest with
      | [] => true
      | second :: _ =>
        if first == '0' && !(['.', 'o', 'b', 'x'].contains second) then false
        else
          let digits := if first == '+' || first == '-' then rest else cs
          let zeroAhead := (first == '+' || first == '-') && match rest with
            | '0' :: c :: _ => c != '.'
            | _ => false
          !zeroAhead && count ['_', '_'] digits == 0

/-- A number. With a point or an exponent it is real; a real has digits before the point and
something after it. -/
def readNumber (cs : Chars) : Except Fault Value :=
  let (negative, cs) := Numeral.sign cs
  let cs := Numeral.withoutUnderscores cs
  let lower := cs.map Char.toLower
  let real (cs : Chars) : Except Fault Value :=
    match Numeral.real? cs with
    | some x => .ok (.real (if negative then 0.0 - x else x))
    | none => .error .malformed
  if cs.contains '.' || (!cs.contains 'x' && lower.contains 'e') then
    if cs.contains '.' && (cs.dropWhile (· != '.')).tail.isEmpty then .error .malformed
    else if !(cs.head?.any Char.isDigit) then .error .malformed
    else real cs
  else if lower == ['i', 'n', 'f'] || lower == ['n', 'a', 'n'] then real cs
  else match Numeral.integer? cs with
    | some n => .ok (.integer (if negative then -n else n))
    | none => .error .malformed

/-- A value without parts that is no text. -/
def readPlain (cs : Chars) (strict : Bool) : Except Fault Value :=
  let word := cs.map Char.toLower
  if cs.isEmpty then .error .malformed
  else if cs == "true".toList then .ok (.flag true)
  else if cs == "false".toList then .ok (.flag false)
  else if word == "true".toList || word == "false".toList then .error .malformed
  else if startsLikeTime cs then
    match Clock.ofText? cs with
    | some c => .ok (.time c)
    | none => .error .malformed
  else do
    match ← date? cs with
    | some m => return .date m
    | none => if strict then readNumber cs else throw .malformed

end LatticeGreen.Toml

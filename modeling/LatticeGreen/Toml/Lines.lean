import LatticeGreen.Text
import LatticeGreen.Text.WordCharacter
import LatticeGreen.Toml.Value

/-!
# The lines of a document

One pass over the characters blanks comments, joins the lines of an array and checks the names of
fields. What is left can be read line by line; only a text in triple quotes still spans lines.
-/
namespace LatticeGreen.Toml

open Text

/-- Where in a line a character stands. In a name, `ended` tells that a space or quote has closed
its latest part and `dotted` that it has several parts. -/
inductive Place where
  | start
  | header (double : Bool)
  | name (ended dotted : Bool)
  | value
  deriving DecidableEq, Repr

/-- The state of the pass: the characters so far, last first, the quote of the text that is open,
whether a text in triple quotes is open, and the number of open brackets. -/
structure Pass where
  done : Chars
  place : Place
  quote : Option Char
  triple : Bool
  depth : Int
  comment : Bool

namespace Pass

/-- A document is read as a ring: before its first character stands its last one. -/
def initial (document : Chars) : Pass := ⟨document.reverse, .start, none, false, 0, false⟩

def push (s : Pass) (c : Char) : Pass := { s with done := c :: s.done }

/-- The character before, or another one before that. -/
def before (s : Pass) (n : Nat) : Option Char := s.done[n]?

/-- The two characters before are this quote. -/
def afterTwo (s : Pass) (q : Char) : Bool := s.before 0 == some q && s.before 1 == some q

/-- A quote opens or closes a text; the third in a row opens or closes one in triple quotes. -/
def toggle (s : Pass) (q : Char) : Pass :=
  if s.afterTwo q then { s with triple := !s.triple, quote := if s.triple then none else some q }
  else { s with quote := if s.quote.isSome then none else some q }

/-- A double quote after an odd number of backslashes is part of the text. -/
def escaped (s : Pass) : Bool :=
  let ahead := if s.afterTwo '"' then s.done.drop 2 else s.done
  (s.afterTwo '"' || s.before 0 != some '"') && startsEscaped ahead

def readQuote (s : Pass) (c : Char) : Pass :=
  if c == '\'' && s.quote != some '"' then s.toggle c
  else if c == '"' && s.quote != some '\'' then
    if s.escaped then s else s.toggle c
  else s

def inHeader (s : Pass) : Bool :=
  match s.place with
  | .header _ => true
  | _ => false

/-- Brackets open and close a header at the start of a line, and arrays elsewhere. -/
def readBracket (s : Pass) (c : Char) (next : Option Char) : Pass :=
  if s.quote.isSome then s
  else if c == '[' && !s.inHeader then
    if s.place = .start then { s with place := .header (next == some '[') }
    else { s with depth := s.depth + 1 }
  else if c == ']' then
    match s.place with
    | .header false => { s with place := .value }
    | .header true => if s.before 0 == some ']' then { s with place := .value } else s
    | _ => { s with depth := s.depth - 1 }
  else s

/-- A line end. In a text in triple quotes it is kept, unless the quotes have just been opened; in
an array it is a space. A header that stays open is not refused before its line is read. -/
def readLineEnd (s : Pass) : Except Fault Pass :=
  if s.quote.isSome || s.triple then
    if !s.triple then .error .malformed
    else match s.done with
      | a :: b :: c :: rest =>
        if (a == '\'' || a == '"') && b == a then
          .ok { s with done := a :: a :: b :: (if c == a then ' ' else c) :: rest }
        else .ok (s.push '\n')
      | _ => .ok (s.push '\n')
  else if s.depth != 0 then .ok (s.push ' ')
  else if s.inHeader then .ok (s.push '\n')
  else .ok { s.push '\n' with place := .start }

/-- A character outside names. -/
def readPlain (s : Pass) (c : Char) (next : Option Char) : Except Fault Pass :=
  let opening := s.place = .start
  let s := s.readQuote c
  if c == '#' && s.quote.isNone && !s.inHeader then .ok { s.push ' ' with comment := true }
  else
    let s := s.readBracket c next
    if c == '\n' then s.readLineEnd
    else if opening && c != ' ' && c != '\t' then
      if s.inHeader then .ok (s.push c)
      else if c == '=' then .error .malformed
      else .ok { s.push c with place := .name false false }
    else .ok (s.push c)

/-- A name goes on after a dot or a space if another part follows at once. -/
def reopened : (next : Option Char) → Except Fault Place
  | some n => .ok (.name (isBlank n || n == '.') true)
  | none => .error .pastEnd

/-- A character of a name. A name has letters, digits, `_` and `-`, or is quoted, and a quote after
an odd number of backslashes is part of it; it ends at the equality sign. -/
def readName (s : Pass) (ended dotted : Bool) (c : Char) (next : Option Char) :
    Except Fault Pass :=
  let kept (place : Place) : Except Fault Pass := .ok { s.push c with place }
  let close : Except Fault Pass := if c == '=' then kept .value else .error .malformed
  if c == '\n' then .error .malformed
  else match s.quote with
    | some q =>
      if c == q && !startsEscaped s.done then
        .ok { s.push c with place := .name true dotted, quote := none }
      else .ok (s.push c)
    | none =>
      if ended then
        if isBlank c then (if dotted then reopened next else .ok s.place) >>= kept
        else if c == '.' then reopened next >>= kept
        else close
      else if isBlank c then kept (.name true dotted)
      else if c == '.' then kept (.name false true)
      else if isWordChar c || c == '_' || c == '-' then .ok (s.push c)
      else if dotted && s.before 0 == some '.' && (c == '"' || c == '\'') then
        .ok { s.push c with quote := some c }
      else close

def read (s : Pass) (c : Char) (next : Option Char) : Except Fault Pass :=
  if s.comment && c != '\n' then .ok (s.push ' ')
  else
    let s := { s with comment := false }
    match s.place with
    | .name ended dotted => s.readName ended dotted c next
    | _ => s.readPlain c next

def run (s : Pass) : Chars → Except Fault Pass
  | [] => .ok s
  | c :: cs => do (← s.read c cs.head?).run cs

end Pass

/-- Every line end as one character. -/
def withPlainLineEnds : Chars → Chars
  | '\r' :: '\n' :: cs => '\n' :: withPlainLineEnds cs
  | '\r' :: cs => '\n' :: withPlainLineEnds cs
  | c :: cs => c :: withPlainLineEnds cs
  | [] => []

/-- The lines of a document, without comments. -/
def lines (document : Chars) : Except Fault (List Chars) := do
  let cs := withPlainLineEnds document
  let s ← (Pass.initial cs).run cs
  match s.place, s.quote with
  | .name .., _ => .error .malformed
  | _, some _ => .error .malformed
  | _, none => return split ['\n'] (s.done.reverse.drop cs.length)

end LatticeGreen.Toml

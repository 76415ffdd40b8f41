import LatticeGreen.Toml.Scalar

/-!
# Values and assignments

A value is a scalar, an array or an inline table; an assignment is a name, an equality sign and a
value. The nesting of values is bounded.
-/
namespace LatticeGreen.Toml

open Text

/-! ## Assignments -/

/-- The stretches of a text between quotes. -/
def betweenQuotes (cs : Chars) : List Chars :=
  let doubles := split ['"'] cs
  match doubles with
  | first :: rest =>
    if !rest.isEmpty && first.contains '\'' then
      let (singles, rest) := joinInside (split ['\''] first) rest
      singles ++ tailStretches rest
    else tailStretches doubles
  | [] => []
where
  /-- Takes double quotes inside single ones for plain characters. -/
  joinInside (singles : List Chars) : List Chars → List Chars × List Chars
    | [] => (singles, [])
    | next :: rest =>
      if singles.length % 2 == 0 then
        let last := (singles.getLast?.getD []) ++ '"' :: next
        let parts := if last.contains '\'' then split ['\''] last else [last]
        joinInside (singles.dropLast ++ parts) rest
      else (singles, next :: rest)
  tailStretches : List Chars → List Chars
    | [] => []
    | first :: rest => split ['\''] first ++ rest

/-- The number of separators up to the first one outside quotes. -/
def separatorsBefore (sep : Chars) : (quoted : Bool) → List Chars → Nat
  | _, [] => 0
  | quoted, part :: parts =>
    if !quoted && count sep part != 0 then 0
    else count sep part + separatorsBefore sep (!quoted) parts

/-- The parts of a dotted name. -/
def nameParts (name : Chars) : List Chars :=
  if name.contains '"' || name.contains '\'' then go false (betweenQuotes name)
  else split ['.'] name
where
  go (quoted : Bool) : List Chars → List Chars
    | [] => []
    | part :: parts =>
      (if quoted then [part] else (split ['.'] part).map strip) ++ go (!quoted) parts

/-- The path and the last name that a name stands for. In a quoted name escapes are replaced, unless
it has dots. -/
def readName (name : Chars) : Except Fault (List String × String) :=
  if name.contains '.' then
    match (nameParts name).reverse.dropWhile List.isEmpty with
    | [] => .error .pastEnd
    | last :: path =>
      .ok (((path.filter (!·.isEmpty)).reverse).map String.ofList, String.ofList (strip last))
  else
    let quoted := name.head? == name.getLast? &&
      (name.head? == some '"' || name.head? == some '\'')
    if quoted then do return ([], String.ofList (← withEscapes (inner name)))
    else .ok ([], String.ofList name)

/-- A value that needs no further look at where it starts. -/
def standsAlone (cs : Chars) : Except Fault Bool :=
  match cs with
  | [] => .ok true
  | c :: _ =>
    if [' ', '\t', '\'', '"', '[', '\x7b'].contains c || strip cs == "true".toList ||
        strip cs == "false".toList || (Numeral.real? cs).isSome then .ok true
    else do return (← date? cs).isSome || startsLikeTime cs

/-- Moves equality signs from the value to the name until the value can stand alone. The flag tells
whether the number rules hold of every value on the way. -/
def settleValue (line : Chars) : (budget : Nat) → (n : Nat) → Chars → Bool →
    Except Fault (List Chars × Bool)
  | 0, _, _, _ => .error .malformed
  | budget + 1, n, value, strict => do
    if ← standsAlone value then return ((splitAtMost n ['='] line).dropLast ++ [value], strict)
    let next := (splitAtMost (n + 1) ['='] line).getLast?.getD []
    if next == value then throw .malformed
    settleValue line budget (n + 1) next (strict && strictNumber next)

/-- An assignment taken apart. -/
structure Assignment where
  path : List String
  name : String
  value : Chars
  strict : Bool

/-- A number with underscores is read without them. -/
def plainNumber (value : Chars) : Chars :=
  if value.head?.any Char.isDigit then Numeral.withoutUnderscores value else value

/-- Splits a line at the equality sign after its name. -/
def readAssignment (line : Chars) : Except Fault Assignment := do
  let n := 1 + separatorsBefore ['='] false (betweenQuotes line)
  let value := (splitAtMost n ['='] line).getLast?.getD []
  let (parts, strict) ←
    settleValue line (line.length + 1) n (plainNumber value) (strictNumber value)
  let name := strip (join ['='] parts.dropLast)
  if name.isEmpty then throw .pastEnd
  let (path, last) ← readName name
  return ⟨path, last, strip (parts.getLast?.getD []), strict⟩

/-! ## Arrays -/

/-- An array of texts starts with a quote. -/
def startsWithText (cs : Chars) : Bool :=
  match strip (inner cs) with
  | '"' :: _ => true
  | '\'' :: _ => true
  | _ => false

/-- The last character closes the text that the first one opens. -/
def isBounded (cs : Chars) : Bool :=
  match cs with
  | [] => true
  | [_] => true
  | c :: _ => cs.getLast? == some c && !endsEscaped cs.tail.dropLast

/-- Three quotes open a text that the last three characters do not close. -/
def isOpenTriple (cs : Chars) : Bool :=
  match cs with
  | a :: b :: c :: _ =>
    match cs.reverse with
    | _ :: y :: x :: _ => a == b && b == c && y != a && x != a
    | _ => false
  | _ => false

/-- Joins the pieces of an array whose commas stand inside texts. -/
def joinTexts : List Chars → Except Fault (List Chars)
  | [] => .ok []
  | [piece] => .ok [piece]
  | piece :: next :: pieces =>
    let stripped := strip piece
    if isBounded stripped && !isOpenTriple stripped then do
      return piece :: (← joinTexts (next :: pieces))
    else if pieces.isEmpty then
      let joined := strip (piece ++ ',' :: next)
      if isBounded joined && !isOpenTriple joined then .ok [piece ++ ',' :: next]
      else .error .pastEnd
    else joinTexts ((piece ++ ',' :: next) :: pieces)
termination_by pieces => pieces.length

/-- The inline tables of an array, from brace to brace. -/
def tablePieces : (depth : Nat) → (quoted : Bool) → Chars → Chars → List Chars
  | _, _, _, [] => []
  | 0, quoted, _, c :: cs =>
    if c == '\x7b' then tablePieces 1 false [c] cs else tablePieces 0 quoted [] cs
  | depth + 1, quoted, done, c :: cs =>
    let quoted := if c == '"' || c == '\'' then !(quoted && !endsEscaped done.reverse) else quoted
    if quoted then tablePieces (depth + 1) quoted (c :: done) cs
    else if c == '\x7b' then tablePieces (depth + 2) quoted (c :: done) cs
    else if c == '\x7d' then
      if depth = 0 then (c :: done).reverse :: tablePieces 0 false [] cs
      else tablePieces depth quoted (c :: done) cs
    else tablePieces (depth + 1) quoted (c :: done) cs

/-- The pieces of an array of arrays, cut at commas outside brackets. -/
def nestedPieces (depth : Int) : Chars → List Chars
  | [] => [[]]
  | c :: cs =>
    let depth := if c == '[' then depth + 1 else if c == ']' then depth - 1 else depth
    if c == ',' && depth == 0 then [] :: nestedPieces depth cs
    else consFirst c (nestedPieces depth cs)

/-- The pieces between the commas of an array. -/
def arrayPieces (cs : Chars) : Except Fault (List Chars) :=
  let cs := strip cs
  let inside := inner cs
  let nested := inside.contains '[' && (strip (inside.takeWhile (· != '['))).isEmpty
  if nested then .ok (nestedPieces 0 inside)
  else
    let pieces :=
      if (strip inside).head? == some '\x7b' then tablePieces 0 false [] inside
      else split [','] inside
    if startsWithText cs then joinTexts pieces else .ok pieces

/-! ## Inline tables -/

/-- The value of a piece of an inline table is whole. -/
def isWhole (value : Chars) : Bool :=
  let ends (a b : Char) := value.head? == some a && value.getLast? == some b
  ends '"' '"' || ends '\'' '\'' || value.head?.any (fun c => c == '-' || c.isDigit) ||
    value == "true".toList || value == "false".toList || ends '[' ']' || ends '\x7b' '\x7d'

/-- Joins the pieces of an inline table whose commas stand inside values. -/
def joinFields : List Chars → Except Fault (List Chars)
  | [] => .ok []
  | piece :: pieces =>
    match splitAtMost 1 ['='] piece with
    | [_, value] =>
      let value := strip value
      if value.isEmpty then .error .pastEnd
      else if isWhole value then do return piece :: (← joinFields pieces)
      else match pieces with
        | next :: rest => joinFields ((piece ++ ',' :: next) :: rest)
        | [] => .error .malformed
    | _ => .error .malformed
termination_by pieces => pieces.length

/-- The assignments of an inline table. -/
def tableFields (cs : Chars) : Except Fault (List Chars) :=
  match split [','] (inner cs) with
  | [only] => if (strip only).isEmpty then .ok [] else joinFields [only]
  | pieces => joinFields pieces

/-! ## Texts that stay open -/

/-- The last piece of an array of texts that is not closed in its line. A comma before anything but
a quote does not separate. -/
def lastPiece : (pieces : List Chars) → Except Fault Chars
  | [] => .ok []
  | [piece] => .ok piece
  | [] :: _ :: _ => .error .pastEnd
  | (c :: piece) :: before :: pieces =>
    if c == '"' || c == '\'' then .ok (c :: piece)
    else lastPiece ((before ++ ',' :: c :: piece) :: pieces)
termination_by pieces => pieces.length

/-- A text in triple quotes that is not closed in its line. -/
def staysOpenText (cs : Chars) : Except Fault Bool :=
  match cs with
  | [] => .error .pastEnd
  | a :: rest =>
    if !(a == '"' || a == '\'') then .ok false
    else match rest with
      | [] => .error .pastEnd
      | b :: rest =>
        if b != a then .ok false
        else match rest with
          | [] => .error .pastEnd
          | c :: _ =>
            .ok (c == a && !(5 < cs.length && (cs.reverse.take 3).all (· == a)))

/-- A text that is not closed in its line: a value of its own, or the last one of an array of
texts. -/
def staysOpen (cs : Chars) : Except Fault Bool :=
  if cs.length < 3 then .ok false
  else if cs.head? == some '[' && cs.getLast? != some ']' && startsWithText cs then do
    staysOpenText (← lastPiece (split [','] (strip cs.tail)).reverse)
  else staysOpenText cs

/-! ## Values -/

/-- Adds a value to an array of one kind of values. -/
def appendKind (items : List Value) (v : Value) : Except Fault (List Value) :=
  match items with
  | [] => .ok [v]
  | first :: _ => if v.sameKind first then .ok (items ++ [v]) else .error .malformed

/-- The text that an assignment leaves open, with the name it belongs to. -/
structure Opened where
  name : String
  text : Chars

/-- Carries out an assignment on a table. -/
def Value.take (readValue : Chars → Bool → Except Fault Value) (target : Value)
    (line : Chars) : Except Fault (Value × Option Opened) := do
  let a ← readAssignment line
  let read : Except Fault (Option Value) := do
    if ← staysOpen a.value then return none else return some (← readValue a.value a.strict)
  let (target, opened) ← target.assign a.name read a.path
  return (target, if opened then some ⟨a.name, a.value⟩ else none)

/-- Carries out assignments one after another, up to one that leaves a text open. -/
def Value.takeAll (readValue : Chars → Bool → Except Fault Value) :
    (lines : List Chars) → Value → Except Fault Value
  | [], target => .ok target
  | line :: lines, target => do
    let (target, opened) ← target.take readValue line
    if opened.isSome then return target else takeAll readValue lines target

/-- How deeply values may be nested: an array counts as two levels, an inline table as three. -/
def maxNesting : Nat := 985

/-- Reads a value within a number of levels. -/
def readValue : (levels : Nat) → Chars → (strict : Bool) → Except Fault Value
  | levels + 3, cs, strict =>
    match cs with
    | '"' :: _ => do return .text (← readText '"' cs)
    | '\'' :: _ => do return .text (← readText '\'' cs)
    | '[' :: _ => do
      let pieces := (← arrayPieces cs).map strip
      let items ← (pieces.filter (!·.isEmpty)).foldlM
        (fun items piece => do appendKind items (← readValue (levels + 1) piece true)) []
      return .array items
    | '\x7b' :: _ => do (Value.table []).takeAll (readValue levels) (← tableFields cs)
    | _ => readPlain cs strict
  | _, _, _ => .error .tooDeep

/-- Reads a value. -/
def value (cs : Chars) (strict : Bool) : Except Fault Value := readValue maxNesting cs strict

end LatticeGreen.Toml

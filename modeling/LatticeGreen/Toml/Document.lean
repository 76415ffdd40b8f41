import LatticeGreen.Toml.Lines
import LatticeGreen.Toml.Reader

/-!
# Documents

A document is read line by line. A header opens a table, or a new element of an array of tables;
the assignments after it belong to that table. A table that was opened on the way to another one
may be opened by name once.
-/
namespace LatticeGreen.Toml

open Text

/-! ## Headers -/

/-- The names of a header and whether it opens an element of an array. -/
structure Header where
  names : List String
  double : Bool

/-- A name without quotes has letters, digits, `_` and `-`. -/
def isBareName (cs : Chars) : Bool :=
  !cs.isEmpty && cs.all fun c => (c.toNat < 128 && c.isAlphanum) || c == '_' || c == '-'

/-- The quote at the start of a name is also at its end. -/
def isQuotedName (cs : Chars) : Bool := 1 < cs.length && cs.head? == cs.getLast?

/-- The names of a header, given its parts between dots. A part that opens a quote is joined with
those after it up to the closing quote; the quotes are taken away. -/
def headerNames : (quoted : Option Chars) → (parts : List Chars) → Except Fault (List String)
  | none, [] => .ok []
  | some _, [] => .error .malformed
  | none, part :: parts =>
    let name := strip part
    if name.head? == some '"' || name.head? == some '\'' then
      if isQuotedName name then do return String.ofList (inner name) :: (← headerNames none parts)
      else headerNames (some name) parts
    else if isBareName name then do return String.ofList name :: (← headerNames none parts)
    else .error .malformed
  | some start, part :: parts =>
    let joined := start ++ '.' :: part
    if isQuotedName (strip joined) then do
      return String.ofList (inner (strip joined)) :: (← headerNames none parts)
    else headerNames (some joined) parts

/-- Reads a header. Nothing may follow its closing bracket. -/
def readHeader (line : Chars) : Except Fault Header := do
  let rest := line.tail
  let double := rest.head? == some '['
  let text := if double then rest.tail else rest
  let closing := if double then [']', ']'] else [']']
  let n := 1 + separatorsBefore closing false (betweenQuotes text)
  let parts := splitAtMost n closing text
  if parts.length < n + 1 || !(strip (parts.getLast?.getD [])).isEmpty then throw .malformed
  return ⟨← headerNames none (split ['.'] (join closing parts.dropLast)), double⟩

/-! ## Tables -/

/-- A step from a value to one of its parts. -/
inductive Step where
  | field (name : String)
  /-- The last element of an array. -/
  | last
  deriving DecidableEq, Repr

/-- Changes the part of a value that a list of steps leads to, and answers what the change does. A
step that cannot be made stays. -/
def Value.changeAt {α : Type} (change : Value → Except Fault (Value × α)) :
    (steps : List Step) → Value → Except Fault (Value × α)
  | .field name :: steps, .table fields => do
    let child := (Table.get? fields name).getD (.table [])
    let (child, answer) ← changeAt change steps child
    return (.table (Table.set fields name child), answer)
  | .last :: steps, .array items =>
    match items.getLast? with
    | some last => do
      let (last, answer) ← changeAt change steps last
      return (.array (items.dropLast ++ [last]), answer)
    | none => .error .pastEnd
  | _, v => change v

/-- A value after a header has opened its table below: the steps to that table, and the names that
were opened on the way to other tables so far. -/
structure Opening where
  value : Value
  steps : List Step
  opened : List String

/-- The value of the field that a header opens for the last of its names. -/
def freshTable (double : Bool) : Value := if double then .array [.table []] else .table []

/-- The field that a header finds or opens. The last name of a header must be new, unless it was
opened on the way to another table or names an array that gets one more element. -/
def childFor (double last : Bool) (opened : List String) (name : String) (fields : Table) :
    Except Fault (Value × List String) :=
  match fields.get? name with
  | none => .ok (if last then (freshTable double, opened) else (.table [], opened ++ [name]))
  | some v =>
    if !last then .ok (v, opened)
    else if opened.contains name then
      if double then .error .malformed else .ok (v, opened.erase name)
    else if !double then .error .malformed
    else match v with
      | .array items => .ok (.array (items ++ [.table []]), opened)
      | _ => .error .notAnArray

/-- A header that opens an element of an array goes on from the last part of each array or text. -/
def descend (double : Bool) (below : Value → Except Fault Opening) (v : Value) :
    Except Fault Opening :=
  match double, v with
  | true, .array items =>
    match items.getLast? with
    | some last => do
      let found ← below last
      return { found with
        value := .array (items.dropLast ++ [found.value]), steps := .last :: found.steps }
    | none => .error .pastEnd
  | true, .text s =>
    match s.toList.getLast? with
    | some c => do
      let found ← below (.text (String.singleton c))
      return { found with value := v, steps := .last :: found.steps }
    | none => .error .pastEnd
  | true, .table _ => below v
  | true, _ => .error .notATable
  | false, _ => below v

/-- Opens the table with a list of names below a value. In an array of tables its last element is
meant. -/
def openTable (double : Bool) : (names : List String) → (opened : List String) → Value →
    Except Fault Opening
  | [], opened, v => .ok ⟨v, [], opened⟩
  | name :: names, opened, v =>
    let put (fields : Table) (child : Value) (opened : List String) : Except Fault Opening := do
      let found ← descend double (openTable double names opened) child
      return { found with
        value := .table (fields.set name found.value), steps := .field name :: found.steps }
    if name.isEmpty then .error .malformed
    else match v with
    | .table fields => do
      let (child, opened) ← childFor double names.isEmpty opened name fields
      put fields child opened
    | .array items =>
      match items.getLast? with
      | some (.table fields) => do
        let child := (Table.get? fields name).getD (freshTable (double && names.isEmpty))
        let found ← put fields child opened
        return { found with
          value := .array (items.dropLast ++ [found.value]), steps := .last :: found.steps }
      | some _ => .error .notATable
      | none => .error .pastEnd
    | .text s => if s.isEmpty then .error .pastEnd else .error .notATable
    | _ => .error .notATable

/-! ## Lines -/

/-- A text in triple quotes that goes on in the next line. `joined` tells that the line end before
is left out. -/
structure OpenText where
  name : String
  text : Chars
  joined : Bool

/-- What has been read of a document: its tables, the steps to the table that assignments go to,
the names opened on the way to other tables, and an open text. -/
structure Reading where
  root : Value
  current : List Step
  opened : List String
  pending : Option OpenText

namespace Reading

def initial : Reading := ⟨.table [], [], [], none⟩

/-- Changes the current table. -/
def change {α : Type} (r : Reading) (f : Value → Except Fault (Value × α)) :
    Except Fault (Reading × α) := do
  let (root, answer) ← r.root.changeAt f r.current
  return ({ r with root }, answer)

/-- A text up to a line end. A backslash at the end joins the next line. -/
def continued (name : String) (text : Chars) : OpenText :=
  if endsEscaped text then ⟨name, text.dropLast, true⟩ else ⟨name, text ++ ['\n'], false⟩

/-- Reads an assignment. A text that stays open gets its place when it is closed: a field of the
current table, whatever path was written before its name. -/
def readAssignmentLine (r : Reading) (line : Chars) : Except Fault Reading := do
  let (r, opened) ← r.change (·.take value line)
  return { r with pending := opened.map fun o => continued o.name o.text }

/-- The line closes a text: it ends with three of the quotes that the text starts with, or with the
bracket of the array that the text is part of. -/
def closes (text line : Chars) : Except Fault Bool :=
  match text.head?, line.reverse with
  | some '[', [] => .error .pastEnd
  | some '[', c :: _ => .ok (c == ']')
  | some q, a :: b :: c :: _ => .ok (a == q && b == q && c == q)
  | _, _ => .ok false

def readOpenText (r : Reading) (t : OpenText) (line : Chars) : Except Fault Reading := do
  let text := t.text ++ line
  if ← closes text line then
    let v ← value text true
    let (r, _) ← r.change fun target =>
      match target with
      | .table fields => .ok (.table (Table.set fields t.name v), ())
      | _ => .error .malformed
    return { r with pending := none }
  else return { r with pending := some (continued t.name text) }

/-- Reads a line. One without an equality sign that is no header says nothing. -/
def readLine (r : Reading) (line : Chars) : Except Fault Reading := do
  let stripped := strip line
  match r.pending with
  | some t =>
    if t.joined && stripped.isEmpty then return r
    else r.readOpenText t (if t.joined then stripped else line)
  | none =>
    match stripped with
    | [] => return r
    | '[' :: _ =>
      let header ← readHeader stripped
      let found ← openTable header.double header.names r.opened r.root
      return { r with root := found.value, opened := found.opened, current := found.steps }
    | '\x7b' :: _ =>
      if stripped.getLast? != some '\x7d' then throw .malformed
      let lines ← tableFields stripped
      return (← r.change fun target => do return (← target.takeAll value lines, ())).1
    | _ => if stripped.contains '=' then r.readAssignmentLine stripped else return r

end Reading

/-- Reads a document. A text that is still open at its end is left out. -/
def parse (document : String) : Except Fault Table := do
  let r ← (← lines document.toList).foldlM Reading.readLine Reading.initial
  match r.root with
  | .table fields => return fields
  | _ => throw .malformed

end LatticeGreen.Toml

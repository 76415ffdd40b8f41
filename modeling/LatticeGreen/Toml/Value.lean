import LatticeGreen.Toml.Date

/-!
# Values of a document

A document is a table of values. Fields keep the order in which they were written, and a name is
given once.
-/
namespace LatticeGreen.Toml

/-- Why a document cannot be read. -/
inductive Fault where
  /-- The text is not a document. -/
  | malformed
  /-- A value that is no table is used as one. -/
  | notATable
  /-- Something is looked for past the end of a text or list. -/
  | pastEnd
  /-- A table is extended as if it were an array of tables. -/
  | notAnArray
  /-- A text that goes on in the next line has no name to be kept under. -/
  | nameless
  /-- A number is larger than any machine number, or than any code of a character. -/
  | tooLarge
  /-- Arrays and tables are nested too deeply. -/
  | tooDeep
  deriving DecidableEq, Repr

inductive Value where
  | text (s : String)
  | integer (n : Int)
  | real (x : Float)
  | flag (b : Bool)
  | date (m : Moment)
  | time (c : Clock)
  | array (items : List Value)
  | table (fields : List (String × Value))
  deriving Inhabited, Repr

abbrev Table := List (String × Value)

namespace Value

/-- Both values are of one kind. -/
def sameKind : Value → Value → Bool
  | text _, text _ => true
  | integer _, integer _ => true
  | real _, real _ => true
  | flag _, flag _ => true
  | date _, date _ => true
  | time _, time _ => true
  | array _, array _ => true
  | table _, table _ => true
  | _, _ => false

end Value

namespace Table

def get? (t : Table) (name : String) : Option Value := t.lookup name

/-- Replaces the value of a field, or puts a new field at the end. -/
def set (t : Table) (name : String) (v : Value) : Table :=
  match t with
  | [] => [(name, v)]
  | (n, w) :: rest => if n = name then (n, v) :: rest else (n, w) :: set rest name v

@[simp] theorem get?_set_self (t : Table) (name : String) (v : Value) :
    (t.set name v).get? name = some v := by
  induction t with
  | nil => simp [set, get?]
  | cons field rest ih =>
    obtain ⟨n, w⟩ := field
    by_cases h : n = name
    · simp [set, get?, h]
    · have hn : (name == n) = false := by simp [Ne.symm h]
      simpa [set, get?, h, List.lookup_cons, hn] using ih

theorem get?_set_ne (t : Table) {name other : String} (v : Value) (h : other ≠ name) :
    (t.set name v).get? other = t.get? other := by
  have hne : (other == name) = false := by simp [h]
  induction t with
  | nil => simp [set, get?, List.lookup_cons, hne]
  | cons field rest ih =>
    obtain ⟨n, w⟩ := field
    by_cases hn : n = name
    · subst hn
      simp [set, get?, List.lookup_cons, hne]
    · simp only [get?] at ih
      simp [set, get?, List.lookup_cons, hn, ih]

/-- The table, unless it has a field of the name. -/
def requireNew (t : Table) (name : String) : Except Fault Table :=
  if (t.get? name).isSome then .error .malformed else .ok t

/-- Adds a field. A name that is taken is refused. -/
def insert (t : Table) (name : String) (v : Value) : Except Fault Table := do
  return (← t.requireNew name).set name v

end Table

/-- Puts a value under a name in the table at the end of a path, opening tables on the way. What is
read may instead be a text that stays open, for which the name must be free. A path through
something that is no table is refused; if only its end is none, after the faults of what is read.
The second component tells whether a text stays open. -/
def Value.assign (name : String) (read : Except Fault (Option Value)) :
    (path : List String) → Value → Except Fault (Value × Bool)
  | [], .table fields => do
    match ← read with
    | some v => return (.table (← Table.insert fields name v), false)
    | none =>
      let fields ← Table.requireNew fields name
      if name.isEmpty then throw .nameless
      return (.table fields, true)
  | step :: path, .table fields => do
    let inner := (Table.get? fields step).getD (.table [])
    let (inner, stays) ← assign name read path inner
    return (.table (Table.set fields step inner), stays)
  | [], _ => do
    let _ ← read
    throw .malformed
  | _ :: _, _ => throw .notATable

end LatticeGreen.Toml

import LatticeGreen.Failure
import LatticeGreen.Numeral
import LatticeGreen.RealArray
import LatticeGreen.Toml.Value

/-!
# Numbers in documents

A number may be written as an integer, a real, a truth value or a text that spells it. Dates, times,
arrays and tables are no numbers.
-/
namespace LatticeGreen.Toml

/-- The field of a name that must be there. -/
def Table.require (t : Table) (name : String) : Except (Failure Float) Value :=
  (t.get? name).elim (.error (.missingKey name)) .ok

namespace Value

/-- The text of a date whose offset exists. -/
def dateText (m : Moment) : Except (Failure Float) String :=
  if m.offsetExists then .ok m.text else .error .impossibleOffset

/-- The number that a value was written as, unless it was written as a text. -/
def quantity? : Value → Option (Quantity Float)
  | integer n => some (.integer n)
  | real x => some (.real x)
  | flag b => some (.flag b)
  | _ => none

def ofQuantity : Quantity Float → Value
  | .integer n => integer n
  | .real x => real x
  | .flag b => flag b

@[simp] theorem quantity?_ofQuantity (q : Quantity Float) : (ofQuantity q).quantity? = some q := by
  cases q <;> rfl

/-- The machine number nearest to a quantity. -/
def nearestTo (q : Quantity Float) : Except (Failure Float) Float :=
  match q with
  | .integer n =>
    let x : Float := n
    if x.isInf then .error .tooLarge else .ok x
  | q => .ok q.toReal

/-- A number that is not written as a text. -/
def plainNumber (v : Value) : Except (Failure Float) Float :=
  v.quantity?.elim (.error .wrongType) nearestTo

def number : Value → Except (Failure Float) Float
  | text s => (Numeral.real? s.toList).elim (.error .notNumeric) .ok
  | v => v.plainNumber

/-- A complex number: a list of a real and an imaginary part, of which the second may be missing, a
text that spells it, or a real number. -/
def complexNumber : Value → Except (Failure Float) (Cartesian Float)
  | array [] => .error .missingComponent
  | array [re] => do return ⟨← re.plainNumber, 0.0⟩
  | array (re :: im :: _) => do return ⟨← re.plainNumber, ← im.plainNumber⟩
  | text s => (Numeral.complex? s.toList).elim (.error .notNumeric) .ok
  | v => do return ⟨← v.plainNumber, 0.0⟩

mutual
/-- The nested list that an array spells. -/
def nested : Value → Nested Value
  | array items => .list (nestedItems items)
  | v => .leaf v

def nestedItems : List Value → List (Nested Value)
  | [] => []
  | item :: items => item.nested :: nestedItems items
end

/-- An array of numbers. Its shape is looked at before its entries. -/
def numbers (v : Value) : Except (Failure Float) (RealArray Float) := do
  let cells ← (RealArray.ofNested? v.nested).elim (.error .shapeMismatch) .ok
  cells.mapM number

/-- The members of an array, the characters of a text or the names of a table. -/
def members : Value → Except (Failure Float) (List Value)
  | array items => .ok items
  | text s => .ok (s.toList.map fun c => text (String.singleton c))
  | table fields => .ok (fields.map fun (name, _) => text name)
  | _ => .error .wrongType

/-- A value holds unless it is false, zero or empty. -/
def holds : Value → Bool
  | text s => !s.isEmpty
  | integer n => n != 0
  | real x => !(x == 0.0)
  | flag b => b
  | date _ | time _ => true
  | array items => !items.isEmpty
  | table fields => !fields.isEmpty

/-- The fields of a table; the failure is that of a value that is none. -/
def fieldsOr (failure : Failure Float) : Value → Except (Failure Float) Table
  | table fields => .ok fields
  | _ => .error failure

end Value

end LatticeGreen.Toml

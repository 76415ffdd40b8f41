/-!
# Rectangular arrays of reals

Points, Bloch vectors and lattice bases arrive as nested lists. A nested list without ragged ends
is an array: a shape, and the entries row by row. The checks on inputs look at shapes only.
-/
namespace LatticeGreen

/-- Reals nested in lists to any depth. -/
inductive Nested (α : Type) where
  | leaf (a : α)
  | list (items : List (Nested α))

/-- An array: its extents, outermost first, and its entries row by row. -/
structure RealArray (R : Type) where
  shape : List Nat
  entries : List R
  size_eq : entries.length = shape.foldr (· * ·) 1
  deriving Repr

namespace RealArray
variable {R : Type}

def scalar (x : R) : RealArray R := ⟨[], [x], rfl⟩

def ofList (xs : List R) : RealArray R := ⟨[xs.length], xs, by simp⟩

/-- Joins arrays of one shape along a new first axis. -/
def stack (shape : List Nat) (rows : List (RealArray R)) (h : ∀ a ∈ rows, a.shape = shape) :
    RealArray R :=
  ⟨rows.length :: shape, rows.flatMap (·.entries), by
    induction rows with
    | nil => simp
    | cons a rows ih =>
      have ha := a.size_eq
      rw [h a (by simp)] at ha
      have ih := ih fun b hb => h b (by simp [hb])
      simp only [List.foldr_cons, List.flatMap_cons, List.length_append, List.length_cons] at ih ⊢
      rw [ih, ha, Nat.succ_mul, Nat.add_comm]⟩

/-- The rows of one shape joined; `none` if two shapes differ. An empty list is one empty axis. -/
def stack? (rows : List (RealArray R)) : Option (RealArray R) :=
  match rows with
  | [] => some (ofList [])
  | first :: rest =>
    if h : ∀ a ∈ first :: rest, a.shape = first.shape then
      some (stack first.shape (first :: rest) h)
    else none

mutual
/-- The array that a nested list of any depth spells; `none` if it is ragged. -/
def assemble? : Nested R → Option (RealArray R)
  | .leaf x => some (scalar x)
  | .list items => do stack? (← assembleItems? items)

def assembleItems? : List (Nested R) → Option (List (RealArray R))
  | [] => some []
  | item :: items => do return (← assemble? item) :: (← assembleItems? items)
end

/-- Deeper arrays are not formed. -/
def maxAxes : Nat := 64

/-- The array a nested list spells; `none` if it is ragged or too deep. -/
def ofNested? (nested : Nested R) : Option (RealArray R) :=
  (assemble? nested).filter fun a => a.shape.length ≤ maxAxes

/-- The array of a shape with the given entries; `none` if their number is another. -/
def ofEntries? (shape : List Nat) (entries : List R) : Option (RealArray R) :=
  if h : entries.length = shape.foldr (· * ·) 1 then some ⟨shape, entries, h⟩ else none

def map {S : Type} (f : R → S) (a : RealArray R) : RealArray S :=
  ⟨a.shape, a.entries.map f, by simp [a.size_eq]⟩

/-- The number of entries at each position of the first axis. -/
def stride (a : RealArray R) : Nat := a.shape.tail.foldr (· * ·) 1

/-- The part at a position of the first axis. -/
def part? (a : RealArray R) (i : Nat) : Option (RealArray R) :=
  ofEntries? a.shape.tail ((a.entries.drop (i * a.stride)).take a.stride)

/-- The first parts along the first axis, up to a number of them. -/
def leading? (a : RealArray R) (n : Nat) : Option (RealArray R) :=
  match a.shape with
  | [] => none
  | m :: shape => ofEntries? (min m n :: shape) (a.entries.take (min m n * a.stride))

/-- The array of the outcomes of a computation on each entry. -/
def mapM {S : Type} {m : Type → Type} [Monad m] (f : R → m S) (a : RealArray R) :
    m (RealArray S) := do
  let entries ← (Vector.mk a.entries.toArray rfl).mapM f
  return ⟨a.shape, entries.toList, by simp [a.size_eq]⟩

/-- The nested list of the array. -/
def toNested (a : RealArray R) : Nested R :=
  go a.shape a.entries
where
  go : List Nat → List R → Nested R
    | [], entries => match entries with
      | x :: _ => .leaf x
      | [] => .list []
    | n :: shape, entries =>
      let size := shape.foldr (· * ·) 1
      .list ((List.range n).map fun i => go shape ((entries.drop (i * size)).take size))

end RealArray

/-- An array with two axes at least: rows, columns and what is nested inside. -/
structure Grid (R : Type) where
  rows : Nat
  columns : Nat
  inner : List Nat
  entries : List R
  size_eq : entries.length = rows * (columns * inner.foldr (· * ·) 1)
  deriving Repr

namespace Grid
variable {R : Type}

def shape (g : Grid R) : List Nat := g.rows :: g.columns :: g.inner

/-- Number of entries at one row and column. -/
def depth (g : Grid R) : Nat := g.inner.foldr (· * ·) 1

def toArray (g : Grid R) : RealArray R := ⟨g.shape, g.entries, by simp [shape, g.size_eq]⟩

/-- The entries of a row. -/
def row (g : Grid R) (i : Nat) : List R :=
  (g.entries.drop (i * (g.columns * g.depth))).take (g.columns * g.depth)

/-- The entries at a row and column. -/
def cell (g : Grid R) (i j : Nat) : List R := ((g.row i).drop (j * g.depth)).take g.depth

theorem length_row (g : Grid R) {i : Nat} (h : i < g.rows) :
    (g.row i).length = g.columns * g.depth := by
  have hsize := g.size_eq
  have hle : (i + 1) * (g.columns * g.depth) ≤ g.rows * (g.columns * g.depth) :=
    Nat.mul_le_mul_right _ h
  rw [Nat.succ_mul] at hle
  simp only [row, List.length_take, List.length_drop, hsize]
  exact Nat.min_eq_left (Nat.le_sub_of_add_le (by rw [Nat.add_comm]; exact hle))

/-- A row as an array of its own. -/
def rowArray (g : Grid R) (i : Nat) (h : i < g.rows) : RealArray R :=
  ⟨g.columns :: g.inner, g.row i, by simp [length_row g h, depth]⟩

/-- All rows, each as an array of its own. -/
def rowArrays (g : Grid R) : List (RealArray R) :=
  List.ofFn fun i : Fin g.rows => g.rowArray i i.isLt

theorem length_flatMap_range (f : Nat → List R) (n size : Nat)
    (h : ∀ i < n, (f i).length = size) : ((List.range n).flatMap f).length = n * size := by
  induction n with
  | zero => simp
  | succ n ih =>
    rw [List.range_succ, List.flatMap_append, List.length_append,
      ih fun i hi => h i (Nat.lt_succ_of_lt hi)]
    simp [h n (Nat.lt_succ_self n), Nat.succ_mul]

/-- The first rows, and of each the first columns. -/
def leading (g : Grid R) (rows columns : Nat) (hr : rows ≤ g.rows) (hc : columns ≤ g.columns) :
    Grid R :=
  { rows, columns, inner := g.inner
    entries := (List.range rows).flatMap fun i => (g.row i).take (columns * g.depth)
    size_eq := length_flatMap_range _ _ _ fun i hi => by
      rw [List.length_take, length_row g (Nat.lt_of_lt_of_le hi hr)]
      exact Nat.min_eq_left (Nat.mul_le_mul_right _ hc) }

end Grid

/-- Extents of one unit in front until there are two axes. -/
def RealArray.atLeast2d {R : Type} (a : RealArray R) : Grid R :=
  match h : a.shape with
  | [] => ⟨1, 1, [], a.entries, by simpa [h] using a.size_eq⟩
  | [n] => ⟨1, n, [], a.entries, by simpa [h] using a.size_eq⟩
  | n :: m :: inner => ⟨n, m, inner, a.entries, by simpa [h] using a.size_eq⟩

end LatticeGreen

/-!
# Shapes of arrays

A shape lists the lengths of the axes of an array, the first axis first; entries are stored with the
last axis running fastest. Two shapes can be broadcast when, aligned at their last axes, any two
lengths agree or one of them is one.
-/

set_option autoImplicit false

namespace QuasiNewton

/-- The lengths of the axes of an array. -/
abbrev Shape := List Nat

namespace Shape

/-- How many entries an array of a shape has. -/
def size : Shape → Nat
  | [] => 1
  | [n] => n
  | n :: m :: rest => n * size (m :: rest)

/-- How many axes a shape has. -/
def rank (s : Shape) : Nat := s.length

/-- A shape in a message: lengths in parentheses, a single one with a comma behind it. -/
def text : Shape → String
  | [] => "()"
  | [n] => "(" ++ toString n ++ ",)"
  | s => "(" ++ ", ".intercalate (s.map toString) ++ ")"

/-- The index on every axis of the entry stored at a place. -/
def unravel : Shape → Nat → List Nat
  | [], _ => []
  | _ :: rest, place => place / size rest :: unravel rest (place % size rest)

/-- The place at which the entry with the given indices is stored; an axis of length one has only the
index zero, whatever is asked. -/
def ravel (s : Shape) (indices : List Nat) : Nat :=
  (s.zip indices).foldl (fun place (length, index) => place * length + if length = 1 then 0 else index) 0

/-- Broadcasting with the last axes first. -/
def broadcastReversed : List Nat → List Nat → Option (List Nat)
  | [], t => some t
  | s, [] => some s
  | n :: s, m :: t =>
    if n = m ∨ m = 1 then (broadcastReversed s t).map (n :: ·)
    else if n = 1 then (broadcastReversed s t).map (m :: ·)
    else none

/-- The shape to which two shapes are broadcast, if they can be. -/
def broadcast (s t : Shape) : Option Shape :=
  (broadcastReversed s.reverse t.reverse).map List.reverse

/-- The place in an array of shape `s` that is shown at a place of the shape `t` it is broadcast
to. -/
def source (s t : Shape) (place : Nat) : Nat :=
  s.ravel ((t.unravel place).drop (t.rank - s.rank))

/-- The axis along which a right-hand factor is contracted: its only axis, or the last but one. -/
def contracted : Shape → Option Nat
  | [] => none
  | [n] => some n
  | s => s.reverse[1]?

/-- The place of row `i` and column `j` in a matrix with `m` columns. -/
def cell {n m : Nat} (i : Fin n) (j : Fin m) : Fin (n * m) :=
  ⟨i * m + j, by
    have below : (i + 1) * m ≤ n * m := Nat.mul_le_mul_right m i.isLt
    have inside := j.isLt
    rw [Nat.add_mul] at below
    omega⟩

/-- The row of a place in a matrix with `m` columns. -/
def row {n m : Nat} (place : Fin (n * m)) : Fin n :=
  ⟨place / m, Nat.div_lt_of_lt_mul (Nat.mul_comm n m ▸ place.isLt)⟩

/-- The column of a place in a matrix with `m` columns. -/
def column {n m : Nat} (place : Fin (n * m)) : Fin m :=
  ⟨place % m, Nat.mod_lt _ (Nat.pos_of_ne_zero fun none => by
    have inside := place.isLt
    simp [none] at inside)⟩

/-- The row of a cell is the row it was made from. -/
@[simp] theorem row_cell {n m : Nat} (i : Fin n) (j : Fin m) : row (cell i j) = i := by
  have positive : 0 < m := Nat.lt_of_le_of_lt (Nat.zero_le _) j.isLt
  apply Fin.ext
  show (i * m + j) / m = i
  rw [Nat.add_comm, Nat.add_mul_div_right _ _ positive, Nat.div_eq_of_lt j.isLt, Nat.zero_add]

/-- The column of a cell is the column it was made from. -/
@[simp] theorem column_cell {n m : Nat} (i : Fin n) (j : Fin m) : column (cell i j) = j := by
  apply Fin.ext
  show (i * m + j) % m = j
  rw [Nat.add_comm, Nat.add_mul_mod_self_right, Nat.mod_eq_of_lt j.isLt]

/-- Every place is the cell of its row and column. -/
@[simp] theorem cell_row_column {n m : Nat} (place : Fin (n * m)) :
    cell (row place) (column place) = place := by
  apply Fin.ext
  show place / m * m + place % m = (place : Nat)
  rw [Nat.mul_comm]
  exact Nat.div_add_mod place m

example : broadcast [3, 1] [4] = some [3, 4] ∧ broadcast [2] [3] = none := by decide

example : text [] = "()" ∧ text [2] = "(2,)" ∧ text [1, 2] = "(1, 2)" := by decide +kernel

end Shape

end QuasiNewton

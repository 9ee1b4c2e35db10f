import ExprCalculus.Expr.Column
import ExprCalculus.Fault
import ExprCalculus.Number.Array

/-!
# Evaluation on a table

A table has rows of one length, each with up to three numbers for the variables in order. It comes
as an array of rows; a plain list of numbers is a table of one column. Rows may be empty, and so may
the table.
-/

namespace ExprCalculus

/-- Rows of numbers of one length. -/
structure Table where
  /-- The length of the rows; a table without rows has one, too. -/
  columns : Nat
  /-- The rows. -/
  rows : List (List Double)
  /-- Every row has the length. -/
  rectangular : ∀ row ∈ rows, row.length = columns

/-- The table of one column. -/
def Table.ofColumn (values : List Double) : Table where
  columns := 1
  rows := values.map fun value => [value]
  rectangular := by
    intro row member
    obtain ⟨value, -, rfl⟩ := List.mem_map.mp member
    rfl

/-- The array of the rows of a table. -/
def Table.array (table : Table) : NumberArray := .list (table.rows.map .ofNumbers)

/-- The table that an array holds. -/
def NumberArray.table (array : NumberArray) : Except Fault Table :=
  match h : array.shape? with
  | none => .error .ragged
  | some [] => .error .noTable
  | some [_] => .ok (.ofColumn array.numbers)
  | some [_, columns] => .ok {
      columns := columns
      rows := array.parts.map numbers
      rectangular := by
        intro row member
        obtain ⟨part, hpart, rfl⟩ := List.mem_map.mp member
        exact length_numbers (shape?_of_mem_parts h hpart) }
  | some _ => .error .deepTable

/-- The values of an expression on the rows of a table, which may have a column for each variable
and no more. -/
def Expr.evaluateTable (e : Expr) (table : Table) : Except Fault (List Double) :=
  if Variable.all.length < table.columns then .error (.manyColumns table.columns)
  else .ok (e.evaluateRows table.rows)

/-- The values of an expression on the rows of an array. -/
def Expr.evaluateBatch (e : Expr) (array : NumberArray) : Except Fault (List Double) :=
  array.table.bind e.evaluateTable

end ExprCalculus

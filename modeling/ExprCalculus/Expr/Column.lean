import ExprCalculus.Expr.Evaluation

/-!
# Evaluation by columns

Many points are evaluated at once by giving each variable its column of values. A `Column` is one
value for all rows or a value per row, and an elementary operation works row by row, a single value
standing for every row. So the arithmetic of columns is an `Arithmetic` like any other, and the
evaluator is the same; at the end a single value is repeated for every row.
-/

namespace ExprCalculus

/-- One value for all rows, or a value for each. -/
inductive Column (α : Type) where
  /-- The same value in every row. -/
  | constant (value : α)
  /-- The values of the rows. -/
  | rows (values : List α)

namespace Column

variable {α β γ δ : Type}

/-- A function of one value in every row. -/
def map (f : α → β) : Column α → Column β
  | constant a => constant (f a)
  | rows as => rows (as.map f)

/-- A function of two values in every row. -/
def zipWith (f : α → β → γ) : Column α → Column β → Column γ
  | constant a, constant b => constant (f a b)
  | constant a, rows bs => rows (bs.map (f a))
  | rows as, constant b => rows (as.map (f · b))
  | rows as, rows bs => rows (List.zipWith f as bs)

/-- A function of three values in every row. -/
def zipWith3 (f : α → β → γ → δ) (as : Column α) (bs : Column β) (cs : Column γ) : Column δ :=
  zipWith (fun ab c => f ab.1 ab.2 c) (zipWith Prod.mk as bs) cs

/-- The values of a number of rows. -/
def toList (count : Nat) : Column α → List α
  | constant value => List.replicate count value
  | rows values => values

end Column

/-- The arithmetic of columns over an arithmetic of their values. -/
def Arithmetic.columns {α : Type} (A : Arithmetic α) : Arithmetic (Column α) where
  ofDouble value := .constant (A.ofDouble value)
  ofNat n := .constant (A.ofNat n)
  undefined := .constant A.undefined
  add := Column.zipWith A.add
  sub := Column.zipWith A.sub
  mul := Column.zipWith A.mul
  div := Column.zipWith A.div
  neg := Column.map A.neg
  abs := Column.map A.abs
  exp := Column.map A.exp
  select := Column.zipWith3 A.select

/-- The column of a variable in a table of rows; where a row has no such place it is zero. -/
def columnOf {α : Type} (zero : α) (table : List (List α)) (v : Variable) : Column α :=
  .rows (table.map fun row => point zero row v)

namespace Expr

/-- The values of an expression on the rows of a table. -/
def evalRows {α : Type} (A : Arithmetic α) (table : List (List α)) (e : Expr) : List α :=
  (e.eval A.columns (columnOf (A.ofNat 0) table)).toList table.length

/-- The values of an expression in floating point on the rows of a table. -/
def evaluateRows (e : Expr) (table : List (List Double)) : List Double :=
  (e.evalRows Arithmetic.float (table.map (List.map Double.toFloat))).map Double.ofFloat

end Expr

end ExprCalculus

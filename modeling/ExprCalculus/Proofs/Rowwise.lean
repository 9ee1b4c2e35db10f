import Mathlib
import ExprCalculus.Expr.Batch
import ExprCalculus.Proofs.Correspondence

/-!
# Evaluation by columns is evaluation row by row

A column follows a function of the rows of a table when it has the function's value in every row,
whether it keeps a value per row or one for all. The operations of columns keep this, whatever they
are given of the two kinds, so the value of an expression on columns follows its value on a row.
Every row is evaluated as the point that it is, with zeros for the coordinates that it does not
have.
-/

namespace ExprCalculus

variable {ι α β γ δ : Type}

/-! ## Values that depend on a row -/

/-- The arithmetic of values that depend on a row. -/
def Arithmetic.pointwise (ι : Type) (A : Arithmetic α) : Arithmetic (ι → α) where
  ofDouble value _ := A.ofDouble value
  ofNat n _ := A.ofNat n
  undefined _ := A.undefined
  add f g i := A.add (f i) (g i)
  sub f g i := A.sub (f i) (g i)
  mul f g i := A.mul (f i) (g i)
  div f g i := A.div (f i) (g i)
  neg f i := A.neg (f i)
  abs f i := A.abs (f i)
  exp f i := A.exp (f i)
  select c f g i := A.select (c i) (f i) (g i)

/-- At every index the pointwise arithmetic does what the arithmetic does there. -/
theorem Arithmetic.pointwise_corresponds (A : Arithmetic α) (i : ι) :
    (A.pointwise ι).Corresponds A fun f a => f i = a where
  ofDouble _ := rfl
  ofNat _ := rfl
  undefined := rfl
  add := by rintro f g _ _ rfl rfl; rfl
  sub := by rintro f g _ _ rfl rfl; rfl
  mul := by rintro f g _ _ rfl rfl; rfl
  div := by rintro f g _ _ rfl rfl; rfl
  neg := by rintro f _ rfl; rfl
  abs := by rintro f _ rfl; rfl
  exp := by rintro f _ rfl; rfl
  select := by rintro c f g _ _ _ rfl rfl rfl; rfl

/-- Evaluation on families is evaluation at every index. -/
theorem Expr.eval_pointwise (A : Arithmetic α) (p : Variable → ι → α) (e : Expr) (i : ι) :
    e.eval (A.pointwise ι) p i = e.eval A fun v => p v i :=
  (A.pointwise_corresponds i).eval (fun _ => rfl) e

/-! ## Columns -/

namespace Column

/-- Mapping a column maps its entries. -/
theorem toList_map (g : α → β) (c : Column α) (n : Nat) :
    (c.map g).toList n = (c.toList n).map g := by
  cases c <;> simp [map, toList]

/-- Two columns of the length of the table are combined entry by entry. -/
theorem toList_zipWith (g : α → β → γ) {as : Column α} {bs : Column β} {n : Nat}
    (ha : (as.toList n).length = n) (hb : (bs.toList n).length = n) :
    (zipWith g as bs).toList n = List.zipWith g (as.toList n) (bs.toList n) := by
  cases as with
  | constant a =>
    cases bs with
    | constant b => simp [zipWith, toList]
    | rows bs =>
      obtain rfl : bs.length = n := hb
      exact List.ext_getElem (by simp [zipWith, toList]) (by simp [zipWith, toList])
  | rows as =>
    cases bs with
    | constant b =>
      obtain rfl : as.length = n := ha
      exact List.ext_getElem (by simp [zipWith, toList]) (by simp [zipWith, toList])
    | rows bs => rfl

/-- The column has the value of the function in every row of the table. -/
def Follows (table : List ι) (c : Column α) (f : ι → α) : Prop :=
  c.toList table.length = table.map f

variable {table : List ι}

/-- A column that follows a table is as long as the table. -/
theorem Follows.length_toList {c : Column α} {f : ι → α} (h : c.Follows table f) :
    (c.toList table.length).length = table.length := by
  rw [h, List.length_map]

/-- A column of one value follows every table. -/
theorem follows_constant (a : α) : (constant a).Follows table fun _ => a :=
  List.map_const'.symm

/-- A function of a column that follows the table follows it. -/
theorem Follows.map {c : Column α} {f : ι → α} (h : c.Follows table f) (g : α → β) :
    (c.map g).Follows table fun i => g (f i) := by
  rw [Follows, toList_map, h, List.map_map]
  rfl

/-- So does what two such columns are combined to. -/
theorem Follows.zipWith {as : Column α} {bs : Column β} {f : ι → α} {f' : ι → β}
    (ha : as.Follows table f) (hb : bs.Follows table f') (g : α → β → γ) :
    (zipWith g as bs).Follows table fun i => g (f i) (f' i) := by
  rw [Follows, toList_zipWith g ha.length_toList hb.length_toList, ha, hb, List.zipWith_map,
    List.zipWith_self]

/-- And what three are combined to, two and then the third. -/
theorem Follows.zipWith3 {as : Column α} {bs : Column β} {cs : Column γ} {f : ι → α} {f' : ι → β}
    {f'' : ι → γ} (ha : as.Follows table f) (hb : bs.Follows table f') (hc : cs.Follows table f'')
    (g : α → β → γ → δ) : (zipWith3 g as bs cs).Follows table fun i => g (f i) (f' i) (f'' i) :=
  (ha.zipWith hb Prod.mk).zipWith hc _

end Column

open Column

/-- The arithmetic of columns does what the pointwise one does, row by row. -/
theorem Arithmetic.columns_corresponds (A : Arithmetic α) (table : List ι) :
    A.columns.Corresponds (A.pointwise ι) (Follows table) where
  ofDouble value := follows_constant (A.ofDouble value)
  ofNat n := follows_constant (A.ofNat n)
  undefined := follows_constant A.undefined
  add first second := first.zipWith second A.add
  sub first second := first.zipWith second A.sub
  mul first second := first.zipWith second A.mul
  div first second := first.zipWith second A.div
  neg first := first.map A.neg
  abs first := first.map A.abs
  exp first := first.map A.exp
  select first second third := first.zipWith3 second third A.select

/-- The column of a variable holds its coordinate in every row, zero where a row is too short. -/
theorem follows_columnOf (zero : α) (table : List (List α)) (v : Variable) :
    (columnOf zero table v).Follows table fun row => point zero row v :=
  rfl

namespace Expr

/-- The values on the rows of a table are the values at each of them. -/
theorem evalRows_eq_map (A : Arithmetic α) (table : List (List α)) (e : Expr) :
    e.evalRows A table = table.map fun row => e.eval A (point (A.ofNat 0) row) := by
  have follows : (e.eval A.columns (columnOf (A.ofNat 0) table)).Follows table
      (e.eval (A.pointwise _) fun v row => point (A.ofNat 0) row v) :=
    (A.columns_corresponds table).eval (follows_columnOf _ table) e
  rw [evalRows, follows]
  exact List.map_congr_left fun row _ => eval_pointwise A _ e row

/-- Evaluating the columns of a table is evaluating its rows. -/
theorem evaluateRows_eq_map (e : Expr) (table : List (List Double)) :
    e.evaluateRows table = table.map e.evaluate := by
  rw [evaluateRows, evalRows_eq_map, List.map_map, List.map_map]
  rfl

end Expr

/-! ## Missing coordinates -/

/-- The coordinates with zeros for the missing ones. -/
def padded (coordinates : List Double) : List Double :=
  coordinates ++ List.replicate (Variable.all.length - coordinates.length) (.zero false)

/-- Padding with the default changes no entry. -/
theorem getD_append_replicate (as : List α) (n i : Nat) (d : α) :
    (as ++ List.replicate n d).getD i d = as.getD i d := by
  by_cases inside : i < as.length
  · rw [List.getD_append _ _ _ _ inside]
  · have outside := Nat.not_lt.mp inside
    have missing : (List.replicate n d).getD (i - as.length) d = d := by
      rw [List.getD_eq_getElem?_getD, List.getElem?_replicate]
      split <;> rfl
    rw [List.getD_append_right _ _ _ _ outside, missing, List.getD_eq_default _ _ outside]

/-- A point is filled up with zeros wherever it is too short, so padding it changes no value. -/
theorem Expr.evaluate_padded (e : Expr) (coordinates : List Double) :
    e.evaluate (padded coordinates) = e.evaluate coordinates := by
  have zero : (Double.zero false).toFloat = Arithmetic.float.ofNat 0 := rfl
  have same : point (Arithmetic.float.ofNat 0) ((padded coordinates).map Double.toFloat) =
      point (Arithmetic.float.ofNat 0) (coordinates.map Double.toFloat) := by
    funext v
    rw [padded, List.map_append, List.map_replicate, zero]
    exact getD_append_replicate _ _ _ _
  rw [evaluate, evaluate, same]

/-! ## Arrays of rows -/

/-- A list of numbers is an array with one axis. -/
theorem NumberArray.shape?_ofNumbers (values : List Double) :
    (ofNumbers values).shape? = some [values.length] := by
  have common : commonShape? (values.map number) = some [] := by
    cases values with
    | nil => rfl
    | cons value values =>
      refine commonShape?_of_forall (List.cons_ne_nil _ _) ?_
      rw [List.forall_mem_map]
      exact fun _ _ => rfl
  rw [ofNumbers, shape?, common, List.length_map]
  rfl

/-- A list of numbers is the table with one column. -/
theorem NumberArray.table_ofNumbers (values : List Double) :
    (ofNumbers values).table = .ok (.ofColumn values) := by
  have shape := shape?_ofNumbers values
  unfold NumberArray.table
  split <;> simp_all

/-- A table with rows is read back from its array. -/
theorem Table.table_array {table : Table} (nonempty : table.rows ≠ []) :
    table.array.table = .ok table := by
  have common : NumberArray.commonShape? (table.rows.map .ofNumbers) = some [table.columns] := by
    refine NumberArray.commonShape?_of_forall (by simpa using nonempty) ?_
    rw [List.forall_mem_map]
    intro row member
    rw [NumberArray.shape?_ofNumbers, table.rectangular row member]
  have shape : table.array.shape? = some [table.rows.length, table.columns] := by
    rw [array, NumberArray.shape?, common, List.length_map]
    rfl
  have rows : table.array.parts.map NumberArray.numbers = table.rows := by
    rw [array, NumberArray.parts, List.map_map]
    exact List.map_id'' NumberArray.numbers_ofNumbers _
  unfold NumberArray.table
  split <;> simp_all

/-! ## Tables -/

namespace Expr

/-- A table with a column for each variable at most has a value for each row and no more: the value
at the row, with zeros for the coordinates that the row does not have. With more columns the table
is refused, whatever the expression is. A table comes as the array of its rows, if it has some, and
one of a single column as a list of numbers. -/
theorem evaluateTable_eq_map_evaluate (e : Expr) :
    (∀ table : Table, table.columns ≤ 3 →
      e.evaluateTable table = .ok (table.rows.map fun row => e.evaluate (padded row))) ∧
    (∀ table : Table, 3 < table.columns →
      e.evaluateTable table = .error (.manyColumns table.columns)) ∧
    (∀ table : Table, table.rows ≠ [] → e.evaluateBatch table.array = e.evaluateTable table) ∧
    ∀ values : List Double,
      e.evaluateBatch (.ofNumbers values) = e.evaluateTable (.ofColumn values) := by
  refine ⟨fun table narrow => ?_, fun table wide => ?_, fun table nonempty => ?_, fun values => ?_⟩
  · have enough : ¬ Variable.all.length < table.columns := Nat.not_lt.mpr narrow
    rw [evaluateTable, if_neg enough, evaluateRows_eq_map]
    exact congrArg Except.ok (List.map_congr_left fun row _ => (e.evaluate_padded row).symm)
  · rw [evaluateTable, if_pos (show Variable.all.length < table.columns from wide)]
  · rw [evaluateBatch, Table.table_array nonempty]
    rfl
  · rw [evaluateBatch, NumberArray.table_ofNumbers]
    rfl

/-- A choice between an empty mean and a constant, on not-a-number and on minus zero; and on a table
of four columns and no rows. -/
theorem evaluateTable_eq_map_evaluate_choice :
    let e : Expr := .app .iff [.var .x, .app .mean [], .const (.ofNat 4)]
    let table : Table := ⟨2, [[.nan, .ofNat 1], [.zero true, .ofNat 2]], by simp⟩
    let wide : Table := ⟨4, [], nofun⟩
    e.evaluateBatch table.array = .ok [.ofNat 4, .zero false] ∧
      e.evaluateBatch (.ofNumbers [.nan]) = .ok [.ofNat 4] ∧
      e.evaluateTable wide = .error (.manyColumns 4) := by
  intro e table wide
  obtain ⟨values, refused, rows, column⟩ := evaluateTable_eq_map_evaluate e
  refine ⟨?_, ?_, refused wide (by decide)⟩
  · rw [rows table (List.cons_ne_nil _ _), values table (by decide)]
    decide +kernel
  · rw [column [.nan], values _ (by decide)]
    decide +kernel

end Expr

end ExprCalculus

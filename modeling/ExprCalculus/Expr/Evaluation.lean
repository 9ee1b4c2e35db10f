import ExprCalculus.Expr.Arithmetic

/-!
# Evaluation in floating point

The arithmetic of binary64, each elementary operation rounded once, and evaluation at a point given
as a list of coordinates. Division by zero gives an infinity or not-a-number and nothing traps. A
condition that is not-a-number is not at least zero; a negative zero is.
-/

namespace ExprCalculus

/-- The arithmetic of binary64. -/
def Arithmetic.float : Arithmetic Float where
  ofDouble := Double.toFloat
  ofNat := Float.ofNat
  undefined := Double.nan.toFloat
  add := (· + ·)
  sub := (· - ·)
  mul := (· * ·)
  div := (· / ·)
  neg := (- ·)
  abs := Float.abs
  exp := Float.exp
  select c a b := if 0 ≤ c then a else b

/-- The point with the given coordinates; the missing ones are zero. -/
def point {α : Type} (zero : α) (coordinates : List α) (v : Variable) : α :=
  coordinates.getD v.index zero

/-- The value of an expression at the point with the given coordinates. -/
def Expr.evaluate (e : Expr) (coordinates : List Double) : Double :=
  Double.ofFloat (e.eval Arithmetic.float (point (Arithmetic.float.ofNat 0)
    (coordinates.map Double.toFloat)))

end ExprCalculus

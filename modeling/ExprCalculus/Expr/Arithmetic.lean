import ExprCalculus.Expr.Basic

/-!
# What evaluation needs

An `Arithmetic` on a type says what constants and the elementary operations mean there. The ten
operations of expressions are defined once from these, in a fixed order of elementary steps, and so
evaluation means the same on floating point numbers, on columns of them, and on the elements of a
field. A choice asks of its condition only whether it is at least zero, which the arithmetic
decides.

An operation with a number of operands that it does not accept has no value; what stands for it is
`undefined`.
-/

namespace ExprCalculus

/-- Constants and elementary operations on a type. -/
structure Arithmetic (α : Type) where
  /-- The value of a constant. -/
  ofDouble : Double → α
  /-- The value of a count. -/
  ofNat : Nat → α
  /-- What stands for a missing value. -/
  undefined : α
  /-- The sum. -/
  add : α → α → α
  /-- The difference. -/
  sub : α → α → α
  /-- The product. -/
  mul : α → α → α
  /-- The quotient. -/
  div : α → α → α
  /-- The change of sign. -/
  neg : α → α
  /-- The absolute value. -/
  abs : α → α
  /-- The exponential. -/
  exp : α → α
  /-- The second argument if the first is at least zero, and else the third. -/
  select : α → α → α → α

namespace Arithmetic

variable {α : Type} (A : Arithmetic α)

/-- The mean: the sum from left to right, starting at the first value, divided by the count. The
mean of no values is zero. -/
def mean : List α → α
  | [] => A.ofNat 0
  | v :: vs => A.div (vs.foldl A.add v) (A.ofNat (vs.length + 1))

/-- The squared distances of the values from their mean. -/
def squaredDeviations (vs : List α) : List α :=
  let m := A.mean vs
  vs.map fun v => A.mul (A.sub v m) (A.sub v m)

/-- The variance: the mean of the squared distances from the mean. -/
def variance (vs : List α) : α := A.mean (A.squaredDeviations vs)

/-- The bell curve of the amplitude `a` with centre `b` and width `c` at the position `x`. -/
def gauss (a b c x : α) : α :=
  let t := A.div (A.sub x b) c
  A.mul a (A.exp (A.div (A.mul (A.neg t) t) (A.ofNat 2)))

/-- The value of an operation on the values of its operands. -/
def apply : Op → List α → α
  | .add, [a, b] => A.add a b
  | .subtract, [a, b] => A.sub a b
  | .multiply, [a, b] => A.mul a b
  | .divide, [a, b] => A.div a b
  | .negate, [a] => A.neg a
  | .abs, [a] => A.abs a
  | .iff, [c, a, b] => A.select c a b
  | .mean, vs => A.mean vs
  | .var, vs => A.variance vs
  | .gauss, [a, b, c, x] => A.gauss a b c x
  | _, _ => A.undefined

/-- An operation has no value on a number of operands that it does not accept. -/
theorem apply_of_not_accepts {op : Op} {vs : List α} (h : ¬ op.accepts vs.length = true) :
    A.apply op vs = A.undefined := by
  unfold apply
  split
  case h_11 => rfl
  all_goals exact absurd rfl h

end Arithmetic

namespace Expr

/-- The value of an expression at a point. -/
def eval {α : Type} (A : Arithmetic α) (point : Variable → α) : Expr → α :=
  fold A.ofDouble point A.apply

variable {α : Type} (A : Arithmetic α) (point : Variable → α)

@[simp] theorem eval_const (value : Double) : (const value).eval A point = A.ofDouble value := rfl

@[simp] theorem eval_var (v : Variable) : (var v).eval A point = point v := rfl

@[simp] theorem eval_app (op : Op) (es : List Expr) :
    (app op es).eval A point = A.apply op (es.map (eval A point)) := by
  simp [eval]

end Expr

end ExprCalculus

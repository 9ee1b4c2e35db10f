import Mathlib
import ExprCalculus.Expr.Arithmetic

/-!
# Exact arithmetic over an ordered field

The elementary operations of a field, with any function in place of the exponential. Division by
zero has a value in a field, so where an expression is defined is a predicate of its own,
`Expr.DefinedAt`: no divisor and no width of a bell curve vanishes there. The mean of values is
their sum divided by their number, and that is defined for any number of them.
-/

namespace ExprCalculus

variable {K : Type} [Field K]

/-- The exact value of a double. An infinity and not-a-number have none; zero stands for it. -/
def Double.exact : Double → K
  | .finite negative code => (if negative then -1 else 1) * (units code / 2 ^ 1074)
  | _ => 0

/-- A double of so many whole units of one has that value. -/
theorem Double.exact_finite_of_units {negative : Bool} {code : Fin codes} {n : Nat} [CharZero K]
    (h : units code = n * 2 ^ 1074) :
    (Double.finite negative code).exact = (if negative then -1 else 1) * (n : K) := by
  have pos : (2 ^ 1074 : K) ≠ 0 := pow_ne_zero _ two_ne_zero
  rw [exact, h, Nat.cast_mul, Nat.cast_pow, Nat.cast_ofNat, mul_div_cancel_right₀ _ pos]

/-- The code of one. -/
def Double.oneCode : Fin codes := ⟨1023 * 2 ^ 52, by decide⟩

/-- The code of two. -/
def Double.twoCode : Fin codes := ⟨1024 * 2 ^ 52, by decide⟩

/-- The doubles of the numbers that the rules of differentiation write, and their magnitudes. -/
theorem Double.ofNat_small :
    ofNat 0 = .zero false ∧
      (ofNat 1 = .finite false oneCode ∧ units oneCode = 1 * 2 ^ 1074) ∧
      (ofNat 2 = .finite false twoCode ∧ units twoCode = 2 * 2 ^ 1074) := by
  decide +kernel

theorem Double.exact_ofNat_zero : (Double.ofNat 0).exact = (0 : K) := by
  rw [ofNat_small.1, zero, exact, units_zero]
  simp

theorem Double.exact_ofNat_one [CharZero K] : (Double.ofNat 1).exact = (1 : K) := by
  rw [ofNat_small.2.1.1, exact_finite_of_units (n := 1) ofNat_small.2.1.2]
  simp

theorem Double.exact_ofNat_two [CharZero K] : (Double.ofNat 2).exact = (2 : K) := by
  rw [ofNat_small.2.2.1, exact_finite_of_units (n := 2) ofNat_small.2.2.2]
  simp

/-- The elementary operations that a field has are those of the field. -/
structure Arithmetic.OfField (A : Arithmetic K) : Prop where
  ofNat (n : Nat) : A.ofNat n = n
  add (a b : K) : A.add a b = a + b
  sub (a b : K) : A.sub a b = a - b
  mul (a b : K) : A.mul a b = a * b
  div (a b : K) : A.div a b = a / b
  neg (a : K) : A.neg a = -a

theorem Arithmetic.OfField.foldl_add {A : Arithmetic K} (h : A.OfField) (v : K) (vs : List K) :
    vs.foldl A.add v = v + vs.sum := by
  induction vs generalizing v with
  | nil => simp
  | cons w vs ih => rw [List.foldl_cons, ih, h.add, List.sum_cons, add_assoc]

/-- The mean is the sum divided by the number of values, which is zero for none. -/
theorem Arithmetic.OfField.mean {A : Arithmetic K} (h : A.OfField) (vs : List K) :
    A.mean vs = vs.sum / vs.length := by
  cases vs with
  | nil => simp [Arithmetic.mean, h.ofNat]
  | cons v vs =>
    rw [Arithmetic.mean, h.foldl_add, h.div, h.ofNat, List.sum_cons, List.length_cons]

section Exact

variable [LinearOrder K] (E : K → K)

/-- The arithmetic of an ordered field, with the function `E` for the exponential. -/
@[simps]
def Arithmetic.exact : Arithmetic K where
  ofDouble := Double.exact
  ofNat n := n
  undefined := 0
  add a b := a + b
  sub a b := a - b
  mul a b := a * b
  div a b := a / b
  neg a := -a
  abs a := |a|
  exp := E
  select c a b := if 0 ≤ c then a else b

theorem Arithmetic.exact_ofField : (Arithmetic.exact E).OfField where
  ofNat _ := rfl
  add _ _ := rfl
  sub _ _ := rfl
  mul _ _ := rfl
  div _ _ := rfl
  neg _ := rfl

theorem Arithmetic.mean_exact (vs : List K) :
    (Arithmetic.exact E).mean vs = vs.sum / vs.length :=
  (exact_ofField E).mean vs

namespace Expr

/-- The operand that must not be zero: the divisor of a quotient, the width of a bell curve. -/
def denominator? : Op → List Expr → Option Expr
  | .divide, [_, divisor] => some divisor
  | .gauss, [_, _, width, _] => some width
  | _, _ => none

/-- No divisor and no width of a bell curve is zero at the point. -/
inductive DefinedAt (point : Variable → K) : Expr → Prop where
  | const (value : Double) : DefinedAt point (.const value)
  | var (v : Variable) : DefinedAt point (.var v)
  | app {op : Op} {operands : List Expr}
      (denominator : ∀ d, denominator? op operands = some d → d.eval (.exact E) point ≠ 0)
      (each : ∀ e ∈ operands, DefinedAt point e) : DefinedAt point (.app op operands)

/-- An operation is defined where its operands are and its denominator, if any, is not zero. -/
theorem definedAt_app {point : Variable → K} {op : Op} {es : List Expr} :
    (app op es).DefinedAt E point ↔
      (∀ d, denominator? op es = some d → d.eval (.exact E) point ≠ 0) ∧
        ∀ e ∈ es, e.DefinedAt E point :=
  ⟨fun h => by cases h with | app denominator each => exact ⟨denominator, each⟩,
    fun h => .app h.1 h.2⟩

end Expr

end Exact

end ExprCalculus

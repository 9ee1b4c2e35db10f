import ExprCalculus.Proofs.Correspondence
import ExprCalculus.Proofs.FormMeaning
import ExprCalculus.Proofs.RationalFunction

/-!
# Expressions that are rational functions

An expression that is built from integers and variables by sums, differences, products, quotients,
changes of sign, means and variances has a value in every field. Its value in the field of rational
functions, at the point whose coordinates are the variables themselves, is the rational function
that it is; for a quotient this means something only if the divisor is not the zero function.

Where the expression is defined at a rational point, its exact value there is the value of its
rational function. And it is defined off the zeros of some polynomial, so two of them are the same
rational function exactly when they agree wherever both are defined: a common factor of a numerator
and a denominator, which leaves a gap in one of them, makes no difference.
-/

namespace ExprCalculus

open RationalFunction

/-! ## Expressions of a field -/

namespace Expr

/-- The expression is built from integers and variables by the operations of a field, means and
variances, and its divisors are as the condition says. -/
inductive FieldBuilt (divisor : Expr → Prop) : Expr → Prop where
  | const {value : Double} {n : Int} (integer : value.toInt? = some n) :
      FieldBuilt divisor (.const value)
  | var (v : Variable) : FieldBuilt divisor (.var v)
  | add {a b : Expr} (ha : FieldBuilt divisor a) (hb : FieldBuilt divisor b) :
      FieldBuilt divisor (.app .add [a, b])
  | sub {a b : Expr} (ha : FieldBuilt divisor a) (hb : FieldBuilt divisor b) :
      FieldBuilt divisor (.app .subtract [a, b])
  | mul {a b : Expr} (ha : FieldBuilt divisor a) (hb : FieldBuilt divisor b) :
      FieldBuilt divisor (.app .multiply [a, b])
  | div {a b : Expr} (ha : FieldBuilt divisor a) (hb : FieldBuilt divisor b)
      (condition : divisor b) : FieldBuilt divisor (.app .divide [a, b])
  | neg {a : Expr} (ha : FieldBuilt divisor a) : FieldBuilt divisor (.app .negate [a])
  | mean {es : List Expr} (each : ∀ e ∈ es, FieldBuilt divisor e) :
      FieldBuilt divisor (.app .mean es)
  | variance {es : List Expr} (each : ∀ e ∈ es, FieldBuilt divisor e) :
      FieldBuilt divisor (.app .var es)

end Expr

/-- The operations of a field keep a relation between the values of two arithmetics, where the
divisor of the second is not zero. -/
structure Arithmetic.FieldCorresponds {α β : Type} (A : Arithmetic α) (B : Arithmetic β)
    (R : α → β → Prop) (nonzero : β → Prop) : Prop where
  ofDouble {value : Double} {n : Int} (integer : value.toInt? = some n) :
    R (A.ofDouble value) (B.ofDouble value)
  ofNat (n : Nat) : R (A.ofNat n) (B.ofNat n)
  count (n : Nat) : nonzero (B.ofNat (n + 1))
  add {a c : α} {b d : β} (first : R a b) (second : R c d) : R (A.add a c) (B.add b d)
  sub {a c : α} {b d : β} (first : R a b) (second : R c d) : R (A.sub a c) (B.sub b d)
  mul {a c : α} {b d : β} (first : R a b) (second : R c d) : R (A.mul a c) (B.mul b d)
  div {a c : α} {b d : β} (first : R a b) (second : R c d) (divisor : nonzero d) :
    R (A.div a c) (B.div b d)
  neg {a : α} {b : β} (first : R a b) : R (A.neg a) (B.neg b)

namespace Arithmetic.FieldCorresponds

variable {α β : Type} {A : Arithmetic α} {B : Arithmetic β} {R : α → β → Prop} {nonzero : β → Prop}
  (h : A.FieldCorresponds B R nonzero)

include h

theorem averages : A.Averages B R where
  zero := h.ofNat 0
  add := h.add
  sub := h.sub
  mul := h.mul
  divCount n first := h.div first (h.ofNat (n + 1)) (h.count n)

/-- Evaluation keeps the relation where no divisor is zero. -/
theorem eval {p : Variable → α} {q : Variable → β} (points : ∀ v, R (p v) (q v)) {e : Expr}
    (built : e.FieldBuilt fun d => nonzero (d.eval B q)) : R (e.eval A p) (e.eval B q) := by
  have operands {es : List Expr} (each : ∀ e ∈ es, R (e.eval A p) (e.eval B q)) :
      List.Forall₂ R (es.map (Expr.eval A p)) (es.map (Expr.eval B q)) := by
    rw [List.forall₂_map_left_iff, List.forall₂_map_right_iff]
    exact List.forall₂_same.mpr each
  induction built with
  | const integer => exact h.ofDouble integer
  | var v => exact points v
  | add _ _ ha hb =>
    rw [Expr.eval_app, Expr.eval_app]
    exact h.add ha hb
  | sub _ _ ha hb =>
    rw [Expr.eval_app, Expr.eval_app]
    exact h.sub ha hb
  | mul _ _ ha hb =>
    rw [Expr.eval_app, Expr.eval_app]
    exact h.mul ha hb
  | div _ _ divisor ha hb =>
    rw [Expr.eval_app, Expr.eval_app]
    exact h.div ha hb divisor
  | neg _ ha =>
    rw [Expr.eval_app, Expr.eval_app]
    exact h.neg ha
  | mean _ each =>
    rw [Expr.eval_app, Expr.eval_app]
    exact h.averages.mean (operands each)
  | variance _ each =>
    rw [Expr.eval_app, Expr.eval_app]
    exact h.averages.variance (operands each)

end Arithmetic.FieldCorresponds

/-! ## The rational function of an expression -/

/-- The arithmetic of rational functions. Zero stands for what is none. -/
@[simps]
noncomputable def Arithmetic.rational : Arithmetic RationalFunction where
  ofDouble := Double.exact
  ofNat n := n
  undefined := 0
  add a b := a + b
  sub a b := a - b
  mul a b := a * b
  div a b := a / b
  neg a := -a
  abs _ := 0
  exp _ := 0
  select _ _ _ := 0

theorem Arithmetic.rational_ofField : Arithmetic.rational.OfField where
  ofNat _ := rfl
  add _ _ := rfl
  sub _ _ := rfl
  mul _ _ := rfl
  div _ _ := rfl
  neg _ := rfl

namespace Expr

/-- The value of an expression in the field of rational functions, where every variable stands for
itself. -/
noncomputable def rational (e : Expr) : RationalFunction := e.eval .rational ofVariable

/-- The expression is a rational function: it is built by the operations of a field, and no divisor
is the zero function. -/
def Rational (e : Expr) : Prop := e.FieldBuilt fun d => d.rational ≠ 0

theorem rational_const {value : Double} {n : Int} (integer : value.toInt? = some n) :
    (const value).rational = n := by
  rw [rational, eval_const, Arithmetic.rational_ofDouble, Double.exact_of_toInt? integer]

theorem rational_app (op : Op) (es : List Expr) :
    (app op es).rational = Arithmetic.rational.apply op (es.map rational) :=
  eval_app Arithmetic.rational ofVariable op es

/-! ## Values at points -/

variable {E : ℚ → ℚ} {point : Variable → ℚ}

/-- Where an expression is defined, its divisors are not zero. -/
theorem FieldBuilt.of_definedAt {divisor : Expr → Prop} {e : Expr} (h : e.FieldBuilt divisor)
    (defined : e.DefinedAt E point) : e.FieldBuilt fun d => d.eval (.exact E) point ≠ 0 := by
  induction h with
  | const integer => exact .const integer
  | var v => exact .var v
  | add _ _ ha hb =>
    obtain ⟨-, operands⟩ := (definedAt_app E).mp defined
    exact .add (ha (operands _ (by simp))) (hb (operands _ (by simp)))
  | sub _ _ ha hb =>
    obtain ⟨-, operands⟩ := (definedAt_app E).mp defined
    exact .sub (ha (operands _ (by simp))) (hb (operands _ (by simp)))
  | mul _ _ ha hb =>
    obtain ⟨-, operands⟩ := (definedAt_app E).mp defined
    exact .mul (ha (operands _ (by simp))) (hb (operands _ (by simp)))
  | div _ _ _ ha hb =>
    obtain ⟨denominator, operands⟩ := (definedAt_app E).mp defined
    exact .div (ha (operands _ (by simp))) (hb (operands _ (by simp))) (denominator _ rfl)
  | neg _ ha =>
    obtain ⟨-, operands⟩ := (definedAt_app E).mp defined
    exact .neg (ha (operands _ (by simp)))
  | mean _ each =>
    obtain ⟨-, operands⟩ := (definedAt_app E).mp defined
    exact .mean fun e he => each e he (operands e he)
  | variance _ each =>
    obtain ⟨-, operands⟩ := (definedAt_app E).mp defined
    exact .variance fun e he => each e he (operands e he)

/-- A rational function that has a value at a point has the value that the operations give there. -/
theorem rational_fieldCorresponds_exact :
    Arithmetic.rational.FieldCorresponds (.exact E) (HasValueAt point) (· ≠ 0) where
  ofDouble integer := by
    rw [Arithmetic.rational_ofDouble, Arithmetic.exact_ofDouble, Double.exact_of_toInt? integer,
      Double.exact_of_toInt? integer]
    exact hasValueAt_intCast _
  ofNat := hasValueAt_natCast
  count n := by simp [Nat.cast_add_one_ne_zero]
  add := .add
  sub := .sub
  mul := .mul
  div := .div
  neg := .neg

/-- Where an expression is defined, its exact value is that of its rational function. -/
theorem FieldBuilt.hasValueAt {divisor : Expr → Prop} {e : Expr} (h : e.FieldBuilt divisor)
    (defined : e.DefinedAt E point) :
    HasValueAt point e.rational (e.eval (.exact E) point) :=
  rational_fieldCorresponds_exact.eval hasValueAt_ofVariable (h.of_definedAt defined)

/-- A divisor that is not zero at a point where it is defined is not the zero function. -/
theorem FieldBuilt.rational_ne_zero {divisor : Expr → Prop} {e : Expr} (h : e.FieldBuilt divisor)
    (defined : e.DefinedAt E point) (nonzero : e.eval (.exact E) point ≠ 0) : e.rational ≠ 0 :=
  (h.hasValueAt defined).ne_zero nonzero

/-! ## Where expressions are defined -/

/-- Off the zeros of some polynomial the expression is defined. -/
def DefinedOff (E : ℚ → ℚ) (e : Expr) : Prop :=
  ∃ p : MvPolynomial Variable ℚ, p ≠ 0 ∧
    ∀ point, MvPolynomial.eval point p ≠ 0 → e.DefinedAt E point

/-- Several expressions that are defined off the zeros of a polynomial are defined together off
those of the product. -/
theorem exists_definedAt_of_forall {es : List Expr} (each : ∀ e ∈ es, e.DefinedOff E) :
    ∃ p : MvPolynomial Variable ℚ, p ≠ 0 ∧
      ∀ point, MvPolynomial.eval point p ≠ 0 → ∀ e ∈ es, e.DefinedAt E point := by
  induction es with
  | nil => exact ⟨1, one_ne_zero, by simp⟩
  | cons e es ih =>
    obtain ⟨p, hp, head⟩ := each e List.mem_cons_self
    obtain ⟨q, hq, tail⟩ := ih fun f hf => each f (List.mem_cons_of_mem _ hf)
    refine ⟨p * q, mul_ne_zero hp hq, fun point off => ?_⟩
    rw [map_mul] at off
    exact List.forall_mem_cons.mpr
      ⟨head point (left_ne_zero_of_mul off), tail point (right_ne_zero_of_mul off)⟩

/-- An operation that divides by none of its operands is defined where they are. -/
theorem definedOff_app {op : Op} {es : List Expr} (each : ∀ e ∈ es, e.DefinedOff E)
    (total : denominator? op es = none) : (app op es).DefinedOff E := by
  obtain ⟨p, hp, operands⟩ := exists_definedAt_of_forall each
  refine ⟨p, hp, fun point off => (definedAt_app E).mpr ⟨fun d hd => ?_, operands point off⟩⟩
  rw [total] at hd
  cases hd

/-- A quotient is defined off the zeros of the numerator of its divisor, too. -/
theorem definedOff_divide {a b : Expr} (ha : a.DefinedOff E) (hb : b.DefinedOff E)
    (built : b.Rational) (nonzero : b.rational ≠ 0) : (app .divide [a, b]).DefinedOff E := by
  have each : ∀ e ∈ [a, b], e.DefinedOff E := by simp [ha, hb]
  obtain ⟨p, hp, operands⟩ := exists_definedAt_of_forall each
  obtain ⟨q, hq, values⟩ := exists_ne_zero_of_eval nonzero
  refine ⟨p * q, mul_ne_zero hp hq, fun point off => (definedAt_app E).mpr ?_⟩
  rw [map_mul] at off
  have defined := operands point (left_ne_zero_of_mul off)
  refine ⟨fun d hd => ?_, defined⟩
  obtain rfl : b = d := Option.some.inj hd
  exact values point _ (right_ne_zero_of_mul off) (built.hasValueAt (defined b (by simp)))

/-- An expression that is a rational function is defined off the zeros of some polynomial. -/
theorem Rational.definedOff {e : Expr} (h : e.Rational) : e.DefinedOff E := by
  induction h with
  | const => exact ⟨1, one_ne_zero, fun _ _ => .const _⟩
  | var v => exact ⟨1, one_ne_zero, fun _ _ => .var v⟩
  | add _ _ ha hb | sub _ _ ha hb | mul _ _ ha hb =>
    exact definedOff_app (by simp [ha, hb]) rfl
  | div _ built nonzero ha hb => exact definedOff_divide ha hb built nonzero
  | neg _ ha => exact definedOff_app (by simp [ha]) rfl
  | mean _ each | variance _ each => exact definedOff_app each rfl

/-- Two expressions are the same rational function exactly when they agree at every rational point
where both are defined. -/
theorem rational_eq_iff_eval_eq (E : ℚ → ℚ) {a b : Expr} (ha : a.Rational) (hb : b.Rational) :
    a.rational = b.rational ↔ ∀ point : Variable → ℚ, a.DefinedAt E point → b.DefinedAt E point →
      a.eval (.exact E) point = b.eval (.exact E) point := by
  constructor
  · intro same point defined_a defined_b
    have value := ha.hasValueAt defined_a
    rw [same] at value
    exact value.unique (hb.hasValueAt defined_b)
  · intro agree
    obtain ⟨p, hp, defined_a⟩ := ha.definedOff (E := E)
    obtain ⟨q, hq, defined_b⟩ := hb.definedOff (E := E)
    refine sub_eq_zero.mp (eq_zero_of_values (mul_ne_zero hp hq) fun point off => ?_)
    rw [map_mul] at off
    have at_a := defined_a point (left_ne_zero_of_mul off)
    have at_b := defined_b point (right_ne_zero_of_mul off)
    have difference := (ha.hasValueAt at_a).sub (hb.hasValueAt at_b)
    rwa [agree point at_a at_b, sub_self] at difference

end Expr

end ExprCalculus

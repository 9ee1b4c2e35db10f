import ExprCalculus.Proofs.FieldExpression
import ExprCalculus.Proofs.TermReading

/-!
# Terms that are rational functions

A term that is built from integers and variables by sums, products and powers with integers is a
rational function, if zero has no negative power in it. This is a reading of terms, and so the term
of an expression that is a rational function is the same rational function.
-/

namespace ExprCalculus

open RationalFunction

namespace Form

mutual

/-- The rational function that a term is, if it is one. -/
noncomputable def rational? : Form → Option RationalFunction
  | .integer n => some n
  | .symbol v => some (ofVariable v)
  | .sum terms => (rationalAll? terms).map List.sum
  | .product factors => (rationalAll? factors).map List.prod
  | .power base (.integer n) =>
    (rational? base).bind fun b => if b = 0 ∧ n < 0 then none else some (b ^ n)
  | _ => none

/-- The rational functions that several terms are, if each of them is one. -/
noncomputable def rationalAll? : List Form → Option (List RationalFunction)
  | [] => some []
  | form :: forms => (rational? form).bind fun r => (rationalAll? forms).map (r :: ·)

end

/-- The rational function of a term reads sums, products and powers as the field has them. -/
theorem reading_rational? : Reading rational? rationalAll? where
  integer _ := rfl
  nan := rfl
  opposite {f g a} number hf := by
    cases f with
    | integer n =>
      cases number
      cases hf
      rw [rational?, Int.cast_neg]
    | symbol | sum | product | power | abs | exp | piecewise => cases number
    | real | infinity | negativeInfinity | nan => cases hf
  all_nil := rfl
  all_cons _ _ := rfl
  sum _ := rfl
  product _ := rfl
  power _ _ := rfl

end Form

/-! ## The terms of expressions -/

namespace Expr

/-- The term of an application is a rational function if the operation makes one of terms that are
the rational functions of its operands. -/
theorem exists_form?_app {op : Op} {es : List Expr}
    (each : ∀ e ∈ es, ∃ f, e.form? = some f ∧ f.rational? = some e.rational)
    (operation : ∀ form : Expr → Form, (∀ e ∈ es, (form e).rational? = some e.rational) →
      ∃ f, Form.ofOp? op (es.map form) = some f ∧ f.rational? = some (app op es).rational) :
    ∃ f, (app op es).form? = some f ∧ f.rational? = some (app op es).rational := by
  choose! form hform hrational using each
  rw [form?, fold_app, ← form?, mapM_id_map hform, Option.bind_some]
  exact operation form hrational

/-- The term of an expression that is a rational function is the same rational function. -/
theorem Rational.exists_form? {e : Expr} (h : e.Rational) :
    ∃ f, e.form? = some f ∧ f.rational? = some e.rational := by
  have reading := Form.reading_rational?
  have field := Arithmetic.rational_ofField
  induction h with
  | const integer =>
    refine ⟨_, rfl, ?_⟩
    rw [Form.ofDouble_of_toInt? integer, rational_const integer]
    rfl
  | var v => exact ⟨_, rfl, rfl⟩
  | add _ _ ha hb =>
    refine exists_form?_app (by simp [ha, hb]) fun form each => ⟨_, rfl, ?_⟩
    rw [rational_app]
    exact reading.add (each _ (by simp)) (each _ (by simp))
  | sub _ _ ha hb =>
    refine exists_form?_app (by simp [ha, hb]) fun form each => ⟨_, rfl, ?_⟩
    rw [rational_app]
    exact reading.sub (each _ (by simp)) (each _ (by simp))
  | mul _ _ ha hb =>
    refine exists_form?_app (by simp [ha, hb]) fun form each => ⟨_, rfl, ?_⟩
    rw [rational_app]
    exact reading.mul (each _ (by simp)) (each _ (by simp))
  | div _ _ divisor ha hb =>
    refine exists_form?_app (by simp [ha, hb]) fun form each => ⟨_, rfl, ?_⟩
    rw [rational_app]
    exact reading.div (each _ (by simp)) (each _ (by simp)) divisor
  | neg _ ha =>
    refine exists_form?_app (by simp [ha]) fun form each => ⟨_, rfl, ?_⟩
    rw [rational_app]
    exact reading.neg (each _ (by simp))
  | mean _ each =>
    refine exists_form?_app each fun form values => ⟨_, rfl, ?_⟩
    rw [rational_app]
    exact reading.mean field values
  | variance _ each =>
    refine exists_form?_app each fun form values => ⟨_, rfl, ?_⟩
    rw [rational_app]
    exact reading.variance field values

end Expr

end ExprCalculus

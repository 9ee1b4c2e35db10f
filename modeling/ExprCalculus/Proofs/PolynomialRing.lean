import Mathlib
import ExprCalculus.Algebra.Polynomial

/-!
# Lists of terms are polynomials

A list of terms stands for the polynomial over the rational numbers that is the sum of its terms.
Every operation on lists of terms is the one of polynomials, differentiation included, and the test
for zero finds out whether the polynomial is zero, because a polynomial has the coefficients of its
list.
-/

namespace ExprCalculus

open MvPolynomial

/-! ## Monomials -/

/-- The powers of the variables in a monomial. -/
noncomputable def Monomial.powers (m : Monomial) : Variable →₀ ℕ :=
  Finsupp.single .x m.x + Finsupp.single .y m.y + Finsupp.single .z m.z

@[simp] theorem Monomial.powers_apply (m : Monomial) (v : Variable) : m.powers v = m.degree v := by
  cases v <;> simp [powers, degree]

theorem Monomial.powers_injective : Function.Injective Monomial.powers := by
  intro a b same
  have degrees (v : Variable) : a.degree v = b.degree v := by
    rw [← powers_apply, same, powers_apply]
  cases a
  cases b
  exact congr (congr (congrArg Monomial.mk (degrees .x)) (degrees .y)) (degrees .z)

theorem Monomial.powers_surjective : Function.Surjective Monomial.powers := by
  intro s
  refine ⟨⟨s .x, s .y, s .z⟩, Finsupp.ext fun v => ?_⟩
  cases v <;> simp [degree]

theorem Monomial.powers_one : one.powers = 0 := by
  simp [powers, one]

theorem Monomial.powers_ofVariable (v : Variable) : (ofVariable v).powers = Finsupp.single v 1 := by
  cases v <;> simp [powers, ofVariable]

theorem Monomial.powers_mul (a b : Monomial) : (a.mul b).powers = a.powers + b.powers := by
  refine Finsupp.ext fun v => ?_
  cases v <;> simp [mul, degree]

theorem Monomial.powers_lower (m : Monomial) (v : Variable) :
    (m.lower v).powers = m.powers - Finsupp.single v 1 := by
  refine Finsupp.ext fun w => ?_
  cases v <;> cases w <;> simp [lower, degree]

namespace Poly

/-- The sum of the terms. -/
noncomputable def polynomial (p : Poly) : MvPolynomial Variable ℚ :=
  (p.map fun term => monomial term.1.powers (term.2 : ℚ)).sum

@[simp] theorem polynomial_nil : polynomial [] = 0 := rfl

@[simp] theorem polynomial_cons (term : PolynomialTerm) (p : Poly) :
    polynomial (term :: p) = monomial term.1.powers (term.2 : ℚ) + polynomial p := by
  rw [polynomial, List.map_cons, List.sum_cons, ← polynomial]

/-! ## Operations -/

theorem polynomial_addTerm (term : PolynomialTerm) (p : Poly) :
    polynomial (addTerm term p) = monomial term.1.powers (term.2 : ℚ) + polynomial p := by
  induction p with
  | nil => rfl
  | cons first rest ih =>
    unfold addTerm
    split
    · rename_i same
      have both : monomial first.1.powers (first.2 : ℚ) + monomial term.1.powers (term.2 : ℚ) =
          monomial first.1.powers ((first.2 + term.2 : Int) : ℚ) := by
        rw [← same, ← map_add, Int.cast_add]
      rw [polynomial_cons, ← add_assoc, add_comm (monomial _ _) (monomial _ _), both]
      split
      · rename_i cancels
        rw [cancels, Int.cast_zero, map_zero, zero_add]
      · rw [polynomial_cons]
    · rw [polynomial_cons, polynomial_cons, ih, add_left_comm]

theorem polynomial_add (p q : Poly) : polynomial (p.add q) = polynomial p + polynomial q := by
  unfold add
  induction q generalizing p with
  | nil => simp
  | cons term q ih =>
    rw [List.foldl_cons, ih, polynomial_addTerm, polynomial_cons, add_assoc, add_left_comm]

theorem polynomial_scale (c : Int) (p : Poly) :
    polynomial (scale c p) = C (c : ℚ) * polynomial p := by
  unfold scale
  induction p with
  | nil => simp
  | cons term p ih =>
    rw [List.map_cons, polynomial_cons, polynomial_cons, ih, mul_add, C_mul_monomial, Int.cast_mul]

theorem polynomial_sub (p q : Poly) : polynomial (p.sub q) = polynomial p - polynomial q := by
  rw [sub, polynomial_add, polynomial_scale]
  simp [sub_eq_add_neg]

theorem polynomial_mulTerm (term : PolynomialTerm) (p : Poly) :
    polynomial (mulTerm term p) = monomial term.1.powers (term.2 : ℚ) * polynomial p := by
  unfold mulTerm
  induction p with
  | nil => simp
  | cons other p ih =>
    rw [List.map_cons, polynomial_cons, polynomial_cons, ih, mul_add, monomial_mul,
      Monomial.powers_mul, Int.cast_mul]

theorem polynomial_mul (p q : Poly) : polynomial (p.mul q) = polynomial p * polynomial q := by
  have run (start : Poly) : polynomial (p.foldl (fun sum term => add sum (mulTerm term q)) start) =
      polynomial start + polynomial p * polynomial q := by
    induction p generalizing start with
    | nil => simp
    | cons term p ih =>
      rw [List.foldl_cons, ih, polynomial_add, polynomial_mulTerm, polynomial_cons, add_mul,
        add_assoc]
  rw [mul, run, polynomial_nil, zero_add]

theorem polynomial_expand (factors : List Poly) :
    polynomial (expand factors) = (factors.map polynomial).prod := by
  have run (start : Poly) : polynomial (factors.foldl mul start) =
      polynomial start * (factors.map polynomial).prod := by
    induction factors generalizing start with
    | nil => simp
    | cons p factors ih =>
      rw [List.foldl_cons, ih, polynomial_mul, List.map_cons, List.prod_cons, mul_assoc]
  have unit : polynomial [(Monomial.one, 1)] = 1 := by
    simp [Monomial.powers_one]
  rw [expand, run, unit, one_mul]

theorem polynomial_const (c : Int) : polynomial (const c) = C (c : ℚ) := by
  simp [const, Monomial.powers_one]

theorem polynomial_ofVariable (v : Variable) : polynomial (ofVariable v) = X v := by
  simp [ofVariable, Monomial.powers_ofVariable, X]

theorem polynomial_derivative (v : Variable) (p : Poly) :
    polynomial (p.derivative v) = pderiv v (polynomial p) := by
  unfold derivative
  induction p with
  | nil => simp
  | cons term p ih =>
    rw [List.map_cons, polynomial_cons, polynomial_cons, ih, map_add, pderiv_monomial,
      Monomial.powers_lower, Monomial.powers_apply]
    push_cast
    rfl

/-! ## The test for zero -/

/-- The coefficients are those of the polynomial that the list of terms stands for. -/
theorem coeff_polynomial (p : Poly) (m : Monomial) :
    (polynomial p).coeff m.powers = p.coefficient m := by
  induction p with
  | nil =>
    rw [polynomial_nil, coeff_zero]
    exact Int.cast_zero.symm
  | cons term p ih =>
    rw [polynomial_cons, coeff_add, coeff_monomial, ih, coefficient_cons, Int.cast_add]
    by_cases same : term.1 = m
    · rw [if_pos same, if_pos (congrArg Monomial.powers same)]
    · rw [if_neg same, if_neg fun powers => same (Monomial.powers_injective powers), Int.cast_zero]

/-- The zero test on lists of terms is exact. -/
theorem isZero_iff_polynomial_eq_zero (p : Poly) : p.isZero = true ↔ polynomial p = 0 := by
  rw [isZero_iff]
  constructor
  · intro h
    ext s
    obtain ⟨m, rfl⟩ := Monomial.powers_surjective s
    rw [coeff_polynomial, h m, Int.cast_zero, coeff_zero]
  · intro h m
    have zero := coeff_polynomial p m
    rw [h, coeff_zero] at zero
    exact_mod_cast zero.symm

end Poly

end ExprCalculus

import Mathlib
import ExprCalculus.Expr.Operation

/-!
# Rational functions

The rational functions in the three variables are the fractions of polynomials over the rational
numbers. They have partial derivatives, and values at points.

Differentiating a polynomial and keeping the polynomial with its derivative is a homomorphism into
the dual numbers. It sends no polynomial but zero to a number that has no inverse, so it goes over
to fractions, and there the second component is the only derivation that differentiates polynomials.

A rational function has a value at a point if it is a fraction whose denominator does not vanish
there. It has at most one, and it is determined by those that it has off the zeros of some
polynomial, because a polynomial that vanishes at every rational point is zero.
-/

namespace ExprCalculus

open MvPolynomial DualNumber TrivSqZeroExt

/-- A fraction of polynomials in the variables. -/
def RationalFunction : Type := FractionRing (MvPolynomial Variable ℚ)

namespace RationalFunction

noncomputable instance : Field RationalFunction :=
  inferInstanceAs (Field (FractionRing (MvPolynomial Variable ℚ)))

noncomputable instance : Algebra (MvPolynomial Variable ℚ) RationalFunction :=
  inferInstanceAs (Algebra _ (FractionRing (MvPolynomial Variable ℚ)))

instance : IsFractionRing (MvPolynomial Variable ℚ) RationalFunction :=
  inferInstanceAs (IsFractionRing _ (FractionRing (MvPolynomial Variable ℚ)))

instance : CharZero RationalFunction :=
  inferInstanceAs (CharZero (FractionRing (MvPolynomial Variable ℚ)))

noncomputable instance : DecidableEq RationalFunction := Classical.decEq _

/-- A polynomial as a rational function. -/
noncomputable def ofPolynomial : MvPolynomial Variable ℚ →+* RationalFunction :=
  algebraMap (MvPolynomial Variable ℚ) RationalFunction

theorem ofPolynomial_injective : Function.Injective ofPolynomial :=
  IsFractionRing.injective (MvPolynomial Variable ℚ) RationalFunction

theorem ofPolynomial_eq_zero_iff {p : MvPolynomial Variable ℚ} : ofPolynomial p = 0 ↔ p = 0 :=
  map_eq_zero_iff ofPolynomial ofPolynomial_injective

/-- A variable as a rational function. -/
noncomputable def ofVariable (v : Variable) : RationalFunction := ofPolynomial (X v)

/-! ## Partial derivatives -/

/-- A polynomial with its partial derivative. -/
noncomputable def polynomialTangent (v : Variable) :
    MvPolynomial Variable ℚ →+* RationalFunction[ε] where
  toFun p := inl (ofPolynomial p) + inr (ofPolynomial (pderiv v p))
  map_one' := by simp
  map_mul' p q := by
    ext
    · simp
    · simp [Derivation.leibniz, mul_comm]
  map_zero' := by simp
  map_add' p q := by
    ext <;> simp

/-- The tangent of a polynomial that does not vanish is invertible, so it extends to fractions. -/
theorem isUnit_polynomialTangent (v : Variable) (p : nonZeroDivisors (MvPolynomial Variable ℚ)) :
    IsUnit (polynomialTangent v p) := by
  rw [isUnit_iff_isUnit_fst]
  have nonzero : ofPolynomial p ≠ 0 :=
    ofPolynomial_eq_zero_iff.not.mpr (nonZeroDivisors.ne_zero p.2)
  simpa [polynomialTangent, isUnit_iff_ne_zero] using nonzero

/-- A rational function with its partial derivative. -/
noncomputable def tangent (v : Variable) : RationalFunction →+* RationalFunction[ε] :=
  IsLocalization.lift (isUnit_polynomialTangent v)

theorem tangent_ofPolynomial (v : Variable) (p : MvPolynomial Variable ℚ) :
    tangent v (ofPolynomial p) = inl (ofPolynomial p) + inr (ofPolynomial (pderiv v p)) :=
  IsLocalization.lift_eq _ p

/-- The tangent of a rational function lies over the function itself. -/
theorem fst_tangent (v : Variable) (r : RationalFunction) : (tangent v r).fst = r := by
  have same : (fstHom ℚ RationalFunction RationalFunction).toRingHom.comp (tangent v) =
      RingHom.id RationalFunction := by
    refine IsLocalization.ringHom_ext (nonZeroDivisors (MvPolynomial Variable ℚ)) ?_
    refine RingHom.ext fun p => ?_
    have fst : (tangent v (ofPolynomial p)).fst = ofPolynomial p := by
      rw [tangent_ofPolynomial, fst_add, fst_inl, fst_inr, add_zero]
    exact fst
  exact RingHom.congr_fun same r

/-- The partial derivative of rational functions. -/
noncomputable def partialDerivative (v : Variable) :
    Derivation ℚ RationalFunction RationalFunction where
  toLinearMap := ((sndHom RationalFunction RationalFunction).toAddMonoidHom.comp
    (tangent v).toAddMonoidHom).toRatLinearMap
  map_one_eq_zero' := by simp
  leibniz' r s := by simp [fst_tangent, mul_comm]

/-- On polynomials the derivative is the formal one. -/
theorem partialDerivative_ofPolynomial (v : Variable) (p : MvPolynomial Variable ℚ) :
    partialDerivative v (ofPolynomial p) = ofPolynomial (pderiv v p) := by
  have snd : (tangent v (ofPolynomial p)).snd = ofPolynomial (pderiv v p) := by
    rw [tangent_ofPolynomial, snd_add, snd_inl, snd_inr, zero_add]
  exact snd

theorem partialDerivative_ofVariable (v w : Variable) :
    partialDerivative v (ofVariable w) = if w = v then 1 else 0 := by
  rw [ofVariable, partialDerivative_ofPolynomial]
  by_cases h : w = v
  · rw [if_pos h, h, pderiv_X_self, map_one]
  · rw [if_neg h, pderiv_X_of_ne h, map_zero]

/-- The quotient rule. -/
theorem partialDerivative_div (v : Variable) (r s : RationalFunction) :
    partialDerivative v (r / s) =
      (partialDerivative v r * s - r * partialDerivative v s) / (s * s) := by
  rw [Derivation.leibniz_div]
  by_cases h : s = 0
  · simp [h]
  · simp only [smul_eq_mul]
    field_simp

/-! ## Values -/

/-- The rational function is a fraction of polynomials whose denominator does not vanish at the
point, and the value is the fraction of their values. -/
def HasValueAt (point : Variable → ℚ) (r : RationalFunction) (a : ℚ) : Prop :=
  ∃ n d, eval point d ≠ 0 ∧ r * ofPolynomial d = ofPolynomial n ∧ a * eval point d = eval point n

variable {point : Variable → ℚ} {r s : RationalFunction} {a b : ℚ}

theorem hasValueAt_ofPolynomial (p : MvPolynomial Variable ℚ) :
    HasValueAt point (ofPolynomial p) (eval point p) :=
  ⟨p, 1, by simp, by simp, by simp⟩

theorem hasValueAt_ofVariable (v : Variable) : HasValueAt point (ofVariable v) (point v) := by
  have value : HasValueAt point (ofPolynomial (X v)) _ := hasValueAt_ofPolynomial (X v)
  rwa [eval_X] at value

theorem hasValueAt_natCast (n : ℕ) : HasValueAt point (n : RationalFunction) (n : ℚ) := by
  have value : HasValueAt point (ofPolynomial n) _ := hasValueAt_ofPolynomial n
  rwa [map_natCast, map_natCast] at value

theorem hasValueAt_intCast (n : ℤ) : HasValueAt point (n : RationalFunction) (n : ℚ) := by
  have value : HasValueAt point (ofPolynomial n) _ := hasValueAt_ofPolynomial n
  rwa [map_intCast, map_intCast] at value

namespace HasValueAt

theorem add (hr : HasValueAt point r a) (hs : HasValueAt point s b) :
    HasValueAt point (r + s) (a + b) := by
  obtain ⟨n, d, hd, hr, ha⟩ := hr
  obtain ⟨m, e, he, hs, hb⟩ := hs
  refine ⟨n * e + m * d, d * e, ?_, ?_, ?_⟩
  · rw [map_mul]
    exact mul_ne_zero hd he
  · simp only [map_add, map_mul]
    linear_combination ofPolynomial e * hr + ofPolynomial d * hs
  · simp only [map_add, map_mul]
    linear_combination eval point e * ha + eval point d * hb

theorem neg (hr : HasValueAt point r a) : HasValueAt point (-r) (-a) := by
  obtain ⟨n, d, hd, hr, ha⟩ := hr
  exact ⟨-n, d, hd, by rw [neg_mul, hr, map_neg], by rw [neg_mul, ha, map_neg]⟩

theorem sub (hr : HasValueAt point r a) (hs : HasValueAt point s b) :
    HasValueAt point (r - s) (a - b) := by
  rw [sub_eq_add_neg, sub_eq_add_neg]
  exact hr.add hs.neg

theorem mul (hr : HasValueAt point r a) (hs : HasValueAt point s b) :
    HasValueAt point (r * s) (a * b) := by
  obtain ⟨n, d, hd, hr, ha⟩ := hr
  obtain ⟨m, e, he, hs, hb⟩ := hs
  refine ⟨n * m, d * e, ?_, ?_, ?_⟩
  · rw [map_mul]
    exact mul_ne_zero hd he
  · simp only [map_mul]
    linear_combination s * ofPolynomial e * hr + ofPolynomial n * hs
  · simp only [map_mul]
    linear_combination b * eval point e * ha + eval point n * hb

/-- A rational function with a value that is not zero is not zero. -/
theorem ne_zero (hr : HasValueAt point r a) (nonzero : a ≠ 0) : r ≠ 0 := by
  rintro rfl
  obtain ⟨n, d, hd, hr, ha⟩ := hr
  have numerator : n = 0 := by
    rw [← ofPolynomial_eq_zero_iff, ← hr, zero_mul]
  rw [numerator, map_zero] at ha
  exact mul_ne_zero nonzero hd ha

theorem inv (hr : HasValueAt point r a) (nonzero : a ≠ 0) : HasValueAt point r⁻¹ a⁻¹ := by
  have r_ne := hr.ne_zero nonzero
  obtain ⟨n, d, hd, hr, ha⟩ := hr
  refine ⟨d, n, ?_, ?_, ?_⟩
  · rw [← ha]
    exact mul_ne_zero nonzero hd
  · rw [← hr, inv_mul_cancel_left₀ r_ne]
  · rw [← ha, inv_mul_cancel_left₀ nonzero]

theorem div (hr : HasValueAt point r a) (hs : HasValueAt point s b) (nonzero : b ≠ 0) :
    HasValueAt point (r / s) (a / b) := by
  rw [div_eq_mul_inv, div_eq_mul_inv]
  exact hr.mul (hs.inv nonzero)

/-- A rational function has one value at a point at most. -/
theorem unique (hr : HasValueAt point r a) (hr' : HasValueAt point r b) : a = b := by
  by_contra different
  have zero := hr.sub hr'
  rw [sub_self] at zero
  exact zero.ne_zero (sub_ne_zero.mpr different) rfl

end HasValueAt

/-! ## Values off the zeros of a polynomial -/

/-- A polynomial that is not zero has a point where it does not vanish. -/
theorem exists_eval_ne_zero {p : MvPolynomial Variable ℚ} (h : p ≠ 0) :
    ∃ point : Variable → ℚ, eval point p ≠ 0 := by
  by_contra vanishes
  push Not at vanishes
  exact h (MvPolynomial.funext fun point => by rw [vanishes point, map_zero])

/-- Off the zeros of some polynomial, a rational function that is not zero has no value that is. -/
theorem exists_ne_zero_of_eval (nonzero : r ≠ 0) : ∃ p : MvPolynomial Variable ℚ, p ≠ 0 ∧
    ∀ point a, eval point p ≠ 0 → HasValueAt point r a → a ≠ 0 := by
  obtain ⟨n, d, hd, rfl⟩ := IsFractionRing.div_surjective (A := MvPolynomial Variable ℚ) r
  have d_ne : ofPolynomial d ≠ 0 := ofPolynomial_eq_zero_iff.not.mpr (nonZeroDivisors.ne_zero hd)
  have n_ne : n ≠ 0 := by
    rintro rfl
    exact nonzero (by rw [map_zero, zero_div])
  refine ⟨n, n_ne, fun point a off value => ?_⟩
  have cleared := value.mul (hasValueAt_ofPolynomial d)
  have numerator : ofPolynomial n / ofPolynomial d * ofPolynomial d = ofPolynomial n :=
    div_mul_cancel₀ _ d_ne
  rintro rfl
  have both := (numerator ▸ cleared).unique (hasValueAt_ofPolynomial n)
  rw [zero_mul] at both
  exact off both.symm

/-- A rational function is zero if it has the value zero off the zeros of some polynomial. -/
theorem eq_zero_of_values {p : MvPolynomial Variable ℚ} (hp : p ≠ 0)
    (h : ∀ point, eval point p ≠ 0 → HasValueAt point r 0) : r = 0 := by
  by_contra nonzero
  obtain ⟨q, hq, values⟩ := exists_ne_zero_of_eval nonzero
  obtain ⟨point, off⟩ := exists_eval_ne_zero (mul_ne_zero hp hq)
  rw [map_mul] at off
  exact values point 0 (right_ne_zero_of_mul off) (h point (left_ne_zero_of_mul off)) rfl

end RationalFunction

end ExprCalculus

import ExprCalculus.Algebra.Fraction
import ExprCalculus.Proofs.FieldExpression
import ExprCalculus.Proofs.PolynomialRing

/-!
# Quotients of polynomials represent rational functions

A quotient of two products of polynomials represents the rational function that gives its numerator
when it is multiplied by its denominator, which must not be zero. Each operation on quotients is the
one on what they represent, differentiation by the quotient rule included, and the tests for zero
and for equality find out what they are asked.

So evaluation in the arithmetic of quotients finds, for every expression that is a rational
function, a quotient that represents it.
-/

namespace ExprCalculus

open RationalFunction

namespace Fraction

/-- The product of polynomials. -/
noncomputable def product (factors : List Poly) : RationalFunction :=
  (factors.map fun p => ofPolynomial p.polynomial).prod

/-- The rational function is the quotient of the two products. -/
def Represents (a : Fraction) (r : RationalFunction) : Prop :=
  product a.den ≠ 0 ∧ r * product a.den = product a.num

@[simp] theorem product_nil : product [] = 1 := rfl

@[simp] theorem product_cons (p : Poly) (factors : List Poly) :
    product (p :: factors) = ofPolynomial p.polynomial * product factors := by
  simp [product]

@[simp] theorem product_append (factors others : List Poly) :
    product (factors ++ others) = product factors * product others := by
  simp [product]

/-- Multiplying factors out leaves their product. -/
theorem product_eq_ofPolynomial_expand (factors : List Poly) :
    product factors = ofPolynomial (Poly.expand factors).polynomial := by
  rw [Poly.polynomial_expand, map_list_prod, List.map_map, product]
  rfl

/-- A product of factors vanishes iff one of the factors is the zero polynomial. -/
theorem product_eq_zero_iff (factors : List Poly) :
    product factors = 0 ↔ factors.any Poly.isZero = true := by
  rw [product, List.prod_eq_zero_iff, List.mem_map, List.any_eq_true]
  simp only [ofPolynomial_eq_zero_iff, Poly.isZero_iff_polynomial_eq_zero]

/-- The factors of one list that are not used up by another are the difference of the lists. -/
theorem without_eq_diff (factors others : List Poly) :
    without factors others = factors.diff others :=
  (List.diff_eq_foldl factors others).symm

/-- A part of a product that does not vanish does not vanish. -/
theorem product_without_ne_zero {factors : List Poly} (others : List Poly)
    (nonzero : product factors ≠ 0) : product (without factors others) ≠ 0 := by
  rw [Ne, product_eq_zero_iff, List.any_eq_true] at nonzero ⊢
  rintro ⟨p, hp, zero⟩
  rw [without_eq_diff] at hp
  exact nonzero ⟨p, List.diff_subset _ _ hp, zero⟩

/-- The factors that two lists share are taken once from either side. -/
theorem product_without (factors others : List Poly) :
    product (without factors others) * product others =
      product (without others factors) * product factors := by
  have same : (without factors others ++ others).Perm (without others factors ++ factors) := by
    rw [without_eq_diff, without_eq_diff, List.perm_iff_count]
    intro p
    simp only [List.count_append, List.count_diff]
    omega
  rw [← product_append, ← product_append, product, product, (same.map _).prod_eq]

namespace Represents

variable {a b : Fraction} {r s : RationalFunction}

theorem ofInt (n : ℤ) : (Fraction.ofInt n).Represents n := by
  refine ⟨one_ne_zero, ?_⟩
  simp [Fraction.ofInt, Poly.polynomial_const]

theorem ofVariable (v : Variable) :
    (Fraction.ofVariable v).Represents (RationalFunction.ofVariable v) := by
  refine ⟨one_ne_zero, ?_⟩
  simp [Fraction.ofVariable, Poly.polynomial_ofVariable, RationalFunction.ofVariable]

/-- The denominator of a sum is that of `a` with what `b` has beyond it, and so it is also that of
`b` with what `a` has beyond it. -/
theorem add (ha : a.Represents r) (hb : b.Represents s) : (a.add b).Represents (r + s) := by
  obtain ⟨a_den, ha⟩ := ha
  obtain ⟨b_den, hb⟩ := hb
  have shared := product_without b.den a.den
  have num : product (a.add b).num = product a.num * product (without b.den a.den) +
      product b.num * product (without a.den b.den) := by
    simp only [Fraction.add, product_cons, product_nil, mul_one, Poly.polynomial_add, map_add,
      ← product_eq_ofPolynomial_expand, product_append]
  have den : product (a.add b).den = product a.den * product (without b.den a.den) :=
    product_append _ _
  constructor
  · rw [den]
    exact mul_ne_zero a_den (product_without_ne_zero _ b_den)
  · rw [num, den]
    linear_combination product (without b.den a.den) * ha + product (without a.den b.den) * hb +
      s * shared

theorem neg (ha : a.Represents r) : a.neg.Represents (-r) := by
  obtain ⟨a_den, ha⟩ := ha
  refine ⟨a_den, ?_⟩
  have num : product a.neg.num = -product a.num := by
    simp [Fraction.neg, Poly.polynomial_const]
  have den : product a.neg.den = product a.den := rfl
  rw [num, den, ← ha, neg_mul]

theorem sub (ha : a.Represents r) (hb : b.Represents s) : (a.sub b).Represents (r - s) := by
  rw [sub_eq_add_neg]
  exact ha.add hb.neg

theorem mul (ha : a.Represents r) (hb : b.Represents s) : (a.mul b).Represents (r * s) := by
  obtain ⟨a_den, ha⟩ := ha
  obtain ⟨b_den, hb⟩ := hb
  have num : product (a.mul b).num = product a.num * product b.num := product_append _ _
  have den : product (a.mul b).den = product a.den * product b.den := product_append _ _
  constructor
  · rw [den]
    exact mul_ne_zero a_den b_den
  · rw [num, den, ← ha, ← hb]
    ring

/-- The zero test on fractions is exact. -/
theorem isZero_iff (ha : a.Represents r) : a.isZero = true ↔ r = 0 := by
  obtain ⟨a_den, ha⟩ := ha
  rw [isZero, ← product_eq_zero_iff, ← ha, mul_eq_zero, or_iff_left a_den]

/-- The test for equality finds out whether two rational functions are equal. -/
theorem equal_iff (ha : a.Represents r) (hb : b.Represents s) : a.equal b = true ↔ r = s := by
  rw [equal, (ha.sub hb).isZero_iff, sub_eq_zero]

/-- A fraction is divided by any fraction that does not stand for zero. -/
theorem exists_div? (ha : a.Represents r) (hb : b.Represents s) (nonzero : s ≠ 0) :
    ∃ c, a.div? b = some c ∧ c.Represents (r / s) := by
  refine ⟨_, if_neg (hb.isZero_iff.not.mpr nonzero), ?_⟩
  obtain ⟨a_den, ha⟩ := ha
  obtain ⟨b_den, hb⟩ := hb
  constructor
  · rw [product_append, ← hb]
    exact mul_ne_zero a_den (mul_ne_zero nonzero b_den)
  · rw [product_append, product_append, ← ha, ← hb]
    field_simp

/-- The quotient rule is what differentiating `r d = n` leaves of the derivative of `r`. -/
theorem derivative (ha : a.Represents r) (v : Variable) :
    (a.derivative v).Represents (partialDerivative v r) := by
  obtain ⟨a_den, ha⟩ := ha
  have den : product (a.derivative v).den = product a.den * product a.den := product_append _ _
  have num : product (a.derivative v).num =
      partialDerivative v (product a.num) * product a.den -
        product a.num * partialDerivative v (product a.den) := by
    simp only [Fraction.derivative, product_cons, product_nil, mul_one, Poly.polynomial_sub,
      Poly.polynomial_mul, Poly.polynomial_derivative, map_sub, map_mul,
      ← partialDerivative_ofPolynomial, ← product_eq_ofPolynomial_expand]
  have differentiated := congrArg (partialDerivative v) ha
  rw [Derivation.leibniz, smul_eq_mul, smul_eq_mul] at differentiated
  constructor
  · rw [den]
    exact mul_ne_zero a_den a_den
  · rw [num, den, ← differentiated, ← ha]
    ring

end Represents

/-- The arithmetic of quotients of polynomials is that of rational functions. -/
theorem arithmetic_fieldCorresponds_rational :
    arithmetic.FieldCorresponds .rational (fun a r => ∃ b, a = some b ∧ b.Represents r)
      (· ≠ 0) where
  ofDouble {value n} integer := by
    refine ⟨.ofInt n, by simp [arithmetic, integer], ?_⟩
    rw [Arithmetic.rational_ofDouble, Double.exact_of_toInt? integer]
    exact .ofInt n
  ofNat n := by
    refine ⟨.ofInt n, rfl, ?_⟩
    rw [Arithmetic.rational_ofNat, ← Int.cast_natCast]
    exact .ofInt n
  count n := by simp [Nat.cast_add_one_ne_zero]
  add := by
    rintro _ _ r s ⟨a, rfl, ha⟩ ⟨b, rfl, hb⟩
    exact ⟨a.add b, rfl, ha.add hb⟩
  sub := by
    rintro _ _ r s ⟨a, rfl, ha⟩ ⟨b, rfl, hb⟩
    exact ⟨a.sub b, rfl, ha.sub hb⟩
  mul := by
    rintro _ _ r s ⟨a, rfl, ha⟩ ⟨b, rfl, hb⟩
    exact ⟨a.mul b, rfl, ha.mul hb⟩
  div := by
    rintro _ _ r s ⟨a, rfl, ha⟩ ⟨b, rfl, hb⟩ nonzero
    exact ha.exists_div? hb nonzero
  neg := by
    rintro _ r ⟨a, rfl, ha⟩
    exact ⟨a.neg, rfl, ha.neg⟩

end Fraction

namespace Expr

/-- An expression that is a rational function has a quotient of polynomials, which represents it. -/
theorem Rational.exists_fraction? {e : Expr} (h : e.Rational) :
    ∃ a, e.fraction? = some a ∧ a.Represents e.rational :=
  Fraction.arithmetic_fieldCorresponds_rational.eval
    (fun v => ⟨.ofVariable v, rfl, .ofVariable v⟩) h

/-- Equality of expressions that are rational functions is decided. -/
theorem Rational.exists_equivalent? {a b : Expr} (ha : a.Rational) (hb : b.Rational) :
    ∃ same, a.equivalent? b = some same ∧ (same = true ↔ a.rational = b.rational) := by
  obtain ⟨c, hc, represents_a⟩ := ha.exists_fraction?
  obtain ⟨d, hd, represents_b⟩ := hb.exists_fraction?
  refine ⟨c.equal d, ?_, represents_a.equal_iff represents_b⟩
  rw [equivalent?, hc, hd]
  rfl

end Expr

end ExprCalculus

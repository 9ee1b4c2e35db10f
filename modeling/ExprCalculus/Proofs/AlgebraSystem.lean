import ExprCalculus.Algebra.Verifier
import ExprCalculus.Proofs.FractionMeaning
import ExprCalculus.Proofs.RationalTerm

/-!
# Algebra systems

Of an algebra system it is asked that it finds a term to be zero exactly if it is the rational
function zero, and that it differentiates terms as rational functions are differentiated. Nothing is
asked of it about terms that are no rational functions. The system that computes with quotients of
polynomials does both.

Then two expressions that are rational functions are equivalent for the system exactly when they
agree at every rational point where both are defined.
-/

namespace ExprCalculus

open RationalFunction

namespace AlgebraSystem

/-- A term that is a rational function is found to be zero exactly if the function is. -/
def DecidesZero (S : AlgebraSystem) : Prop :=
  ∀ form r, form.rational? = some r → (S.isZero form = true ↔ r = 0)

/-- A term that is a rational function has the partial derivative of the function. -/
def Differentiates (S : AlgebraSystem) : Prop :=
  ∀ v form r, form.rational? = some r →
    (S.derivative v form).rational? = some (partialDerivative v r)

end AlgebraSystem

/-! ## The algebra of rational functions -/

namespace Fraction.Represents

variable {a : Fraction} {r : RationalFunction}

theorem zero : (Fraction.ofInt 0).Represents 0 := by
  simpa using ofInt 0

theorem one : (Fraction.ofInt 1).Represents 1 := by
  simpa using ofInt 1

theorem powNat (ha : a.Represents r) (n : Nat) : (a.powNat n).Represents (r ^ n) := by
  induction n with
  | zero =>
    rw [pow_zero]
    exact one
  | succ n ih =>
    rw [pow_succ]
    exact ih.mul ha

/-- A fraction has every integer power that its function has. -/
theorem exists_power? (ha : a.Represents r) {n : Int} (defined : r ≠ 0 ∨ 0 ≤ n) :
    ∃ b, a.power? n = some b ∧ b.Represents (r ^ n) := by
  cases n with
  | ofNat n =>
    refine ⟨_, rfl, ?_⟩
    rw [Int.ofNat_eq_natCast, zpow_natCast]
    exact ha.powNat n
  | negSucc n =>
    have nonzero : r ≠ 0 := defined.resolve_right (Int.negSucc_not_nonneg n).mp
    rw [zpow_negSucc, ← one_div]
    exact one.exists_div? (ha.powNat (n + 1)) (pow_ne_zero _ nonzero)

theorem sum {as : List Fraction} {rs : List RationalFunction}
    (each : List.Forall₂ Represents as rs) :
    (as.foldr Fraction.add (.ofInt 0)).Represents rs.sum :=
  List.rel_foldr (fun _ _ ha _ _ hb => ha.add hb) zero each

theorem prod {as : List Fraction} {rs : List RationalFunction}
    (each : List.Forall₂ Represents as rs) :
    (as.foldr Fraction.mul (.ofInt 1)).Represents rs.prod :=
  List.rel_foldr (fun _ _ ha _ _ hb => ha.mul hb) one each

end Fraction.Represents

namespace Form

mutual

/-- A term that is a rational function has a quotient of polynomials, which represents it. -/
theorem exists_fraction? {form : Form} {r : RationalFunction} (h : form.rational? = some r) :
    ∃ a, form.fraction? = some a ∧ a.Represents r := by
  match form with
  | .integer n =>
    cases h
    exact ⟨_, rfl, .ofInt n⟩
  | .symbol v =>
    cases h
    exact ⟨_, rfl, .ofVariable v⟩
  | .sum terms =>
    rw [reading_rational?.sum, Option.map_eq_some_iff] at h
    obtain ⟨rs, hrs, rfl⟩ := h
    obtain ⟨as, has, each⟩ := exists_fractionAll? hrs
    exact ⟨_, by rw [fraction?, has, Option.map_some], .sum each⟩
  | .product factors =>
    rw [reading_rational?.product, Option.map_eq_some_iff] at h
    obtain ⟨rs, hrs, rfl⟩ := h
    obtain ⟨as, has, each⟩ := exists_fractionAll? hrs
    exact ⟨_, by rw [fraction?, has, Option.map_some], .prod each⟩
  | .power base (.integer n) =>
    obtain ⟨s, hs, defined, rfl⟩ := reading_rational?.pow.mp h
    obtain ⟨b, hb, represents⟩ := exists_fraction? hs
    obtain ⟨c, hc, power⟩ := represents.exists_power? defined
    exact ⟨c, by rw [fraction?, hb, Option.bind_some, hc], power⟩

/-- Terms that are rational functions have quotients of polynomials, which represent them. -/
theorem exists_fractionAll? {forms : List Form} {rs : List RationalFunction}
    (h : rationalAll? forms = some rs) :
    ∃ as, fractionAll? forms = some as ∧ List.Forall₂ Fraction.Represents as rs := by
  match forms with
  | [] =>
    cases h
    exact ⟨[], rfl, .nil⟩
  | form :: forms =>
    obtain ⟨r, rs, hr, hrs, rfl⟩ := reading_rational?.all_cons_iff.mp h
    obtain ⟨a, ha, head⟩ := exists_fraction? hr
    obtain ⟨as, has, tail⟩ := exists_fractionAll? hrs
    exact ⟨a :: as, by rw [fractionAll?, ha, has, Option.bind_some, Option.map_some],
      .cons head tail⟩

end

mutual

/-- The rules for sums, products and powers differentiate rational functions. -/
theorem rational?_derivative (v : Variable) {form : Form} {r : RationalFunction}
    (h : form.rational? = some r) :
    (form.derivative v).rational? = some (partialDerivative v r) := by
  match form with
  | .integer n =>
    cases h
    rw [Derivation.map_intCast, derivative, rational?, Int.cast_zero]
  | .symbol w =>
    cases h
    rw [partialDerivative_ofVariable, derivative, rational?]
    split <;> simp
  | .sum terms =>
    rw [reading_rational?.sum, Option.map_eq_some_iff] at h
    obtain ⟨rs, hrs, rfl⟩ := h
    rw [derivative, reading_rational?.sum, rationalAll?_derivatives v hrs, Option.map_some,
      map_list_sum]
  | .product factors =>
    rw [reading_rational?.product, Option.map_eq_some_iff] at h
    obtain ⟨rs, hrs, rfl⟩ := h
    rw [derivative, rational?_productDerivative v hrs]
  | .power base (.integer n) =>
    obtain ⟨s, hs, defined, rfl⟩ := reading_rational?.pow.mp h
    have slope := rational?_derivative v hs
    rw [derivative]
    split
    · rename_i zero
      rw [zero, zpow_zero, Derivation.map_one_eq_zero, rational?, Int.cast_zero]
    · rename_i nonzero
      have lowered : s ≠ 0 ∨ 0 ≤ n - 1 := defined.imp_right fun _ => by omega
      have power := reading_rational?.pow.mpr ⟨s, hs, lowered, rfl⟩
      rw [Derivation.leibniz_zpow, zsmul_eq_mul, smul_eq_mul]
      exact reading_rational?.product_cons.mpr
        ⟨n, _, reading_rational?.integer n, reading_rational?.mul power slope, rfl⟩

/-- The derivatives of several terms are the partial derivatives of their functions. -/
theorem rationalAll?_derivatives (v : Variable) {forms : List Form} {rs : List RationalFunction}
    (h : rationalAll? forms = some rs) :
    rationalAll? (derivatives v forms) = some (rs.map (partialDerivative v)) := by
  match forms with
  | [] =>
    cases h
    rfl
  | form :: forms =>
    obtain ⟨r, rs, hr, hrs, rfl⟩ := reading_rational?.all_cons_iff.mp h
    exact reading_rational?.all_cons_iff.mpr
      ⟨_, _, rational?_derivative v hr, rationalAll?_derivatives v hrs, rfl⟩

/-- The derivative of a product is that of the product of the functions, factor by factor. -/
theorem rational?_productDerivative (v : Variable) {forms : List Form} {rs : List RationalFunction}
    (h : rationalAll? forms = some rs) :
    (productDerivative v forms).rational? = some (partialDerivative v rs.prod) := by
  match forms with
  | [] =>
    cases h
    rw [List.prod_nil, Derivation.map_one_eq_zero, productDerivative, rational?, Int.cast_zero]
  | form :: forms =>
    obtain ⟨r, rs, hr, hrs, rfl⟩ := reading_rational?.all_cons_iff.mp h
    have rest : (product forms).rational? = some rs.prod := by
      rw [reading_rational?.product, hrs, Option.map_some]
    have first := reading_rational?.product_cons.mpr
      ⟨partialDerivative v r, rs.prod, rational?_derivative v hr, rest, rfl⟩
    have second := reading_rational?.mul hr (rational?_productDerivative v hrs)
    rw [productDerivative, reading_rational?.add first second, List.prod_cons, Derivation.leibniz,
      smul_eq_mul, smul_eq_mul, add_comm, mul_comm rs.prod]

end

end Form

namespace AlgebraSystem

/-- The algebra of rational functions finds out whether a term is zero. -/
theorem rational_decidesZero : AlgebraSystem.rational.DecidesZero := by
  intro form r h
  obtain ⟨a, ha, represents⟩ := form.exists_fraction? h
  rw [← represents.isZero_iff]
  simp only [rational, ha, Option.any_some]

/-- It differentiates terms as their functions are differentiated. -/
theorem rational_differentiates : AlgebraSystem.rational.Differentiates :=
  fun v _ _ h => Form.rational?_derivative v h

/-! ## Equivalence -/

/-- The difference of the terms of two rational functions is found to be zero exactly if the
functions are equal. -/
theorem DecidesZero.isZero_difference_iff {S : AlgebraSystem} (decides : S.DecidesZero)
    {f g : Form} {r s : RationalFunction} (hf : f.rational? = some r) (hg : g.rational? = some s) :
    S.isZero (f.difference g) = true ↔ r = s := by
  rw [decides _ _ (Form.reading_rational?.difference hf hg), sub_eq_zero]

/-- Equivalence of expressions that are rational functions is answered, by the quotients of
polynomials as well. The answer is yes exactly if the expressions have equal values at all rational
points where both are defined. -/
theorem equivalent_iff_eval_eq {S : AlgebraSystem} (decides : S.DecidesZero) (E : ℚ → ℚ)
    {a b : Expr} (ha : a.Rational) (hb : b.Rational) :
    ∃ answer, S.equivalent a b = .ok answer ∧ a.equivalent? b = some answer ∧
      (answer = true ↔ ∀ point : Variable → ℚ, a.DefinedAt E point → b.DefinedAt E point →
        a.eval (.exact E) point = b.eval (.exact E) point) := by
  obtain ⟨f, hf, f_rational⟩ := ha.exists_form?
  obtain ⟨g, hg, g_rational⟩ := hb.exists_form?
  obtain ⟨same, hsame, same_iff⟩ := ha.exists_equivalent? hb
  have zero_iff := decides.isZero_difference_iff f_rational g_rational
  have answers : same = S.isZero (f.difference g) :=
    Bool.eq_iff_iff.mpr (same_iff.trans zero_iff.symm)
  refine ⟨S.isZero (f.difference g), ?_, ?_, ?_⟩
  · rw [equivalent, hf, hg]
    rfl
  · rw [hsame, answers]
  · rw [zero_iff, Expr.rational_eq_iff_eval_eq E ha hb]

/-- A difference of squares over the difference, which is undefined where both are equal, and the
sum. -/
theorem equivalent_of_cancelled_difference :
    let x : Expr := .var .x
    let y : Expr := .var .y
    let a : Expr := .app .divide [
      .app .subtract [.app .multiply [x, x], .app .multiply [y, y]], .app .subtract [x, y]]
    let b : Expr := .app .add [x, y]
    let E : ℚ → ℚ := fun q => q + 1
    AlgebraSystem.rational.DecidesZero ∧ a.Rational ∧ b.Rational ∧
      ∃ answer, AlgebraSystem.rational.equivalent a b = .ok answer ∧ a.equivalent? b = some answer ∧
        (answer = true ↔ ∀ point : Variable → ℚ, a.DefinedAt E point → b.DefinedAt E point →
          a.eval (.exact E) point = b.eval (.exact E) point) := by
  intro x y a b E
  let point : Variable → ℚ := fun v => v.index
  have difference : (Expr.app .subtract [x, y]).Rational := .sub (.var _) (.var _)
  have defined : (Expr.app .subtract [x, y]).DefinedAt E point := by
    simp [x, y, Expr.definedAt_app, Expr.denominator?, Expr.DefinedAt.var]
  have nonzero : (Expr.app .subtract [x, y]).eval (.exact E) point ≠ 0 := by
    simp [x, y, point, Arithmetic.apply, Variable.index]
  have ha : a.Rational := .div (.sub (.mul (.var _) (.var _)) (.mul (.var _) (.var _))) difference
    (difference.rational_ne_zero defined nonzero)
  have hb : b.Rational := .add (.var _) (.var _)
  exact ⟨rational_decidesZero, ha, hb, equivalent_iff_eval_eq rational_decidesZero E ha hb⟩

end AlgebraSystem

end ExprCalculus

import ExprCalculus.Proofs.AlgebraSystem
import ExprCalculus.Proofs.FirstOrder

/-!
# Formal derivatives

The derivative of an expression that is a rational function is again a rational function: the
divisors that the rules introduce are products of divisors with themselves. It is the partial
derivative of the expression's rational function, which each rule keeps. So an algebra system that
differentiates rational functions finds no difference between its derivative and the expression's
own.
-/

namespace ExprCalculus

open RationalFunction

namespace Tangent

/-- Value and slope are rational functions, and the slope is the partial derivative of the value. -/
structure Formal (v : Variable) (t : Tangent) : Prop where
  value : t.value.Rational
  slope : t.slope.Rational
  derivative : t.slope.rational = partialDerivative v t.value.rational

theorem toInt?_ofNat_small :
    (Double.ofNat 0).toInt? = some 0 ∧ (Double.ofNat 1).toInt? = some 1 := by
  decide +kernel

theorem rational_number_zero : (number 0).Rational ∧ (number 0).rational = 0 := by
  have integer := toInt?_ofNat_small.1
  exact ⟨.const integer, (Expr.rational_const integer).trans Int.cast_zero⟩

theorem rational_number_one : (number 1).Rational ∧ (number 1).rational = 1 := by
  have integer := toInt?_ofNat_small.2
  exact ⟨.const integer, (Expr.rational_const integer).trans Int.cast_one⟩

variable {v : Variable}

namespace Formal

/- The rational function of an operation follows from those of its operands. -/
attribute [local simp] Expr.rational_app Arithmetic.apply

theorem const {value : Double} {n : Int} (integer : value.toInt? = some n) :
    (Tangent.const value).Formal v where
  value := .const integer
  slope := rational_number_zero.1
  derivative := by
    rw [Tangent.const, Expr.rational_const integer, Derivation.map_intCast, rational_number_zero.2]

theorem var (w : Variable) : (Tangent.var v.name w).Formal v := by
  have derivative := partialDerivative_ofVariable v w
  by_cases same : w = v
  · have slope_eq : (Tangent.var v.name w).slope = number 1 := if_pos (congrArg _ same)
    rw [if_pos same, ← rational_number_one.2, ← slope_eq] at derivative
    refine ⟨.var w, ?_, derivative.symm⟩
    rw [slope_eq]
    exact rational_number_one.1
  · have slope_eq : (Tangent.var v.name w).slope = number 0 := by
      refine if_neg fun names => same (Option.some.inj ?_)
      rw [← Variable.ofName?_name, names, Variable.ofName?_name]
    rw [if_neg same, ← rational_number_zero.2, ← slope_eq] at derivative
    refine ⟨.var w, ?_, derivative.symm⟩
    rw [slope_eq]
    exact rational_number_zero.1

variable {f g : Tangent} {fs : List Tangent}

theorem add (hf : f.Formal v) (hg : g.Formal v) : (Tangent.add f g).Formal v where
  value := .add hf.value hg.value
  slope := .add hf.slope hg.slope
  derivative := by simp [Tangent.add, hf.derivative, hg.derivative]

theorem sub (hf : f.Formal v) (hg : g.Formal v) : (Tangent.sub f g).Formal v where
  value := .sub hf.value hg.value
  slope := .sub hf.slope hg.slope
  derivative := by simp [Tangent.sub, hf.derivative, hg.derivative]

theorem mul (hf : f.Formal v) (hg : g.Formal v) : (Tangent.mul f g).Formal v where
  value := .mul hf.value hg.value
  slope := .add (.mul hf.slope hg.value) (.mul hf.value hg.slope)
  derivative := by
    have slope_eq : (Tangent.mul f g).slope.rational =
        f.slope.rational * g.value.rational + f.value.rational * g.slope.rational := by
      simp [Tangent.mul]
    have value_eq : (Tangent.mul f g).value.rational = f.value.rational * g.value.rational := by
      simp [Tangent.mul]
    rw [slope_eq, value_eq, Derivation.leibniz, hf.derivative, hg.derivative, smul_eq_mul,
      smul_eq_mul]
    ring

/-- The divisor of the slope is the square of the divisor. -/
theorem div (hf : f.Formal v) (hg : g.Formal v) (nonzero : g.value.rational ≠ 0) :
    (Tangent.div f g).Formal v where
  value := .div hf.value hg.value nonzero
  slope := by
    refine .div (.sub (.mul hf.slope hg.value) (.mul hf.value hg.slope))
      (.mul hg.value hg.value) ?_
    simpa using nonzero
  derivative := by
    simp [Tangent.div, hf.derivative, hg.derivative, partialDerivative_div]

theorem neg (hf : f.Formal v) : (Tangent.neg f).Formal v where
  value := .neg hf.value
  slope := .neg hf.slope
  derivative := by simp [Tangent.neg, hf.derivative]

theorem mean (each : ∀ f ∈ fs, f.Formal v) : (Tangent.mean fs).Formal v where
  value := .mean (List.forall_mem_map.mpr fun f hf => (each f hf).value)
  slope := .mean (List.forall_mem_map.mpr fun f hf => (each f hf).slope)
  derivative := by
    have slope_eq : (Tangent.mean fs).slope.rational =
        (fs.map fun f => f.slope.rational).sum / fs.length := by
      simp [Tangent.mean, Arithmetic.rational_ofField.mean, Function.comp_def]
    have value_eq : (Tangent.mean fs).value.rational =
        (fs.map fun f => f.value.rational).sum / fs.length := by
      simp [Tangent.mean, Arithmetic.rational_ofField.mean, Function.comp_def]
    have slopes : fs.map (fun f => f.slope.rational) =
        (fs.map fun f => f.value.rational).map (partialDerivative v) := by
      rw [List.map_map]
      exact List.map_congr_left fun f hf => (each f hf).derivative
    have count : partialDerivative v (fs.length : RationalFunction) = 0 :=
      Derivation.map_natCast _ _
    rw [slope_eq, value_eq, slopes, ← map_list_sum, Derivation.leibniz_div_const _ _ _ count,
      smul_eq_mul, inv_mul_eq_div]

theorem squaredDeviation (each : ∀ f ∈ fs, f.Formal v) (hf : f.Formal v) :
    (Tangent.squaredDeviation fs f).Formal v :=
  (hf.sub (mean each)).mul (hf.sub (mean each))

theorem variance (each : ∀ f ∈ fs, f.Formal v) : (Tangent.variance fs).Formal v := by
  have deviations : ∀ d ∈ fs.map (Tangent.squaredDeviation fs), d.Formal v :=
    List.forall_mem_map.mpr fun f hf => squaredDeviation each (each f hf)
  have formal := mean deviations
  exact {
    value := .variance (List.forall_mem_map.mpr fun f hf => (each f hf).value)
    slope := formal.slope
    derivative := by
      rw [Expr.rational, Expr.rational, eval_value_variance]
      exact formal.derivative }

end Formal

/-- The tangent of an application is formal if its rule makes a formal one of formal tangents of the
operands. -/
theorem exists_ofExpr?_app_formal {op : Op} {es : List Expr}
    (each : ∀ e ∈ es, ∃ t, ofExpr? v.name e = some t ∧ t.Formal v)
    (rule : ∀ tangent : Expr → Tangent, (∀ e ∈ es, (tangent e).value = e) →
      (∀ e ∈ es, (tangent e).Formal v) → ∃ t, ofOp? op (es.map tangent) = some t ∧ t.Formal v) :
    ∃ t, ofExpr? v.name (.app op es) = some t ∧ t.Formal v := by
  choose! tangent htangent formal using each
  rw [ofExpr?_app htangent]
  exact rule tangent (fun e he => value_of_ofExpr? (htangent e he)) formal

/-- An expression that is a rational function has a formal tangent. -/
theorem exists_ofExpr?_formal (v : Variable) {e : Expr} (h : e.Rational) :
    ∃ t, ofExpr? v.name e = some t ∧ t.Formal v := by
  induction h with
  | const integer => exact ⟨_, rfl, .const integer⟩
  | var w => exact ⟨_, rfl, .var w⟩
  | add _ _ ha hb =>
    exact exists_ofExpr?_app_formal (by simp [ha, hb]) fun tangent _ formal =>
      ⟨_, rfl, .add (formal _ (by simp)) (formal _ (by simp))⟩
  | sub _ _ ha hb =>
    exact exists_ofExpr?_app_formal (by simp [ha, hb]) fun tangent _ formal =>
      ⟨_, rfl, .sub (formal _ (by simp)) (formal _ (by simp))⟩
  | mul _ _ ha hb =>
    exact exists_ofExpr?_app_formal (by simp [ha, hb]) fun tangent _ formal =>
      ⟨_, rfl, .mul (formal _ (by simp)) (formal _ (by simp))⟩
  | @div a b _ _ nonzero ha hb =>
    refine exists_ofExpr?_app_formal (by simp [ha, hb]) fun tangent value formal =>
      ⟨_, rfl, .div (formal a (by simp)) (formal b (by simp)) ?_⟩
    rwa [value b (by simp)]
  | neg _ ha =>
    exact exists_ofExpr?_app_formal (by simp [ha]) fun tangent _ formal =>
      ⟨_, rfl, .neg (formal _ (by simp))⟩
  | mean _ each =>
    exact exists_ofExpr?_app_formal each fun tangent _ formal =>
      ⟨_, rfl, .mean (List.forall_mem_map.mpr formal)⟩
  | variance _ each =>
    exact exists_ofExpr?_app_formal each fun tangent _ formal =>
      ⟨_, rfl, .variance (List.forall_mem_map.mpr formal)⟩

end Tangent

/-- The derivative of an expression that is a rational function is one, the partial derivative. -/
theorem Expr.Rational.exists_diff? {e : Expr} (h : e.Rational) (v : Variable) :
    ∃ d, e.diff? v.name = some d ∧ d.Rational ∧ d.rational = partialDerivative v e.rational := by
  obtain ⟨t, ht, formal⟩ := Tangent.exists_ofExpr?_formal v h
  have slope := formal.derivative
  rw [Tangent.value_of_ofExpr? ht] at slope
  exact ⟨t.slope, by rw [diff?, ht, Option.map_some], formal.slope, slope⟩

/-- The derivative of an expression that is a rational function is found to agree with that of its
quotient of polynomials. -/
theorem Expr.Rational.derivativeAgrees? {e : Expr} (h : e.Rational) (v : Variable) :
    e.derivativeAgrees? v = some true := by
  obtain ⟨d, hd, d_rational, slope⟩ := h.exists_diff? v
  obtain ⟨a, ha, represents⟩ := h.exists_fraction?
  obtain ⟨b, hb, slope_represents⟩ := d_rational.exists_fraction?
  have equal : b.equal (a.derivative v) = true :=
    (slope_represents.equal_iff (represents.derivative v)).mpr slope
  simp [Expr.derivativeAgrees?, hd, ha, hb, equal]

namespace AlgebraSystem

/-- The derivative of an expression that is a rational function is again one, with divisors that are
not zero, and it is the partial derivative. The algebra system compares its term with its own
derivative of the expression's term, and finds that they agree. -/
theorem compareDerivatives_agrees {S : AlgebraSystem} (decides : S.DecidesZero)
    (differentiates : S.Differentiates) {e : Expr} (h : e.Rational) (v : Variable) :
    ∃ d form comparison, e.diff? v.name = some d ∧ d.Rational ∧
      d.rational = partialDerivative v e.rational ∧
      S.compareDerivatives v.name e = .ok comparison ∧
      d.form? = some comparison.derivative ∧ e.form? = some form ∧
      comparison.reference = S.derivative v form ∧ comparison.agrees = true ∧
      e.derivativeAgrees? v = some true := by
  obtain ⟨d, hd, d_rational, slope⟩ := h.exists_diff? v
  obtain ⟨f, hf, f_rational⟩ := h.exists_form?
  obtain ⟨g, hg, g_rational⟩ := d_rational.exists_form?
  have reference := differentiates v f _ f_rational
  have agrees : S.isZero (g.difference (S.derivative v f)) = true :=
    (decides.isZero_difference_iff g_rational reference).mpr slope
  refine ⟨d, f, ⟨g, S.derivative v f, true⟩, hd, d_rational, slope, ?_, hg, hf, rfl, rfl,
    h.derivativeAgrees? v⟩
  simp only [compareDerivatives, hd, hf, hg, agrees, orFault, Variable.direction,
    Variable.ofName?_name, bind, Except.bind, pure, Except.pure]

/-- The variance of a quotient and of the mean of nothing, by the variable of the divisor. -/
theorem compareDerivatives_agrees_variance :
    let e : Expr := .app .var [.app .divide [.var .x, .var .y], .app .mean []]
    AlgebraSystem.rational.DecidesZero ∧ AlgebraSystem.rational.Differentiates ∧ e.Rational ∧
      ∃ d form comparison, e.diff? Variable.y.name = some d ∧ d.Rational ∧
        d.rational = partialDerivative .y e.rational ∧
        AlgebraSystem.rational.compareDerivatives Variable.y.name e = .ok comparison ∧
        d.form? = some comparison.derivative ∧ e.form? = some form ∧
        comparison.reference = AlgebraSystem.rational.derivative .y form ∧
        comparison.agrees = true ∧ e.derivativeAgrees? .y = some true := by
  intro e
  let E : ℚ → ℚ := fun q => q + 1
  let point : Variable → ℚ := fun v => v.index
  have y : (Expr.var .y).Rational := .var .y
  have at_point : (Expr.var .y).eval (.exact E) point ≠ 0 := by
    simp [point, Variable.index]
  have quotient : (Expr.app .divide [.var .x, .var .y]).Rational :=
    .div (.var .x) y (y.rational_ne_zero (.var .y) at_point)
  have nothing : (Expr.app .mean []).Rational := .mean (by simp)
  have h : e.Rational :=
    .variance (List.forall_mem_cons.mpr ⟨quotient, List.forall_mem_singleton.mpr nothing⟩)
  exact ⟨rational_decidesZero, rational_differentiates, h,
    compareDerivatives_agrees rational_decidesZero rational_differentiates h .y⟩

end AlgebraSystem

end ExprCalculus

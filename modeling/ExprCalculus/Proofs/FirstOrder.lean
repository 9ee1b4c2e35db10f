import Mathlib
import ExprCalculus.Proofs.ExactArithmetic
import ExprCalculus.Proofs.WellFormedness

/-!
# The derivative is the first-order coefficient

Exact arithmetic is lifted to dual numbers `a + a' ε` with `ε ε = 0`. Evaluating an expression with
`ε` added to one variable gives its value and, as the coefficient of `ε`, the value of its symbolic
derivative; and the derivative is defined wherever the expression is.

The proof follows the tangents that differentiation folds over an expression. A tangent is *sound*
at a point when its two expressions are the two parts of that dual evaluation. Every rule keeps
soundness, and so do the tangents that the rules of variance and of the bell curve build on the way.
-/

namespace ExprCalculus

open DualNumber TrivSqZeroExt

variable {K : Type} [Field K]

theorem fst_list_sum (vs : List K[ε]) : vs.sum.fst = (vs.map fst).sum :=
  map_list_sum (fstHom K K K) vs

theorem snd_list_sum (vs : List K[ε]) : vs.sum.snd = (vs.map snd).sum :=
  map_list_sum (sndHom K K) vs

variable [LinearOrder K] (E : K → K)

/-- The arithmetic of dual numbers over exact arithmetic. A choice and an absolute value look at the
value part alone. -/
@[simps]
def Arithmetic.dual : Arithmetic K[ε] where
  ofDouble value := inl value.exact
  ofNat n := n
  undefined := 0
  add a b := a + b
  sub a b := a - b
  mul a b := a * b
  div a b := inl (a.fst / b.fst) + inr ((a.snd * b.fst - a.fst * b.snd) / b.fst ^ 2)
  neg a := -a
  abs a := if 0 ≤ a.fst then a else -a
  exp a := inl (E a.fst) + inr (E a.fst * a.snd)
  select c a b := if 0 ≤ c.fst then a else b

/-- The point with `ε` added to the variable of a name, if there is one. -/
def dualPoint (name : List Char) (point : Variable → K) (v : Variable) : K[ε] :=
  inl (point v) + if v.name = name then ε else 0

namespace Arithmetic

theorem foldl_add_dual (v : K[ε]) (vs : List K[ε]) :
    vs.foldl (dual E).add v = v + vs.sum := by
  induction vs generalizing v with
  | nil => simp
  | cons w vs ih => rw [List.foldl_cons, ih, dual_add, List.sum_cons, add_assoc]

theorem fst_mean_dual (vs : List K[ε]) :
    ((dual E).mean vs).fst = (vs.map fst).sum / vs.length := by
  cases vs with
  | nil => simp [mean]
  | cons v vs => simp [mean, foldl_add_dual, fst_list_sum]

/-- A count has no first-order part, so the quotient rule only divides the sum of slopes by it. -/
theorem snd_mean_dual [CharZero K] (vs : List K[ε]) :
    ((dual E).mean vs).snd = (vs.map snd).sum / vs.length := by
  cases vs with
  | nil => simp [mean]
  | cons v vs =>
    have count : (vs.length + 1 : K) ≠ 0 := Nat.cast_add_one_ne_zero vs.length
    simp [mean, foldl_add_dual, snd_list_sum]
    field_simp

/-- The exponent whose derivative is taken in the rule of the bell curve is the one that evaluation
computes, though in other steps. -/
theorem dual_exponent [CharZero K] {b c x : K[ε]} (width : c.fst ≠ 0) :
    (dual E).neg ((dual E).div ((dual E).mul ((dual E).sub x b) ((dual E).sub x b))
        ((dual E).mul ((dual E).mul c c) (inl 2))) =
      (dual E).div ((dual E).mul ((dual E).neg ((dual E).div ((dual E).sub x b) c))
        ((dual E).div ((dual E).sub x b) c)) ((dual E).ofNat 2) := by
  have two : (((2 : ℕ) : K[ε])) = inl 2 := by rw [← inl_natCast, Nat.cast_ofNat]
  rw [dual_ofNat, two]
  ext
  · simp
    field_simp
  · simp
    field_simp
    ring

end Arithmetic

namespace Tangent

/-- The expressions of a tangent are defined at the point, and they are the value and the
first-order coefficient of its dual evaluation there. -/
structure Sound (name : List Char) (point : Variable → K) (t : Tangent) : Prop where
  fst_eq : (t.value.eval (.dual E) (dualPoint name point)).fst = t.value.eval (.exact E) point
  snd_eq : (t.value.eval (.dual E) (dualPoint name point)).snd = t.slope.eval (.exact E) point
  value_defined : t.value.DefinedAt E point
  slope_defined : t.slope.DefinedAt E point

/-- Variance is evaluated as the mean of the expressions that its rule differentiates. -/
theorem eval_value_variance {α : Type} (A : Arithmetic α) (point : Variable → α)
    (fs : List Tangent) : (variance fs).value.eval A point =
      (mean (fs.map (squaredDeviation fs))).value.eval A point := by
  simp [variance, mean, squaredDeviation, mul, sub, Arithmetic.apply, Arithmetic.variance,
    Arithmetic.squaredDeviations, Function.comp_def]

variable {E} {name : List Char} {point : Variable → K}

namespace Sound

/- The value of an operation, and where it is defined, follow from those of its operands. -/
attribute [local simp] Arithmetic.apply Expr.definedAt_app Expr.denominator?

theorem const (value : Double) : (Tangent.const value).Sound E name point where
  fst_eq := by simp [Tangent.const]
  snd_eq := by simp [Tangent.const, number, Double.exact_ofNat_zero]
  value_defined := .const value
  slope_defined := .const _

theorem var [CharZero K] (v : Variable) : (Tangent.var name v).Sound E name point := by
  by_cases h : v.name = name
  · exact {
      fst_eq := by simp [Tangent.var, dualPoint, h]
      snd_eq := by simp [Tangent.var, dualPoint, h, number, Double.exact_ofNat_one]
      value_defined := .var v
      slope_defined := by simpa only [Tangent.var, h, if_true] using .const _ }
  · exact {
      fst_eq := by simp [Tangent.var, dualPoint, h]
      snd_eq := by simp [Tangent.var, dualPoint, h, number, Double.exact_ofNat_zero]
      value_defined := .var v
      slope_defined := by simpa only [Tangent.var, h, if_false] using .const _ }

theorem add {f g : Tangent} (hf : f.Sound E name point) (hg : g.Sound E name point) :
    (Tangent.add f g).Sound E name point where
  fst_eq := by simp [Tangent.add, hf.fst_eq, hg.fst_eq]
  snd_eq := by simp [Tangent.add, hf.snd_eq, hg.snd_eq]
  value_defined := by simp [Tangent.add, hf.value_defined, hg.value_defined]
  slope_defined := by simp [Tangent.add, hf.slope_defined, hg.slope_defined]

theorem sub {f g : Tangent} (hf : f.Sound E name point) (hg : g.Sound E name point) :
    (Tangent.sub f g).Sound E name point where
  fst_eq := by simp [Tangent.sub, hf.fst_eq, hg.fst_eq]
  snd_eq := by simp [Tangent.sub, hf.snd_eq, hg.snd_eq]
  value_defined := by simp [Tangent.sub, hf.value_defined, hg.value_defined]
  slope_defined := by simp [Tangent.sub, hf.slope_defined, hg.slope_defined]

theorem mul {f g : Tangent} (hf : f.Sound E name point) (hg : g.Sound E name point) :
    (Tangent.mul f g).Sound E name point where
  fst_eq := by simp [Tangent.mul, hf.fst_eq, hg.fst_eq]
  snd_eq := by simp [Tangent.mul, hf.fst_eq, hf.snd_eq, hg.fst_eq, hg.snd_eq, add_comm]
  value_defined := by simp [Tangent.mul, hf.value_defined, hg.value_defined]
  slope_defined := by
    simp [Tangent.mul, hf.value_defined, hf.slope_defined, hg.value_defined, hg.slope_defined]

theorem div {f g : Tangent} (hf : f.Sound E name point) (hg : g.Sound E name point)
    (divisor : g.value.eval (.exact E) point ≠ 0) : (Tangent.div f g).Sound E name point where
  fst_eq := by simp [Tangent.div, hf.fst_eq, hg.fst_eq]
  snd_eq := by simp [Tangent.div, hf.fst_eq, hf.snd_eq, hg.fst_eq, hg.snd_eq, pow_two]
  value_defined := by simp [Tangent.div, hf.value_defined, hg.value_defined, divisor]
  slope_defined := by
    -- The divisor of the derivative is the square of a divisor that is not zero.
    simp [Tangent.div, hf.value_defined, hf.slope_defined, hg.value_defined, hg.slope_defined,
      divisor]

theorem neg {f : Tangent} (hf : f.Sound E name point) : (Tangent.neg f).Sound E name point where
  fst_eq := by simp [Tangent.neg, hf.fst_eq]
  snd_eq := by simp [Tangent.neg, hf.snd_eq]
  value_defined := by simp [Tangent.neg, hf.value_defined]
  slope_defined := by simp [Tangent.neg, hf.slope_defined]

theorem abs [IsStrictOrderedRing K] {f : Tangent} (hf : f.Sound E name point) :
    (Tangent.abs f).Sound E name point where
  fst_eq := by
    by_cases h : 0 ≤ f.value.eval (.exact E) point
    · simp [Tangent.abs, hf.fst_eq, h, abs_of_nonneg]
    · simp [Tangent.abs, hf.fst_eq, h, abs_of_neg (not_le.mp h)]
  snd_eq := by
    by_cases h : 0 ≤ f.value.eval (.exact E) point <;>
      simp [Tangent.abs, hf.fst_eq, hf.snd_eq, h]
  value_defined := by simp [Tangent.abs, hf.value_defined]
  slope_defined := by simp [Tangent.abs, hf.value_defined, hf.slope_defined]

theorem choose {c f g : Tangent} (hc : c.Sound E name point) (hf : f.Sound E name point)
    (hg : g.Sound E name point) : (Tangent.choose c f g).Sound E name point where
  fst_eq := by
    by_cases h : 0 ≤ c.value.eval (.exact E) point <;>
      simp [Tangent.choose, hc.fst_eq, hf.fst_eq, hg.fst_eq, h]
  snd_eq := by
    by_cases h : 0 ≤ c.value.eval (.exact E) point <;>
      simp [Tangent.choose, hc.fst_eq, hf.snd_eq, hg.snd_eq, h]
  value_defined := by simp [Tangent.choose, hc.value_defined, hf.value_defined, hg.value_defined]
  slope_defined := by simp [Tangent.choose, hc.value_defined, hf.slope_defined, hg.slope_defined]

theorem mean [CharZero K] {fs : List Tangent} (each : ∀ f ∈ fs, f.Sound E name point) :
    (Tangent.mean fs).Sound E name point where
  fst_eq := by
    have values : fs.map (fun f => (f.value.eval (.dual E) (dualPoint name point)).fst) =
        fs.map fun f => f.value.eval (.exact E) point :=
      List.map_congr_left fun f hf => (each f hf).fst_eq
    simp [Tangent.mean, Arithmetic.fst_mean_dual, Arithmetic.mean_exact, Function.comp_def, values]
  snd_eq := by
    have slopes : fs.map (fun f => (f.value.eval (.dual E) (dualPoint name point)).snd) =
        fs.map fun f => f.slope.eval (.exact E) point :=
      List.map_congr_left fun f hf => (each f hf).snd_eq
    simp [Tangent.mean, Arithmetic.snd_mean_dual, Arithmetic.mean_exact, Function.comp_def, slopes]
  value_defined := by simpa [Tangent.mean] using fun f hf => (each f hf).value_defined
  slope_defined := by simpa [Tangent.mean] using fun f hf => (each f hf).slope_defined

theorem squaredDeviation [CharZero K] {fs : List Tangent} {f : Tangent}
    (each : ∀ f ∈ fs, f.Sound E name point) (hf : f.Sound E name point) :
    (Tangent.squaredDeviation fs f).Sound E name point :=
  (hf.sub (mean each)).mul (hf.sub (mean each))

theorem variance [CharZero K] {fs : List Tangent} (each : ∀ f ∈ fs, f.Sound E name point) :
    (Tangent.variance fs).Sound E name point := by
  have deviations : ∀ d ∈ fs.map (Tangent.squaredDeviation fs), d.Sound E name point := by
    intro d hd
    obtain ⟨f, hf, rfl⟩ := List.mem_map.mp hd
    exact squaredDeviation each (each f hf)
  have sound := mean deviations
  exact {
    fst_eq := by rw [eval_value_variance, eval_value_variance, sound.fst_eq]
    snd_eq := by rw [eval_value_variance, sound.snd_eq, Tangent.variance]
    value_defined := by simpa [Tangent.variance] using fun f hf => (each f hf).value_defined
    slope_defined := sound.slope_defined }

theorem exponent [CharZero K] {b c x : Tangent} (hb : b.Sound E name point)
    (hc : c.Sound E name point) (hx : x.Sound E name point)
    (width : c.value.eval (.exact E) point ≠ 0) :
    (Tangent.exponent b c x).Sound E name point := by
  refine neg (div ((hx.sub hb).mul (hx.sub hb)) ((hc.mul hc).mul (const _)) ?_)
  simp [Tangent.mul, Tangent.const, Double.exact_ofNat_two, width]

theorem gauss [CharZero K] {a b c x : Tangent} (ha : a.Sound E name point)
    (hb : b.Sound E name point) (hc : c.Sound E name point) (hx : x.Sound E name point)
    (width : c.value.eval (.exact E) point ≠ 0) :
    (Tangent.gauss a b c x).Sound E name point := by
  have evaluated : (Tangent.gauss a b c x).value.eval (.dual E) (dualPoint name point) =
      (Arithmetic.dual E).mul (a.value.eval (.dual E) (dualPoint name point))
        ((Arithmetic.dual E).exp
          ((Tangent.exponent b c x).value.eval (.dual E) (dualPoint name point))) := by
    have two : (Double.ofNat 2).exact = (2 : K) := Double.exact_ofNat_two
    have same := Arithmetic.dual_exponent E (b := b.value.eval (.dual E) (dualPoint name point))
      (c := c.value.eval (.dual E) (dualPoint name point))
      (x := x.value.eval (.dual E) (dualPoint name point)) (hc.fst_eq ▸ width)
    simp only [Tangent.gauss, Tangent.exponent, Tangent.neg, Tangent.div, Tangent.mul, Tangent.sub,
      Tangent.const, Expr.eval_app, Expr.eval_const, List.map_cons, List.map_nil, Arithmetic.apply,
      Arithmetic.gauss, Arithmetic.dual_ofDouble, two, same]
  have sound := exponent hb hc hx width
  have exact_exponent : (Tangent.exponent b c x).value.eval (.exact E) point =
      -((x.value.eval (.exact E) point - b.value.eval (.exact E) point) /
          c.value.eval (.exact E) point) *
        ((x.value.eval (.exact E) point - b.value.eval (.exact E) point) /
          c.value.eval (.exact E) point) / 2 := by
    simp [Tangent.exponent, Tangent.neg, Tangent.div, Tangent.mul, Tangent.sub, Tangent.const,
      Double.exact_ofNat_two]
    field_simp
  exact {
    fst_eq := by
      rw [evaluated]
      simp [Tangent.gauss, Arithmetic.gauss, ha.fst_eq, sound.fst_eq, exact_exponent]
    snd_eq := by
      rw [evaluated]
      simp [Tangent.gauss, Arithmetic.gauss, number, Double.exact_ofNat_one, ha.fst_eq, ha.snd_eq,
        sound.fst_eq, sound.snd_eq, exact_exponent]
      ring
    value_defined := by
      simp [Tangent.gauss, ha.value_defined, hb.value_defined, hc.value_defined, hx.value_defined,
        width]
    slope_defined := by
      simp [Tangent.gauss, number, ha.value_defined, ha.slope_defined, hb.value_defined,
        hc.value_defined, hx.value_defined, sound.slope_defined, width, Expr.DefinedAt.const] }

/-- Every rule keeps soundness, where the operand that must not be zero is not. -/
theorem ofOp? [IsStrictOrderedRing K] {op : Op} {fs : List Tangent} {t : Tangent}
    (h : Tangent.ofOp? op fs = some t) (each : ∀ f ∈ fs, f.Sound E name point)
    (denominator : ∀ d, Expr.denominator? op (fs.map value) = some d →
      d.eval (.exact E) point ≠ 0) : t.Sound E name point := by
  unfold Tangent.ofOp? at h
  split at h <;> cases h
  case h_1 f g => exact add (each f (by simp)) (each g (by simp))
  case h_2 f g => exact sub (each f (by simp)) (each g (by simp))
  case h_3 f g => exact mul (each f (by simp)) (each g (by simp))
  case h_4 f g => exact div (each f (by simp)) (each g (by simp)) (denominator g.value rfl)
  case h_5 f => exact neg (each f (by simp))
  case h_6 f => exact abs (each f (by simp))
  case h_7 c f g => exact choose (each c (by simp)) (each f (by simp)) (each g (by simp))
  case h_8 => exact mean each
  case h_9 => exact variance each
  case h_10 a b c x =>
    exact gauss (each a (by simp)) (each b (by simp)) (each c (by simp)) (each x (by simp))
      (denominator c.value rfl)

end Sound

/-- A well-formed expression has a tangent, and it is sound wherever the expression is defined. -/
theorem exists_ofExpr?_sound [IsStrictOrderedRing K] {e : Expr} (wellFormed : e.WellFormed)
    (defined : e.DefinedAt E point) : ∃ t, ofExpr? name e = some t ∧ t.Sound E name point := by
  induction e with
  | const value => exact ⟨_, rfl, .const value⟩
  | var v => exact ⟨_, rfl, .var v⟩
  | app op es ih =>
    obtain ⟨count, formed⟩ := Expr.wellFormed_app.mp wellFormed
    obtain ⟨denominator, operands⟩ := (Expr.definedAt_app E).mp defined
    choose! tangent htangent sound using fun e he => ih e he (formed e he) (operands e he)
    have values : (es.map tangent).map value = es :=
      map_value_of_mapM (fun e _ t ht => value_of_ofExpr? ht) (mapM_id_map htangent)
    have applies : (ofOp? op (es.map tangent)).isSome := by
      rw [isSome_ofOp?, List.length_map, count]
    obtain ⟨t, ht⟩ := Option.isSome_iff_exists.mp applies
    rw [ofExpr?_app htangent]
    exact ⟨t, ht, .ofOp? ht (List.forall_mem_map.mpr sound) (by rwa [values])⟩

end Tangent

namespace Expr

/-- Wherever a well-formed expression is defined, so is its derivative with respect to any name, and
the derivative has the value of the first-order coefficient there. -/
theorem eval_dual_eq [IsStrictOrderedRing K] {e : Expr} (wellFormed : e.WellFormed)
    (name : List Char) {point : Variable → K} (defined : e.DefinedAt E point) :
    ∃ d, e.diff? name = some d ∧ d.DefinedAt E point ∧
      e.eval (.dual E) (dualPoint name point) =
        inl (e.eval (.exact E) point) + d.eval (.exact E) point • ε := by
  obtain ⟨t, ht, sound⟩ := Tangent.exists_ofExpr?_sound wellFormed defined
  obtain rfl := Tangent.value_of_ofExpr? ht
  refine ⟨t.slope, by rw [diff?, ht, Option.map_some], sound.slope_defined, ?_⟩
  ext
  · simp [sound.fst_eq]
  · simp [sound.snd_eq]

/-- A bell curve whose amplitude and position move, over a variance, at `(1, 2, 3)`. -/
theorem eval_dual_eq_bell_over_variance :
    let e : Expr := .app .divide [
      .app .gauss [.var .x, .const (.ofNat 1), .var .y, .var .x], .app .var [.var .x, .var .z]]
    let point : Variable → ℚ := fun v => v.index + 1
    let E : ℚ → ℚ := fun q => q + 1
    e.WellFormed ∧ e.DefinedAt E point ∧
      ∃ d, e.diff? ['x'] = some d ∧ d.DefinedAt E point ∧
        e.eval (.dual E) (dualPoint ['x'] point) =
          inl (e.eval (.exact E) point) + d.eval (.exact E) point • ε := by
  intro e point E
  have wellFormed : e.WellFormed := by
    simp [e, wellFormed_app, Op.accepts, Op.arity, WellFormed.const, WellFormed.var]
  have defined : e.DefinedAt E point := by
    simp [e, point, definedAt_app, denominator?, DefinedAt.const, DefinedAt.var, Arithmetic.apply,
      Arithmetic.variance, Arithmetic.squaredDeviations, Arithmetic.mean_exact, Variable.index]
    norm_num
  exact ⟨wellFormed, defined, eval_dual_eq E wellFormed ['x'] defined⟩

end Expr

end ExprCalculus

import Mathlib
import ExprCalculus.Expr.Render
import ExprCalculus.Proofs.FirstOrder

/-!
# Mixed derivatives commute

Differentiating with respect to one name and then another gives two expressions, one for each order,
which are put together differently but have the same value. The first derivatives are known as the
slopes of two tangents of the expression, one for each name. Evaluated with `ε` added to the *other*
name, a slope gives a mixed derivative as its first-order coefficient, so what has to be shown is
that the two slopes have the same coefficient. Two tangents with this property *commute*, and every
rule keeps it: the coefficient of a slope that a rule builds is made of those of its operands, of
the operands' first derivatives and of their values, and is symmetric in the two names.
-/

namespace ExprCalculus

open DualNumber TrivSqZeroExt

variable {K : Type} [Field K] [LinearOrder K] (E : K → K)

/-! ## The value part of a dual evaluation -/

namespace Arithmetic

/-- The value part of an operation on dual numbers is the operation on the value parts. -/
theorem fst_apply_dual [IsStrictOrderedRing K] (op : Op) (vs : List K[ε]) :
    ((dual E).apply op vs).fst = (exact E).apply op (vs.map fst) := by
  by_cases count : op.accepts vs.length = true
  · cases Op.applied_of_accepts count with
    | add | subtract | multiply | divide | negate => simp [apply]
    | abs a =>
      by_cases h : 0 ≤ a.fst
      · simp [apply, h, abs_of_nonneg]
      · simp [apply, h, abs_of_neg (not_le.mp h)]
    | iff c a b => by_cases h : 0 ≤ c.fst <;> simp [apply, h]
    | mean => simp [apply, fst_mean_dual, mean_exact]
    | var =>
      simp [apply, variance, squaredDeviations, fst_mean_dual, mean_exact, Function.comp_def]
    | gauss => simp [apply, gauss, -Nat.cast_ofNat]
  · have count' : ¬ op.accepts (vs.map fst).length = true := by rwa [List.length_map]
    rw [apply_of_not_accepts _ count, apply_of_not_accepts _ count', dual_undefined, fst_zero,
      exact_undefined]

end Arithmetic

/-- Adding `ε` to a variable does not change the value of an expression. -/
theorem Expr.fst_eval_dual [IsStrictOrderedRing K] (e : Expr) (name : List Char)
    (point : Variable → K) :
    (e.eval (.dual E) (dualPoint name point)).fst = e.eval (.exact E) point := by
  induction e with
  | const value => simp
  | var v => by_cases h : v.name = name <;> simp [dualPoint, h]
  | app op es ih =>
    rw [eval_app, eval_app, Arithmetic.fst_apply_dual, List.map_map]
    congr 1
    exact List.map_congr_left ih

/-! ## Commuting tangents -/

namespace Tangent

/-- The tangents are those of one expression with respect to two names, and the slope of each has,
with `ε` added to the name of the other, the same first-order coefficient. -/
structure Commutes (v w : List Char) (point : Variable → K) (t s : Tangent) : Prop where
  left : t.Sound E v point
  right : s.Sound E w point
  value_eq : s.value = t.value
  snd_slope : (t.slope.eval (.dual E) (dualPoint w point)).snd =
    (s.slope.eval (.dual E) (dualPoint v point)).snd

variable {E} {v w : List Char} {point : Variable → K}

namespace Commutes

/-- The slope of one tangent is the change of its value along the other variable. -/
theorem snd_value {t s : Tangent} (h : Commutes E v w point t s) :
    (t.value.eval (.dual E) (dualPoint w point)).snd = s.slope.eval (.exact E) point := by
  rw [← h.value_eq]
  exact h.right.snd_eq

/- The value of an operation follows from those of its operands. -/
attribute [local simp] Arithmetic.apply Expr.fst_eval_dual

theorem const (value : Double) :
    Commutes E v w point (Tangent.const value) (Tangent.const value) where
  left := .const value
  right := .const value
  value_eq := rfl
  snd_slope := by simp [Tangent.const, number]

theorem var [IsStrictOrderedRing K] (u : Variable) :
    Commutes E v w point (Tangent.var v u) (Tangent.var w u) where
  left := .var u
  right := .var u
  value_eq := rfl
  snd_slope := by
    -- A variable has a constant slope, whatever the name.
    have constant (name name' : List Char) :
        ((Tangent.var name u).slope.eval (.dual E) (dualPoint name' point)).snd = 0 := by
      by_cases h : u.name = name <;> simp [Tangent.var, h, number]
    rw [constant, constant]

variable {f f' g g' : Tangent}

theorem add (hf : Commutes E v w point f f') (hg : Commutes E v w point g g') :
    Commutes E v w point (Tangent.add f g) (Tangent.add f' g') where
  left := hf.left.add hg.left
  right := hf.right.add hg.right
  value_eq := by simp [Tangent.add, hf.value_eq, hg.value_eq]
  snd_slope := by simp [Tangent.add, hf.snd_slope, hg.snd_slope]

theorem sub (hf : Commutes E v w point f f') (hg : Commutes E v w point g g') :
    Commutes E v w point (Tangent.sub f g) (Tangent.sub f' g') where
  left := hf.left.sub hg.left
  right := hf.right.sub hg.right
  value_eq := by simp [Tangent.sub, hf.value_eq, hg.value_eq]
  snd_slope := by simp [Tangent.sub, hf.snd_slope, hg.snd_slope]

theorem mul [IsStrictOrderedRing K] (hf : Commutes E v w point f f')
    (hg : Commutes E v w point g g') :
    Commutes E v w point (Tangent.mul f g) (Tangent.mul f' g') where
  left := hf.left.mul hg.left
  right := hf.right.mul hg.right
  value_eq := by simp [Tangent.mul, hf.value_eq, hg.value_eq]
  snd_slope := by
    simp [Tangent.mul, hf.value_eq, hg.value_eq, hf.snd_slope, hg.snd_slope, hf.snd_value,
      hg.snd_value, hf.left.snd_eq, hg.left.snd_eq]
    ring

theorem div [IsStrictOrderedRing K] (hf : Commutes E v w point f f')
    (hg : Commutes E v w point g g') (divisor : g.value.eval (.exact E) point ≠ 0) :
    Commutes E v w point (Tangent.div f g) (Tangent.div f' g') where
  left := hf.left.div hg.left divisor
  right := hf.right.div hg.right (by rwa [hg.value_eq])
  value_eq := by simp [Tangent.div, hf.value_eq, hg.value_eq]
  snd_slope := by
    simp [Tangent.div, hf.value_eq, hg.value_eq, hf.snd_slope, hg.snd_slope, hf.snd_value,
      hg.snd_value, hf.left.snd_eq, hg.left.snd_eq]
    ring

theorem neg (hf : Commutes E v w point f f') :
    Commutes E v w point (Tangent.neg f) (Tangent.neg f') where
  left := hf.left.neg
  right := hf.right.neg
  value_eq := by simp [Tangent.neg, hf.value_eq]
  snd_slope := by simp [Tangent.neg, hf.snd_slope]

theorem abs [IsStrictOrderedRing K] (hf : Commutes E v w point f f') :
    Commutes E v w point (Tangent.abs f) (Tangent.abs f') where
  left := hf.left.abs
  right := hf.right.abs
  value_eq := by simp [Tangent.abs, hf.value_eq]
  snd_slope := by
    by_cases h : 0 ≤ f.value.eval (.exact E) point <;>
      simp [Tangent.abs, hf.value_eq, hf.snd_slope, h]

theorem choose [IsStrictOrderedRing K] {c c' : Tangent} (hc : Commutes E v w point c c')
    (hf : Commutes E v w point f f') (hg : Commutes E v w point g g') :
    Commutes E v w point (Tangent.choose c f g) (Tangent.choose c' f' g') where
  left := hc.left.choose hf.left hg.left
  right := hc.right.choose hf.right hg.right
  value_eq := by simp [Tangent.choose, hc.value_eq, hf.value_eq, hg.value_eq]
  snd_slope := by
    by_cases h : 0 ≤ c.value.eval (.exact E) point <;>
      simp [Tangent.choose, hc.value_eq, hf.snd_slope, hg.snd_slope, h]

section operands

variable {α : Type} {as : List α} {t s : α → Tangent}

theorem mean [IsStrictOrderedRing K] (each : ∀ a ∈ as, Commutes E v w point (t a) (s a)) :
    Commutes E v w point (Tangent.mean (as.map t)) (Tangent.mean (as.map s)) where
  left := .mean (List.forall_mem_map.mpr fun a ha => (each a ha).left)
  right := .mean (List.forall_mem_map.mpr fun a ha => (each a ha).right)
  value_eq := by simpa [Tangent.mean] using fun a ha => (each a ha).value_eq
  snd_slope := by
    have slopes : as.map (fun a => ((t a).slope.eval (.dual E) (dualPoint w point)).snd) =
        as.map fun a => ((s a).slope.eval (.dual E) (dualPoint v point)).snd :=
      List.map_congr_left fun a ha => (each a ha).snd_slope
    simp [Tangent.mean, Arithmetic.snd_mean_dual, Function.comp_def, slopes]

theorem variance [IsStrictOrderedRing K] (each : ∀ a ∈ as, Commutes E v w point (t a) (s a)) :
    Commutes E v w point (Tangent.variance (as.map t)) (Tangent.variance (as.map s)) where
  left := .variance (List.forall_mem_map.mpr fun a ha => (each a ha).left)
  right := .variance (List.forall_mem_map.mpr fun a ha => (each a ha).right)
  value_eq := by simpa [Tangent.variance] using fun a ha => (each a ha).value_eq
  snd_slope := by
    have deviations : ∀ a ∈ as, Commutes E v w point (squaredDeviation (as.map t) (t a))
        (squaredDeviation (as.map s) (s a)) := by
      intro a ha
      have deviation := (each a ha).sub (mean each)
      exact deviation.mul deviation
    simpa [Tangent.variance, Function.comp_def] using (mean deviations).snd_slope

end operands

variable {a a' b b' c c' x x' : Tangent}

theorem exponent [IsStrictOrderedRing K] (hb : Commutes E v w point b b')
    (hc : Commutes E v w point c c') (hx : Commutes E v w point x x')
    (width : c.value.eval (.exact E) point ≠ 0) :
    Commutes E v w point (Tangent.exponent b c x) (Tangent.exponent b' c' x') := by
  refine neg (div ((hx.sub hb).mul (hx.sub hb)) ((hc.mul hc).mul (const _)) ?_)
  simp [Tangent.mul, Tangent.const, Double.exact_ofNat_two, width]

/-- The first-order coefficient of a bell curve of amplitude one is the curve times the slope of its
exponent. -/
theorem snd_bell [CharZero K] {name : List Char} (hb : b.Sound E name point)
    (hc : c.Sound E name point) (hx : x.Sound E name point)
    (width : c.value.eval (.exact E) point ≠ 0) :
    ((Expr.app .gauss [number 1, b.value, c.value, x.value]).eval (.dual E)
        (dualPoint name point)).snd =
      (Expr.app .gauss [number 1, b.value, c.value, x.value]).eval (.exact E) point *
        (Tangent.exponent b c x).slope.eval (.exact E) point := by
  have unit : (Tangent.const (.ofNat 1)).Sound E name point := .const _
  have slope : (Tangent.gauss (Tangent.const (.ofNat 1)) b c x).slope.eval (.exact E) point =
      (Expr.app .gauss [number 1, b.value, c.value, x.value]).eval (.exact E) point *
        (Tangent.exponent b c x).slope.eval (.exact E) point := by
    simp [Tangent.gauss, Tangent.const, number, Double.exact_ofNat_zero, Double.exact_ofNat_one]
  rw [← slope]
  exact (unit.gauss hb hc hx width).snd_eq

theorem gauss [IsStrictOrderedRing K] (ha : Commutes E v w point a a')
    (hb : Commutes E v w point b b') (hc : Commutes E v w point c c')
    (hx : Commutes E v w point x x') (width : c.value.eval (.exact E) point ≠ 0) :
    Commutes E v w point (Tangent.gauss a b c x) (Tangent.gauss a' b' c' x') where
  left := ha.left.gauss hb.left hc.left hx.left width
  right := ha.right.gauss hb.right hc.right hx.right (by rwa [hc.value_eq])
  value_eq := by simp [Tangent.gauss, ha.value_eq, hb.value_eq, hc.value_eq, hx.value_eq]
  snd_slope := by
    have power := exponent hb hc hx width
    have bell_v := snd_bell hb.left hc.left hx.left width
    have bell_w := snd_bell hb.right hc.right hx.right (by rwa [hc.value_eq])
    unfold Tangent.gauss
    rw [hb.value_eq, hc.value_eq, hx.value_eq] at *
    -- From here on the bell curve counts only as a factor with these two coefficients.
    generalize Expr.app .gauss [number 1, b.value, c.value, x.value] = bell at *
    simp [ha.value_eq, ha.snd_slope, ha.snd_value, ha.left.snd_eq, power.snd_slope, bell_v, bell_w]
    ring

/-- The rules of an operation that accepts its operands keep tangents commuting, where the operand
that must not be zero is not. -/
theorem exists_ofOp? [IsStrictOrderedRing K] {op : Op} {es : List Expr} {t s : Expr → Tangent}
    (count : op.accepts es.length = true) (each : ∀ e ∈ es, Commutes E v w point (t e) (s e))
    (values : ∀ e ∈ es, (t e).value = e)
    (denominator : ∀ d, Expr.denominator? op es = some d → d.eval (.exact E) point ≠ 0) :
    ∃ t' s', ofOp? op (es.map t) = some t' ∧ ofOp? op (es.map s) = some s' ∧
      Commutes E v w point t' s' := by
  cases Op.applied_of_accepts count with
  | add f g => exact ⟨_, _, rfl, rfl, add (each f (by simp)) (each g (by simp))⟩
  | subtract f g => exact ⟨_, _, rfl, rfl, sub (each f (by simp)) (each g (by simp))⟩
  | multiply f g => exact ⟨_, _, rfl, rfl, mul (each f (by simp)) (each g (by simp))⟩
  | divide f g =>
    have divisor : (t g).value.eval (.exact E) point ≠ 0 := by
      rw [values g (by simp)]
      exact denominator g rfl
    exact ⟨_, _, rfl, rfl, div (each f (by simp)) (each g (by simp)) divisor⟩
  | negate f => exact ⟨_, _, rfl, rfl, neg (each f (by simp))⟩
  | abs f => exact ⟨_, _, rfl, rfl, abs (each f (by simp))⟩
  | iff c f g =>
    exact ⟨_, _, rfl, rfl, choose (each c (by simp)) (each f (by simp)) (each g (by simp))⟩
  | mean => exact ⟨_, _, rfl, rfl, mean each⟩
  | var => exact ⟨_, _, rfl, rfl, variance each⟩
  | gauss a b c x =>
    have width : (t c).value.eval (.exact E) point ≠ 0 := by
      rw [values c (by simp)]
      exact denominator c rfl
    exact ⟨_, _, rfl, rfl, gauss (each a (by simp)) (each b (by simp)) (each c (by simp))
      (each x (by simp)) width⟩

end Commutes

/-- The tangents of a well-formed expression with respect to any two names commute wherever the
expression is defined. -/
theorem exists_ofExpr?_commutes [IsStrictOrderedRing K] {e : Expr} (wellFormed : e.WellFormed)
    (defined : e.DefinedAt E point) :
    ∃ t s, ofExpr? v e = some t ∧ ofExpr? w e = some s ∧ Commutes E v w point t s := by
  induction e with
  | const value => exact ⟨_, _, rfl, rfl, .const value⟩
  | var u => exact ⟨_, _, rfl, rfl, .var u⟩
  | app op es ih =>
    obtain ⟨count, formed⟩ := Expr.wellFormed_app.mp wellFormed
    obtain ⟨denominator, operands⟩ := (Expr.definedAt_app E).mp defined
    choose! t s ht hs commutes using fun e he => ih e he (formed e he) (operands e he)
    rw [ofExpr?_app ht, ofExpr?_app hs]
    exact Commutes.exists_ofOp? count commutes (fun e he => value_of_ofExpr? (ht e he)) denominator

end Tangent

namespace Expr

/-- The first-order coefficient of a well-formed expression is the value of its derivative. -/
theorem exists_diff?_snd [IsStrictOrderedRing K] {e : Expr} (wellFormed : e.WellFormed)
    (name : List Char) {point : Variable → K} (defined : e.DefinedAt E point) :
    ∃ d, e.diff? name = some d ∧ d.DefinedAt E point ∧
      d.eval (.exact E) point = (e.eval (.dual E) (dualPoint name point)).snd := by
  obtain ⟨t, ht, sound⟩ : ∃ t, Tangent.ofExpr? name e = some t ∧ t.Sound E name point :=
    Tangent.exists_ofExpr?_sound wellFormed defined
  obtain rfl := Tangent.value_of_ofExpr? ht
  exact ⟨t.slope, by rw [diff?, ht, Option.map_some], sound.slope_defined, sound.snd_eq.symm⟩

theorem diffAll?_pair {e d : Expr} {v w : List Char} (h : e.diff? v = some d) :
    e.diffAll? [v, w] = d.diff? w := by
  simp [diffAll?, h]

/-- A well-formed expression that is defined at a point has a second derivative with respect to any
two names there, and its value does not depend on their order. -/
theorem eval_diffAll?_comm [IsStrictOrderedRing K] {e : Expr} (wellFormed : e.WellFormed)
    (v w : List Char) {point : Variable → K} (defined : e.DefinedAt E point) :
    ∃ d d', e.diffAll? [v, w] = some d ∧ e.diffAll? [w, v] = some d' ∧
      d.DefinedAt E point ∧ d'.DefinedAt E point ∧
      d.eval (.exact E) point = d'.eval (.exact E) point := by
  obtain ⟨t, s, ht, hs, commutes⟩ :=
    Tangent.exists_ofExpr?_commutes (v := v) (w := w) wellFormed defined
  have first_v : e.diff? v = some t.slope := by rw [diff?, ht, Option.map_some]
  have first_w : e.diff? w = some s.slope := by rw [diff?, hs, Option.map_some]
  have formed_v := wellFormed.of_diff? first_v
  have formed_w := wellFormed.of_diff? first_w
  obtain ⟨d, hd, defined_d, value_d⟩ := exists_diff?_snd E formed_v w commutes.left.slope_defined
  obtain ⟨d', hd', defined_d', value_d'⟩ :=
    exists_diff?_snd E formed_w v commutes.right.slope_defined
  refine ⟨d, d', by rw [diffAll?_pair first_v, hd], by rw [diffAll?_pair first_w, hd'], defined_d,
    defined_d', ?_⟩
  rw [value_d, value_d', commutes.snd_slope]

/-- A bell curve over a variance, at `(1, 2, 3)`. Its two second derivatives are different
expressions. -/
theorem eval_diffAll?_comm_bell_over_variance :
    let e : Expr := .app .divide [
      .app .gauss [.var .x, .const (.ofNat 1), .var .y, .var .x], .app .var [.var .x, .var .z]]
    let point : Variable → ℚ := fun v => v.index + 1
    let E : ℚ → ℚ := fun q => q + 1
    e.WellFormed ∧ e.DefinedAt E point ∧ e.diffAll? [['x'], ['y']] ≠ e.diffAll? [['y'], ['x']] ∧
      ∃ d d', e.diffAll? [['x'], ['y']] = some d ∧ e.diffAll? [['y'], ['x']] = some d' ∧
        d.DefinedAt E point ∧ d'.DefinedAt E point ∧
        d.eval (.exact E) point = d'.eval (.exact E) point := by
  intro e point E
  have wellFormed : e.WellFormed := by
    simp [e, wellFormed_app, Op.accepts, Op.arity, WellFormed.const, WellFormed.var]
  have defined : e.DefinedAt E point := by
    simp [e, point, definedAt_app, denominator?, DefinedAt.const, DefinedAt.var, Arithmetic.apply,
      Arithmetic.variance, Arithmetic.squaredDeviations, Arithmetic.mean_exact, Variable.index]
    norm_num
  have different : e.diffAll? [['x'], ['y']] ≠ e.diffAll? [['y'], ['x']] := by
    intro same
    have texts := congrArg (Option.map (bracketed .post)) same
    exact absurd texts (by decide +kernel)
  exact ⟨wellFormed, defined, different, eval_diffAll?_comm E wellFormed ['x'] ['y'] defined⟩

end Expr

end ExprCalculus

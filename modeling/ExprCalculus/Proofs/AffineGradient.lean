import Mathlib
import ExprCalculus.Expr.Gradient
import ExprCalculus.Proofs.Correspondence
import ExprCalculus.Proofs.Dependence
import ExprCalculus.Proofs.SecondOrder

/-!
# Forward differences of affine expressions

An expression that is affine in a variable changes, when the variable is moved, by the movement
times its first-order coefficient, at whatever point and however far. That coefficient is the value
of the symbolic derivative, so the difference quotient *is* the derivative there and not only close
to it.

Being affine is a matter of how an expression is built: the variable may not occur in a second
factor, in a divisor, in a condition, nor in a bell curve other than in its amplitude. The parts
from which it is kept away have one value for all its values, and no first-order coefficient.
-/

namespace ExprCalculus

open DualNumber TrivSqZeroExt

namespace Expr

/-- The variable does not occur in the expression. -/
def FreeOf (v : Variable) (e : Expr) : Prop := v ∉ e.distinctVariables

/-- The expression depends on the variable in an affine way, as can be seen from how it is built. -/
inductive AffineIn (v : Variable) : Expr → Prop where
  /-- It does not depend on the variable. -/
  | free {e : Expr} (h : e.FreeOf v) : AffineIn v e
  /-- It is the variable. -/
  | var : AffineIn v (.var v)
  /-- A sum. -/
  | add {a b : Expr} (ha : AffineIn v a) (hb : AffineIn v b) : AffineIn v (.app .add [a, b])
  /-- A difference. -/
  | sub {a b : Expr} (ha : AffineIn v a) (hb : AffineIn v b) :
      AffineIn v (.app .subtract [a, b])
  /-- A change of sign. -/
  | neg {a : Expr} (ha : AffineIn v a) : AffineIn v (.app .negate [a])
  /-- A mean. -/
  | mean {es : List Expr} (each : ∀ e ∈ es, AffineIn v e) : AffineIn v (.app .mean es)
  /-- A product whose second factor is free of the variable. -/
  | mulFree {a b : Expr} (ha : AffineIn v a) (hb : b.FreeOf v) :
      AffineIn v (.app .multiply [a, b])
  /-- A product whose first factor is free of the variable. -/
  | freeMul {a b : Expr} (ha : a.FreeOf v) (hb : AffineIn v b) :
      AffineIn v (.app .multiply [a, b])
  /-- A quotient whose divisor is free of the variable. -/
  | div {a b : Expr} (ha : AffineIn v a) (hb : b.FreeOf v) : AffineIn v (.app .divide [a, b])
  /-- A choice whose condition is free of the variable. -/
  | choose {c a b : Expr} (hc : c.FreeOf v) (ha : AffineIn v a) (hb : AffineIn v b) :
      AffineIn v (.app .iff [c, a, b])
  /-- A bell curve whose amplitude alone may depend on the variable. -/
  | gauss {a b c x : Expr} (ha : AffineIn v a) (hb : b.FreeOf v) (hc : c.FreeOf v)
      (hx : x.FreeOf v) : AffineIn v (.app .gauss [a, b, c, x])

/-! ## Parts without the variable -/

section FreeOf

variable {v : Variable} {e : Expr}

theorem freeOf_const (value : Double) : (const value).FreeOf v := List.not_mem_nil

theorem freeOf_app {op : Op} {es : List Expr} :
    (app op es).FreeOf v ↔ ∀ e ∈ es, e.FreeOf v := by
  have occurs : v ∈ (app op es).distinctVariables ↔ ∃ e ∈ es, v ∈ e.distinctVariables := by
    simp [mem_distinctVariables, preorder_eq (app op es)]
  simp [FreeOf, occurs]

/-- Points that differ at most in a variable that does not occur give the same value. -/
theorem FreeOf.eval_congr {α : Type} (h : e.FreeOf v) (A : Arithmetic α) {p q : Variable → α}
    (agree : ∀ w, w ≠ v → p w = q w) : e.eval A p = e.eval A q := by
  refine e.madeOf_reach.eval_congr fun w hw => agree w ?_
  rintro rfl
  exact h hw

/-- So does a point that is moved along such a variable. -/
theorem FreeOf.eval_movedPoint {α : Type} (h : e.FreeOf v) (A : Arithmetic α)
    (p : Variable → α) (x : α) : e.eval A (movedPoint p v x) = e.eval A p :=
  h.eval_congr A fun _ other => if_neg other

variable {K : Type} [Field K] [LinearOrder K] (E : K → K)

/-- On numbers without a first-order part dual arithmetic is exact arithmetic. -/
theorem exact_corresponds_dual [IsStrictOrderedRing K] :
    (Arithmetic.exact E).Corresponds (.dual E) fun a b => b = inl a where
  ofDouble _ := rfl
  ofNat n := (inl_natCast n).symm
  undefined := rfl
  add := by rintro a c _ _ rfl rfl; exact (inl_add ..).symm
  sub := by rintro a c _ _ rfl rfl; exact (inl_sub ..).symm
  mul := by rintro a c _ _ rfl rfl; exact (inl_mul ..).symm
  div := by rintro a c _ _ rfl rfl; simp
  neg := by rintro a _ rfl; exact (inl_neg ..).symm
  abs := by
    rintro a _ rfl
    by_cases h : 0 ≤ a
    · simp [h, abs_of_nonneg]
    · simp [h, abs_of_neg (not_le.mp h)]
  exp := by rintro a _ rfl; simp
  select := by
    rintro c a b _ _ _ rfl rfl rfl
    by_cases h : 0 ≤ c <;> simp [h]

/-- Without the variable the dual value has no first-order part. -/
theorem FreeOf.eval_dual [IsStrictOrderedRing K] (h : e.FreeOf v) (p : Variable → K) :
    e.eval (.dual E) (dualPoint v.name p) = inl (e.eval (.exact E) p) := by
  have names {w : Variable} (other : w ≠ v) : w.name ≠ v.name :=
    fun same => other (Variable.name_injective same)
  have unmoved : e.eval (.dual E) (dualPoint v.name p) = e.eval (.dual E) fun w => inl (p w) :=
    h.eval_congr _ fun w other => by rw [dualPoint, if_neg (names other), add_zero]
  rw [unmoved]
  exact (exact_corresponds_dual E).eval (fun _ => rfl) e

end FreeOf

/-! ## Affine expressions -/

section AffineIn

variable {K : Type} [Field K] [LinearOrder K] {E : K → K} {v : Variable} {e : Expr}
  {p : Variable → K}

/-- The coefficient of `ε` when `ε` is added to the variable. -/
def slope (E : K → K) (v : Variable) (p : Variable → K) (e : Expr) : K :=
  (e.eval (.dual E) (dualPoint v.name p)).snd

theorem FreeOf.slope_eq_zero [IsStrictOrderedRing K] (h : e.FreeOf v) : e.slope E v p = 0 := by
  rw [slope, h.eval_dual, snd_inl]

/- The value of an operation follows from those of its operands. -/
attribute [local simp] Arithmetic.apply

theorem slope_add (a b : Expr) :
    (app .add [a, b]).slope E v p = a.slope E v p + b.slope E v p := by
  simp [slope]

theorem slope_sub (a b : Expr) :
    (app .subtract [a, b]).slope E v p = a.slope E v p - b.slope E v p := by
  simp [slope]

theorem slope_neg (a : Expr) : (app .negate [a]).slope E v p = -a.slope E v p := by
  simp [slope]

theorem slope_mean [IsStrictOrderedRing K] (es : List Expr) :
    (app .mean es).slope E v p = (es.map (slope E v p)).sum / es.length := by
  rw [slope, eval_app, Arithmetic.apply, Arithmetic.snd_mean_dual, List.map_map, List.length_map]
  rfl

variable [IsStrictOrderedRing K]

theorem slope_mul (a b : Expr) : (app .multiply [a, b]).slope E v p =
    a.eval (.exact E) p * b.slope E v p + b.eval (.exact E) p * a.slope E v p := by
  simp [slope, fst_eval_dual, mul_comm]

theorem slope_div (a : Expr) {b : Expr} (hb : b.FreeOf v) :
    (app .divide [a, b]).slope E v p = a.slope E v p / b.eval (.exact E) p := by
  have quotient : (app .divide [a, b]).slope E v p =
      a.slope E v p * b.eval (.exact E) p / b.eval (.exact E) p ^ 2 := by
    simp [slope, hb.eval_dual]
  rw [quotient]
  rcases eq_or_ne (b.eval (.exact E) p) 0 with zero | nonzero
  · simp [zero]
  · field_simp

theorem slope_choose (c a b : Expr) : (app .iff [c, a, b]).slope E v p =
    if 0 ≤ c.eval (.exact E) p then a.slope E v p else b.slope E v p := by
  by_cases h : 0 ≤ c.eval (.exact E) p <;> simp [slope, fst_eval_dual, h]

/-- A bell curve of amplitude one. -/
def bell (b c x : Expr) : Expr := app .gauss [.const (.ofNat 1), b, c, x]

/-- A bell curve has the value of its amplitude times a bell curve of amplitude one. -/
theorem eval_gauss (a b c x : Expr) (q : Variable → K) :
    (app .gauss [a, b, c, x]).eval (.exact E) q =
      (app .multiply [a, bell b c x]).eval (.exact E) q := by
  simp [bell, Arithmetic.gauss, Double.exact_ofNat_one]

theorem slope_gauss (a b c x : Expr) : (app .gauss [a, b, c, x]).slope E v p =
    (app .multiply [a, bell b c x]).slope E v p := by
  simp [slope, bell, Arithmetic.gauss, Double.exact_ofNat_one]

/-- Moving the variable changes the value by the movement times the slope. -/
def MovesBySlope (E : K → K) (v : Variable) (p : Variable → K) (e : Expr) : Prop :=
  ∀ x, e.eval (.exact E) (movedPoint p v x) = e.eval (.exact E) p + (x - p v) * e.slope E v p

/-- What moves by its slope still does after a multiplication by what does not move. -/
theorem MovesBySlope.mulFree {a b : Expr} (ha : a.MovesBySlope E v p) (hb : b.FreeOf v) :
    (app .multiply [a, b]).MovesBySlope E v p := by
  intro x
  simp [slope_mul, ha x, hb.eval_movedPoint, hb.slope_eq_zero]
  ring

/-- An affine expression moves by its slope, by induction on how it is built. -/
theorem AffineIn.movesBySlope (h : e.AffineIn v) : e.MovesBySlope E v p := by
  induction h with
  | free h =>
    intro x
    rw [h.eval_movedPoint, h.slope_eq_zero, mul_zero, add_zero]
  | var =>
    intro x
    simp [movedPoint, slope, dualPoint]
  | add _ _ ha hb =>
    intro x
    simp [slope_add, ha x, hb x]
    ring
  | sub _ _ ha hb =>
    intro x
    simp [slope_sub, ha x, hb x]
    ring
  | neg _ ha =>
    intro x
    simp [slope_neg, ha x]
    ring
  | mean each ih =>
    intro x
    have values := List.map_congr_left fun e he => ih e he x
    simp [slope_mean, Arithmetic.mean_exact, values, List.sum_map_add, List.sum_map_mul_left]
    ring
  | mulFree _ hb ha => exact ha.mulFree hb
  | freeMul ha _ hb =>
    intro x
    simp [slope_mul, ha.eval_movedPoint, ha.slope_eq_zero, hb x]
    ring
  | div _ hb ha =>
    intro x
    simp [slope_div _ hb, ha x, hb.eval_movedPoint]
    ring
  | @choose c a b hc _ _ ha hb =>
    intro x
    -- The condition has the same value at both points, so the same branch is taken.
    by_cases h : 0 ≤ c.eval (.exact E) p
    · simp [slope_choose, hc.eval_movedPoint, ha x, h]
    · simp [slope_choose, hc.eval_movedPoint, hb x, h]
  | @gauss a b c x _ hb hc hx ha =>
    have free : (bell b c x).FreeOf v := by
      rw [bell, freeOf_app]
      simp [freeOf_const, hb, hc, hx]
    intro y
    rw [eval_gauss, eval_gauss, slope_gauss]
    exact ha.mulFree free y

end AffineIn

/-! ## Where they are defined -/

section Domain

/-- The denominator of an operation is one of its operands. -/
theorem mem_of_denominator? {op : Op} {es : List Expr} {d : Expr}
    (h : denominator? op es = some d) : d ∈ es := by
  unfold denominator? at h
  split at h
  · cases h
    simp
  · cases h
    simp
  · cases h

variable {K : Type} [Field K] [LinearOrder K] {E : K → K} {v : Variable} {e : Expr}
  {p : Variable → K}

/-- Where the divisors of an operation are free of a variable, moving it makes none of them zero. -/
theorem definedAt_app_movedPoint {op : Op} {es : List Expr} {x : K}
    (h : (app op es).DefinedAt E p) (free : ∀ d, denominator? op es = some d → d.FreeOf v)
    (each : ∀ e ∈ es, e.DefinedAt E p → e.DefinedAt E (movedPoint p v x)) :
    (app op es).DefinedAt E (movedPoint p v x) := by
  obtain ⟨denominator, operands⟩ := (definedAt_app E).mp h
  refine (definedAt_app E).mpr ⟨fun d hd => ?_, fun e he => each e he (operands e he)⟩
  rw [(free d hd).eval_movedPoint]
  exact denominator d hd

/-- Where the variable does not occur, moving the point along it divides by nothing new. -/
theorem FreeOf.definedAt_movedPoint (h : e.FreeOf v) (x : K) (defined : e.DefinedAt E p) :
    e.DefinedAt E (movedPoint p v x) := by
  induction e with
  | const value => exact .const value
  | var w => exact .var w
  | app op es ih =>
    have operands := freeOf_app.mp h
    exact definedAt_app_movedPoint defined (fun d hd => operands d (mem_of_denominator? hd))
      fun e he => ih e he (operands e he)

/-- An affine expression divides only by what is free of the variable, so it stays defined. -/
theorem AffineIn.definedAt_movedPoint (h : e.AffineIn v) (x : K) (defined : e.DefinedAt E p) :
    e.DefinedAt E (movedPoint p v x) := by
  induction h with
  | free h => exact h.definedAt_movedPoint x defined
  | var => exact .var v
  | add _ _ ha hb | sub _ _ ha hb =>
    exact definedAt_app_movedPoint defined (by simp [denominator?]) (by simp +contextual [ha, hb])
  | neg _ ha =>
    exact definedAt_app_movedPoint defined (by simp [denominator?]) (by simp +contextual [ha])
  | mean _ each => exact definedAt_app_movedPoint defined (by simp [denominator?]) each
  | mulFree _ hb ha =>
    exact definedAt_app_movedPoint defined (by simp [denominator?])
      (by simp +contextual [ha, hb.definedAt_movedPoint x])
  | freeMul ha _ hb =>
    exact definedAt_app_movedPoint defined (by simp [denominator?])
      (by simp +contextual [ha.definedAt_movedPoint x, hb])
  | div _ hb ha =>
    exact definedAt_app_movedPoint defined (by simp [denominator?, hb])
      (by simp +contextual [ha, hb.definedAt_movedPoint x])
  | choose hc _ _ ha hb =>
    exact definedAt_app_movedPoint defined (by simp [denominator?])
      (by simp +contextual [hc.definedAt_movedPoint x, ha, hb])
  | gauss _ hb hc hx ha =>
    exact definedAt_app_movedPoint defined (by simp [denominator?, hc])
      (by simp +contextual [ha, hb.definedAt_movedPoint x, hc.definedAt_movedPoint x,
        hx.definedAt_movedPoint x])

end Domain

end Expr

/-! ## The gradient -/

/-- Stepping in exact arithmetic with a wanted step. The movement is too small only if there is
none. -/
def Stepping.exact {K : Type} [Field K] [DecidableEq K] (step : K) (fallback : K → K) :
    Stepping K where
  isZero change := decide (change = 0)
  step := step
  fallback := fallback

namespace Expr

variable {K : Type} [Field K] [LinearOrder K] {E : K → K} {v : Variable} {e : Expr}
  {p : Variable → K}

/-- A step that is not zero moves every coordinate by just that step. -/
theorem getElem?_gradient {h : K} (nonzero : h ≠ 0) (fallback : K → K) (e : Expr)
    (p : Variable → K) (v : Variable) :
    (e.gradient (.exact E) (.exact h fallback) p)[v.index]? =
      some (e.forwardDifference (.exact E) p v h) := by
  have step (x : K) : (Stepping.exact h fallback).stepFrom (.exact E) x = h := by
    simp [Stepping.stepFrom, Stepping.exact, nonzero]
  simp only [gradient, Variable.all, step]
  cases v <;> rfl

/-- The difference quotient of what moves by its slope is the slope. -/
theorem MovesBySlope.forwardDifference_eq (moves : e.MovesBySlope E v p) {h : K}
    (nonzero : h ≠ 0) : e.forwardDifference (.exact E) p v h = e.slope E v p := by
  simp [forwardDifference, moves (p v + h), nonzero]

/-- A well-formed expression is affine in a variable, and defined at a point. Then it is defined
wherever the variable is moved from there, and the component of its gradient for the variable,
estimated with any step but zero, is the value of its derivative. -/
theorem gradient_eq_eval_diff? [IsStrictOrderedRing K] (wellFormed : e.WellFormed)
    (affine : e.AffineIn v) (defined : e.DefinedAt E p) {h : K} (nonzero : h ≠ 0)
    (fallback : K → K) :
    e.DefinedAt E (movedPoint p v (p v + h)) ∧
    ∃ d, e.diff? v.name = some d ∧ d.DefinedAt E p ∧
      (e.gradient (.exact E) (.exact h fallback) p)[v.index]? = some (d.eval (.exact E) p) := by
  obtain ⟨t, ht, sound⟩ : ∃ t, Tangent.ofExpr? v.name e = some t ∧ t.Sound E v.name p :=
    Tangent.exists_ofExpr?_sound wellFormed defined
  obtain rfl := Tangent.value_of_ofExpr? ht
  refine ⟨affine.definedAt_movedPoint _ defined, t.slope, ?_, sound.slope_defined, ?_⟩
  · rw [diff?, ht, Option.map_some]
  · rw [getElem?_gradient nonzero, affine.movesBySlope.forwardDifference_eq nonzero, slope,
      sound.snd_eq]

/-- A bell curve over a divisor, whose amplitude is a mean of `x` and a multiple of `x`. -/
theorem gradient_of_scaled_bell :
    let amplitude : Expr := .app .mean [.var .x, .app .multiply [.var .y, .var .x]]
    let e : Expr := .app .divide [
      .app .gauss [amplitude, .const (.ofNat 1), .var .y, .var .z], .app .abs [.var .z]]
    let p : Variable → ℚ := fun v => v.index + 1
    let E : ℚ → ℚ := fun q => q + 1
    e.WellFormed ∧ e.AffineIn .x ∧ e.DefinedAt E p ∧ (1 / 2 : ℚ) ≠ 0 ∧
      e.DefinedAt E (movedPoint p .x (p .x + 1 / 2)) ∧
      ∃ d, e.diff? Variable.x.name = some d ∧ d.DefinedAt E p ∧
        (e.gradient (.exact E) (.exact (1 / 2) id) p)[Variable.x.index]? =
          some (d.eval (.exact E) p) := by
  intro amplitude e p E
  have other {w : Variable} (h : w ≠ .x) : (Expr.var w).FreeOf .x := by
    simpa [FreeOf, mem_distinctVariables, preorder_eq (.var w)] using h.symm
  have wellFormed : e.WellFormed := by
    simp [e, amplitude, wellFormed_app, Op.accepts, Op.arity, WellFormed.const, WellFormed.var]
  have affine : e.AffineIn .x := by
    have mean : amplitude.AffineIn .x := by
      refine .mean ?_
      simpa using ⟨AffineIn.var, AffineIn.freeMul (other (by decide)) .var⟩
    refine .div (.gauss mean (freeOf_const _) (other (by decide)) (other (by decide))) ?_
    simpa [freeOf_app] using other (by decide)
  have defined : e.DefinedAt E p := by
    simp [e, amplitude, p, definedAt_app, denominator?, DefinedAt.const, DefinedAt.var,
      Arithmetic.apply, Variable.index]
    norm_num
  have nonzero : (1 / 2 : ℚ) ≠ 0 := by norm_num
  exact ⟨wellFormed, affine, defined, nonzero,
    gradient_eq_eval_diff? wellFormed affine defined nonzero id⟩

end Expr

end ExprCalculus

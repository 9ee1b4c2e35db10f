import Mathlib
import ExprCalculus.Proofs.NestedCalls
import ExprCalculus.Proofs.WellFormedness

/-!
# The depth of a derivative

Every rule of differentiation writes a fixed number of nodes above the derivatives of the operands:
one for a sum, five for a variance, and eleven for a bell curve, where the way down to the
derivative of the width leads through the quotient of the exponent and the product under it. None
writes more, so with every level of an expression its derivative gets at most eleven levels deeper.

A tower of bell curves, each the width of the next, has a derivative as deep as that, and with every
curve the derivative has at least twice as many nodes. So the number of nodes may grow exponentially
where the depth, and with it the number of nested calls in a computation, grows linearly.
-/

namespace ExprCalculus

/- Sums start from the core library's zero. -/
attribute [local instance (20000)] Zero.ofOfNat0

namespace Expr

section Operands

variable {op : Op} {a b c d : Expr}

theorem depth_unary : (app op [a]).depth = 1 + a.depth := by
  simp

theorem depth_binary : (app op [a, b]).depth = 1 + max a.depth b.depth := by
  simp [List.max?_cons]

theorem depth_ternary : (app op [a, b, c]).depth = 1 + max a.depth (max b.depth c.depth) := by
  simp [List.max?_cons]

theorem depth_quaternary :
    (app op [a, b, c, d]).depth = 1 + max a.depth (max b.depth (max c.depth d.depth)) := by
  simp [List.max?_cons]

end Operands

end Expr

namespace Tangent

theorem depth_number (n : Nat) : (number n).depth = 1 := rfl

/-! ## What a rule adds -/

/-- The depth of the expression and the depth of its derivative are bounded. -/
structure Within (v s : Nat) (t : Tangent) : Prop where
  value : t.value.depth ≤ v
  slope : t.slope.depth ≤ s

namespace Within

open ExprCalculus.Expr (depth_unary depth_binary depth_ternary depth_quaternary depth_app_le_iff)

variable {v s v' s' : Nat} {a b c f g x : Tangent}

theorem mono (h : f.Within v s) (hv : v ≤ v') (hs : s ≤ s') : f.Within v' s' :=
  ⟨h.value.trans hv, h.slope.trans hs⟩

theorem const (value : Double) : (Tangent.const value).Within 1 1 := ⟨le_rfl, le_rfl⟩

theorem add (hf : f.Within v s) (hg : g.Within v s) : (Tangent.add f g).Within (v + 1) (s + 1) := by
  obtain ⟨fv, fs⟩ := hf
  obtain ⟨gv, gs⟩ := hg
  constructor
  · simp only [Tangent.add, depth_binary]
    omega
  · simp only [Tangent.add, depth_binary]
    omega

theorem sub (hf : f.Within v s) (hg : g.Within v s) : (Tangent.sub f g).Within (v + 1) (s + 1) := by
  obtain ⟨fv, fs⟩ := hf
  obtain ⟨gv, gs⟩ := hg
  constructor
  · simp only [Tangent.sub, depth_binary]
    omega
  · simp only [Tangent.sub, depth_binary]
    omega

theorem mul (le : v ≤ s) (hf : f.Within v s) (hg : g.Within v s) :
    (Tangent.mul f g).Within (v + 1) (s + 2) := by
  obtain ⟨fv, fs⟩ := hf
  obtain ⟨gv, gs⟩ := hg
  constructor
  · simp only [Tangent.mul, depth_binary]
    omega
  · simp only [Tangent.mul, depth_binary]
    omega

theorem div (le : v ≤ s) (hf : f.Within v s) (hg : g.Within v s) :
    (Tangent.div f g).Within (v + 1) (s + 3) := by
  obtain ⟨fv, fs⟩ := hf
  obtain ⟨gv, gs⟩ := hg
  constructor
  · simp only [Tangent.div, depth_binary]
    omega
  · simp only [Tangent.div, depth_binary]
    omega

theorem neg (hf : f.Within v s) : (Tangent.neg f).Within (v + 1) (s + 1) := by
  obtain ⟨fv, fs⟩ := hf
  constructor
  · simp only [Tangent.neg, depth_unary]
    omega
  · simp only [Tangent.neg, depth_unary]
    omega

theorem abs (le : v ≤ s) (hf : f.Within v s) : (Tangent.abs f).Within (v + 1) (s + 2) := by
  obtain ⟨fv, fs⟩ := hf
  constructor
  · simp only [Tangent.abs, depth_unary]
    omega
  · simp only [Tangent.abs, depth_ternary, depth_unary]
    omega

theorem choose (le : v ≤ s) (hc : c.Within v s) (hf : f.Within v s) (hg : g.Within v s) :
    (Tangent.choose c f g).Within (v + 1) (s + 1) := by
  obtain ⟨cv, cs⟩ := hc
  obtain ⟨fv, fs⟩ := hf
  obtain ⟨gv, gs⟩ := hg
  constructor
  · simp only [Tangent.choose, depth_ternary]
    omega
  · simp only [Tangent.choose, depth_ternary]
    omega

theorem mean {fs : List Tangent} (each : ∀ f ∈ fs, f.Within v s) :
    (Tangent.mean fs).Within (v + 1) (s + 1) where
  value := depth_app_le_iff.mpr (List.forall_mem_map.mpr fun f hf => (each f hf).value)
  slope := depth_app_le_iff.mpr (List.forall_mem_map.mpr fun f hf => (each f hf).slope)

theorem squaredDeviation (le : v ≤ s) {fs : List Tangent} (each : ∀ f ∈ fs, f.Within v s)
    (hf : f ∈ fs) : (Tangent.squaredDeviation fs f).Within (v + 3) (s + 4) := by
  have operand := (each f hf).mono (Nat.le_add_right v 1) (Nat.le_add_right s 1)
  have deviation := operand.sub (mean each)
  exact mul (by omega) deviation deviation

theorem variance (le : v ≤ s) {fs : List Tangent} (each : ∀ f ∈ fs, f.Within v s) :
    (Tangent.variance fs).Within (v + 1) (s + 5) where
  value := depth_app_le_iff.mpr (List.forall_mem_map.mpr fun f hf => (each f hf).value)
  slope := (mean (List.forall_mem_map.mpr fun _ hf => squaredDeviation le each hf)).slope

/-- The deepest way leads to the width: a change of sign, the quotient rule, and the product rule
twice. -/
theorem exponent (pos : 1 ≤ v) (le : v ≤ s) (hb : b.Within v s) (hc : c.Within v s)
    (hx : x.Within v s) : (Tangent.exponent b c x).Within (v + 4) (s + 8) := by
  have distance := hx.sub hb
  have square := (mul (by omega) distance distance).mono le_rfl (Nat.le_succ (s + 3))
  have two : (Tangent.const (.ofNat 2)).Within (v + 1) (s + 2) :=
    (const _).mono (by omega) (by omega)
  have divisor := mul (by omega) (mul le hc hc) two
  exact (div (by omega) square divisor).neg

theorem gauss (pos : 1 ≤ v) (le : v ≤ s) (ha : a.Within v s) (hb : b.Within v s)
    (hc : c.Within v s) (hx : x.Within v s) : (Tangent.gauss a b c x).Within (v + 1) (s + 11) := by
  obtain ⟨-, es⟩ := exponent pos le hb hc hx
  obtain ⟨av, as⟩ := ha
  obtain ⟨bv, -⟩ := hb
  obtain ⟨cv, -⟩ := hc
  obtain ⟨xv, -⟩ := hx
  constructor
  · simp only [Tangent.gauss, depth_quaternary]
    omega
  · simp only [Tangent.gauss, depth_quaternary, depth_binary, depth_number]
    omega

end Within

/-- The rule of an operation applies to operands that it accepts, and adds one level to the
expression and at most eleven to the derivative. -/
theorem exists_ofOp?_within {v s : Nat} (pos : 1 ≤ v) (le : v ≤ s) {op : Op} {fs : List Tangent}
    (count : op.accepts fs.length = true) (each : ∀ f ∈ fs, f.Within v s) :
    ∃ t, ofOp? op fs = some t ∧ t.Within (v + 1) (s + 11) := by
  have weaken {t : Tangent} {n : Nat} (within : t.Within (v + 1) (s + n)) (few : n ≤ 11) :
      t.Within (v + 1) (s + 11) := within.mono le_rfl (Nat.add_le_add_left few s)
  cases Op.applied_of_accepts count with
  | add f g => exact ⟨_, rfl, weaken (.add (each f (by simp)) (each g (by simp))) (by omega)⟩
  | subtract f g => exact ⟨_, rfl, weaken (.sub (each f (by simp)) (each g (by simp))) (by omega)⟩
  | multiply f g => exact ⟨_, rfl, weaken (.mul le (each f (by simp)) (each g (by simp))) (by omega)⟩
  | divide f g => exact ⟨_, rfl, weaken (.div le (each f (by simp)) (each g (by simp))) (by omega)⟩
  | negate f => exact ⟨_, rfl, weaken (.neg (each f (by simp))) (by omega)⟩
  | abs f => exact ⟨_, rfl, weaken (.abs le (each f (by simp))) (by omega)⟩
  | iff c f g =>
    exact ⟨_, rfl, weaken (.choose le (each c (by simp)) (each f (by simp)) (each g (by simp)))
      (by omega)⟩
  | mean => exact ⟨_, rfl, weaken (.mean each) (by omega)⟩
  | var => exact ⟨_, rfl, weaken (.variance le each) (by omega)⟩
  | gauss a b c x =>
    exact ⟨_, rfl, .gauss pos le (each a (by simp)) (each b (by simp)) (each c (by simp))
      (each x (by simp))⟩

/-! ## Eleven levels for one -/

/-- With every level of the expression the derivative has at most eleven, except that both have one
level at a leaf. -/
def Deepens (t : Tangent) : Prop := t.slope.depth + 10 ≤ 11 * t.value.depth

/-- The derivative of a variable is a number. -/
theorem depth_slope_var (name : List Char) (v : Variable) : (Tangent.var name v).slope.depth = 1 := by
  show (if v.name = name then number 1 else number 0).depth = 1
  split
  · exact depth_number 1
  · exact depth_number 0

namespace Deepens

theorem const (value : Double) : (Tangent.const value).Deepens := by
  show (number 0).depth + 10 ≤ 11 * (Expr.const value).depth
  rw [depth_number, Expr.depth_const]

theorem var (name : List Char) (v : Variable) : (Tangent.var name v).Deepens := by
  show (Tangent.var name v).slope.depth + 10 ≤ 11 * (Expr.var v).depth
  rw [depth_slope_var, Expr.depth_var]

/-- An operation without operands has a derivative without operands. -/
theorem of_nil {op : Op} {t : Tangent} (h : ofOp? op [] = some t) : t.Deepens := by
  cases op <;> cases h
  · simp [Deepens, mean]
  · simp [Deepens, variance, mean]

end Deepens

/-- Every rule deepens by eleven levels at most. -/
theorem exists_ofOp?_deepens {op : Op} {fs : List Tangent} (count : op.accepts fs.length = true)
    (each : ∀ f ∈ fs, f.Deepens) : ∃ t, ofOp? op fs = some t ∧ t.Deepens := by
  cases fs with
  | nil =>
    obtain ⟨t, ht⟩ := Option.isSome_iff_exists.mp ((isSome_ofOp? op []).trans count)
    exact ⟨t, ht, .of_nil ht⟩
  | cons f fs =>
    -- All operands are bounded by the deepest.
    obtain ⟨n, depth⟩ : ∃ n, (Expr.app op ((f :: fs).map value)).depth = n + 1 :=
      ⟨_, (Expr.depth_app _ _).trans (Nat.add_comm _ _)⟩
    have shallow := List.forall_mem_map.mp (Expr.depth_app_le_iff.mp depth.le)
    have pos : 0 < n := f.value.depth_pos.trans_le (shallow f List.mem_cons_self)
    have within : ∀ g ∈ f :: fs, g.Within n (11 * n - 10) := by
      intro g hg
      have bound := shallow g hg
      have deepens : g.slope.depth + 10 ≤ 11 * g.value.depth := each g hg
      exact ⟨bound, by omega⟩
    obtain ⟨t, ht, -, slope⟩ := exists_ofOp?_within pos (by omega) count within
    refine ⟨t, ht, ?_⟩
    rw [Deepens, value_of_ofOp? ht, depth]
    omega

/-! ## A bell curve as the width of another -/

/-- In the derivative of a product that of the first factor is two levels down. -/
theorem depth_slope_mul_left (f g : Tangent) : f.slope.depth + 2 ≤ (mul f g).slope.depth := by
  simp only [mul, Expr.depth_binary]
  omega

/-- In the derivative of a quotient that of the divisor is three levels down. -/
theorem depth_slope_div_right (f g : Tangent) : g.slope.depth + 3 ≤ (div f g).slope.depth := by
  simp only [div, Expr.depth_binary]
  omega

/-- In the derivative of the exponent that of the width is eight levels down. -/
theorem depth_slope_exponent_width (b c x : Tangent) :
    c.slope.depth + 8 ≤ (exponent b c x).slope.depth := by
  have square := depth_slope_mul_left c c
  have divisor := depth_slope_mul_left (mul c c) (.const (.ofNat 2))
  have quotient := depth_slope_div_right (mul (sub x b) (sub x b))
    (mul (mul c c) (.const (.ofNat 2)))
  simp only [exponent, neg, Expr.depth_unary]
  omega

/-- The derivative of the width is eleven levels down in the derivative of the bell curve. -/
theorem depth_slope_gauss_width (a b c x : Tangent) :
    c.slope.depth + 11 ≤ (gauss a b c x).slope.depth := by
  have exponent := depth_slope_exponent_width b c x
  simp only [gauss, Expr.depth_binary]
  omega

/-- It stands there twice, in the product rule for the square of the width. -/
theorem two_mul_size_slope_gauss_width (a b c x : Tangent) :
    2 * c.slope.size ≤ (gauss a b c x).slope.size := by
  simp only [gauss, exponent, neg, div, mul, Expr.size_app, List.map_cons, List.map_nil,
    List.sum_cons, List.sum_nil]
  omega

end Tangent

namespace Expr

open Tangent (ofExpr? Within)

/-- Bell curves of which each is the width of the next. -/
def bellTower : Nat → Expr
  | 0 => .var .x
  | n + 1 => .app .gauss [.var .x, .var .x, bellTower n, .var .x]

theorem wellFormed_bellTower (n : Nat) : (bellTower n).WellFormed := by
  induction n with
  | zero => exact .var .x
  | succ n ih => exact .app rfl (by simp [ih, WellFormed.var])

theorem depth_bellTower (n : Nat) : (bellTower n).depth = n + 1 := by
  induction n with
  | zero => rfl
  | succ n ih =>
    rw [bellTower, depth_quaternary, ih, depth_var]
    omega

theorem size_bellTower (n : Nat) : (bellTower n).size = 4 * n + 1 := by
  induction n with
  | zero => rfl
  | succ n ih =>
    simp only [bellTower, size_app, List.map_cons, List.map_nil, List.sum_cons, List.sum_nil, ih,
      size_var]
    omega

/-- With every curve the derivative of the tower gets eleven levels deeper and at least twice as
large. -/
theorem exists_ofExpr?_bellTower (name : List Char) (n : Nat) :
    ∃ t, ofExpr? name (bellTower n) = some t ∧ t.slope.depth = 11 * n + 1 ∧
      2 ^ n ≤ t.slope.size := by
  induction n with
  | zero =>
    have depth := Tangent.depth_slope_var name .x
    exact ⟨_, rfl, depth, (Tangent.var name .x).slope.size_pos⟩
  | succ n ih =>
    obtain ⟨t, ht, depth, size⟩ := ih
    -- The width changes as the tower below it does, the other operands as a variable does.
    have leaf : ofExpr? name (.var .x) = some (.var name .x) := rfl
    have tower : ofExpr? name (bellTower (n + 1)) =
        some (.gauss (.var name .x) (.var name .x) t (.var name .x)) := by
      rw [bellTower, ofExpr?, fold_app, ← ofExpr?]
      simp [leaf, ht, Tangent.ofOp?]
    refine ⟨_, tower, le_antisymm ?_ ?_, ?_⟩
    · have side : (Tangent.var name .x).Within (n + 1) (11 * n + 1) :=
        ⟨by simp [Tangent.var], by rw [Tangent.depth_slope_var]; omega⟩
      have width : t.Within (n + 1) (11 * n + 1) :=
        ⟨by rw [Tangent.value_of_ofExpr? ht, depth_bellTower], depth.le⟩
      exact (Within.gauss (by omega) (by omega) side side width side).slope
    · have deeper := Tangent.depth_slope_gauss_width (.var name .x) (.var name .x) t (.var name .x)
      omega
    · have larger :=
        Tangent.two_mul_size_slope_gauss_width (.var name .x) (.var name .x) t (.var name .x)
      rw [pow_succ]
      omega

/-! ## Depths of derivatives -/

/-- The derivative of an expression is at most eleven times as deep, less ten, and no more calls
than that are nested when it is evaluated, written, and read back. For every depth there is an
expression whose derivative is as deep as that, and whose size is linear in the depth while the size
of the derivative is exponential. -/
theorem derivative_deepens_linearly (name : List Char) :
    (∀ e : Expr, e.WellFormed → ∃ d, e.diff? name = some d ∧ d.depth ≤ 11 * e.depth - 10 ∧
      d.ComputedWithin (11 * e.depth - 10)) ∧
    ∀ n, ∃ e d : Expr, e.WellFormed ∧ e.depth = n + 1 ∧ e.size = 4 * n + 1 ∧
      e.diff? name = some d ∧ d.depth = 11 * e.depth - 10 ∧ 2 ^ n ≤ d.size := by
  constructor
  · intro e h
    obtain ⟨t, ht, deepens⟩ := Tangent.exists_ofExpr?_of_rules .const (.var name)
      Tangent.exists_ofOp?_deepens h
    have hd : e.diff? name = some t.slope := by rw [diff?, ht, Option.map_some]
    rw [Tangent.Deepens, Tangent.value_of_ofExpr? ht] at deepens
    have shallow : t.slope.depth ≤ 11 * e.depth - 10 := by omega
    exact ⟨t.slope, hd, shallow, (h.of_diff? hd).computedWithin shallow⟩
  · intro n
    obtain ⟨t, ht, depth, size⟩ := exists_ofExpr?_bellTower name n
    have hd : (bellTower n).diff? name = some t.slope := by rw [diff?, ht, Option.map_some]
    refine ⟨_, _, wellFormed_bellTower n, depth_bellTower n, size_bellTower n, hd, ?_, size⟩
    rw [depth, depth_bellTower]
    omega

/-- The derivative of a bell curve of variables has at most twelve levels, and its text is read back
with at most twelve groups open at a time. -/
theorem derivative_deepens_linearly_bell :
    ∃ d, (bellTower 1).diff? ['x'] = some d ∧ d.depth ≤ 12 ∧
      Bracketed.descendWithin 12 .pre (d.bracketed .pre) = .ok d := by
  have formed : (bellTower 1).WellFormed := wellFormed_bellTower 1
  have limit : 11 * (bellTower 1).depth - 10 = 12 := by rw [depth_bellTower]
  obtain ⟨bounded, -⟩ := derivative_deepens_linearly ['x']
  obtain ⟨d, hd, shallow, computed⟩ := bounded (bellTower 1) formed
  rw [limit] at shallow computed
  exact ⟨d, hd, shallow, computed.descend .pre⟩

end Expr

end ExprCalculus

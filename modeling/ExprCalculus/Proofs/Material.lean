import Mathlib
import ExprCalculus.Expr.Inspect
import ExprCalculus.Proofs.WellFormedness

/-!
# What derivatives are made of

A material is a choice of constants, variables and operations. The rules of differentiation write
the numbers zero, one and two and six operations of their own, and a choice where there was an
absolute value; all else they copy. So a material that has these and of which an expression is made
is one of which its derivatives of any order are made.
-/

namespace ExprCalculus

/-- What an expression may be made of. -/
structure Material where
  /-- The constants that may occur. -/
  const : Set Double
  /-- The variables that may occur. -/
  var : Set Variable
  /-- The operations that may occur. -/
  op : Set Op

namespace Material

/-- Does the material have what stands at the node? -/
def Has (M : Material) : Expr → Prop
  | .const value => value ∈ M.const
  | .var v => v ∈ M.var
  | .app op _ => op ∈ M.op

/-- The material has all that the rules of differentiation write. -/
structure Closed (M : Material) : Prop where
  zero : Double.ofNat 0 ∈ M.const
  one : Double.ofNat 1 ∈ M.const
  two : Double.ofNat 2 ∈ M.const
  add : Op.add ∈ M.op
  subtract : Op.subtract ∈ M.op
  multiply : Op.multiply ∈ M.op
  divide : Op.divide ∈ M.op
  negate : Op.negate ∈ M.op
  mean : Op.mean ∈ M.op
  iff_of_abs : Op.abs ∈ M.op → Op.iff ∈ M.op

end Material

/-- Every node of the expression is in the material. -/
def Expr.MadeOf (M : Material) (e : Expr) : Prop := ∀ f ∈ e.preorder, M.Has f

namespace Expr

variable {M : Material}

@[simp] theorem madeOf_const {value : Double} : (const value).MadeOf M ↔ value ∈ M.const := by
  simp [MadeOf, preorder, Material.Has]

@[simp] theorem madeOf_var {v : Variable} : (var v).MadeOf M ↔ v ∈ M.var := by
  simp [MadeOf, preorder, Material.Has]

@[simp] theorem madeOf_app {op : Op} {es : List Expr} :
    (app op es).MadeOf M ↔ op ∈ M.op ∧ ∀ e ∈ es, e.MadeOf M := by
  simp only [MadeOf, preorder_eq (app op es), List.forall_mem_cons, operands_app,
    List.forall_mem_flatMap, Material.Has]

section Operands

variable {op : Op} {a b c d : Expr}

theorem madeOf_unary : (app op [a]).MadeOf M ↔ op ∈ M.op ∧ a.MadeOf M := by simp

theorem madeOf_binary :
    (app op [a, b]).MadeOf M ↔ op ∈ M.op ∧ a.MadeOf M ∧ b.MadeOf M := by simp

theorem madeOf_ternary :
    (app op [a, b, c]).MadeOf M ↔ op ∈ M.op ∧ a.MadeOf M ∧ b.MadeOf M ∧ c.MadeOf M := by simp

theorem madeOf_quaternary :
    (app op [a, b, c, d]).MadeOf M ↔
      op ∈ M.op ∧ a.MadeOf M ∧ b.MadeOf M ∧ c.MadeOf M ∧ d.MadeOf M := by simp

theorem MadeOf.pair (h : op ∈ M.op) (ha : a.MadeOf M) (hb : b.MadeOf M) :
    (app op [a, b]).MadeOf M := madeOf_binary.mpr ⟨h, ha, hb⟩

end Operands

end Expr

namespace Tangent

variable {M : Material}

/-- The derivative is made of the material if the expression is. -/
def Keeps (M : Material) (t : Tangent) : Prop := t.value.MadeOf M → t.slope.MadeOf M

namespace Keeps

theorem const (closed : M.Closed) (value : Double) : (Tangent.const value).Keeps M := by
  intro _
  exact Expr.madeOf_const.mpr closed.zero

theorem var (closed : M.Closed) (name : List Char) (v : Variable) :
    (Tangent.var name v).Keeps M := by
  intro _
  show (if v.name = name then number 1 else number 0).MadeOf M
  split
  · exact Expr.madeOf_const.mpr closed.one
  · exact Expr.madeOf_const.mpr closed.zero

theorem add {f g : Tangent} (hf : f.Keeps M) (hg : g.Keeps M) : (Tangent.add f g).Keeps M := by
  intro made
  simp only [Tangent.add, Expr.madeOf_binary] at made ⊢
  obtain ⟨add, made_f, made_g⟩ := made
  exact ⟨add, hf made_f, hg made_g⟩

theorem sub {f g : Tangent} (hf : f.Keeps M) (hg : g.Keeps M) : (Tangent.sub f g).Keeps M := by
  intro made
  simp only [Tangent.sub, Expr.madeOf_binary] at made ⊢
  obtain ⟨subtract, made_f, made_g⟩ := made
  exact ⟨subtract, hf made_f, hg made_g⟩

theorem mul (closed : M.Closed) {f g : Tangent} (hf : f.Keeps M) (hg : g.Keeps M) :
    (Tangent.mul f g).Keeps M := by
  intro made
  simp only [Tangent.mul, Expr.madeOf_binary] at made ⊢
  obtain ⟨multiply, made_f, made_g⟩ := made
  exact ⟨closed.add, ⟨multiply, hf made_f, made_g⟩, ⟨multiply, made_f, hg made_g⟩⟩

theorem div (closed : M.Closed) {f g : Tangent} (hf : f.Keeps M) (hg : g.Keeps M) :
    (Tangent.div f g).Keeps M := by
  intro made
  simp only [Tangent.div, Expr.madeOf_binary] at made ⊢
  obtain ⟨divide, made_f, made_g⟩ := made
  refine ⟨divide, ⟨closed.subtract, ⟨closed.multiply, hf made_f, made_g⟩, ?_⟩, ?_⟩
  · exact ⟨closed.multiply, made_f, hg made_g⟩
  · exact ⟨closed.multiply, made_g, made_g⟩

theorem neg {f : Tangent} (hf : f.Keeps M) : (Tangent.neg f).Keeps M := by
  intro made
  simp only [Tangent.neg, Expr.madeOf_unary] at made ⊢
  obtain ⟨negate, made_f⟩ := made
  exact ⟨negate, hf made_f⟩

theorem abs (closed : M.Closed) {f : Tangent} (hf : f.Keeps M) : (Tangent.abs f).Keeps M := by
  intro made
  simp only [Tangent.abs, Expr.madeOf_unary, Expr.madeOf_ternary] at made ⊢
  obtain ⟨abs, made_f⟩ := made
  exact ⟨closed.iff_of_abs abs, made_f, hf made_f, ⟨closed.negate, hf made_f⟩⟩

theorem choose {c f g : Tangent} (hf : f.Keeps M) (hg : g.Keeps M) :
    (Tangent.choose c f g).Keeps M := by
  intro made
  simp only [Tangent.choose, Expr.madeOf_ternary] at made ⊢
  obtain ⟨iff, made_c, made_f, made_g⟩ := made
  exact ⟨iff, made_c, hf made_f, hg made_g⟩

theorem mean {fs : List Tangent} (each : ∀ f ∈ fs, f.Keeps M) : (Tangent.mean fs).Keeps M := by
  intro made
  simp only [Tangent.mean, Expr.madeOf_app, List.forall_mem_map] at made ⊢
  exact ⟨made.1, fun f hf => each f hf (made.2 f hf)⟩

theorem variance (closed : M.Closed) {fs : List Tangent} (each : ∀ f ∈ fs, f.Keeps M) :
    (Tangent.variance fs).Keeps M := by
  intro made
  have values : ∀ f ∈ fs, f.value.MadeOf M := by
    simp only [Tangent.variance, Expr.madeOf_app, List.forall_mem_map] at made
    exact made.2
  have deviations : ∀ d ∈ fs.map (squaredDeviation fs), d.Keeps M := by
    intro d hd
    obtain ⟨f, hf, rfl⟩ := List.mem_map.mp hd
    have deviation := (each f hf).sub (mean each)
    exact mul closed deviation deviation
  -- The rule differentiates squares that it has written itself.
  have squares : ∀ f ∈ fs, (squaredDeviation fs f).value.MadeOf M := by
    intro f hf
    have mean_made : (Tangent.mean fs).value.MadeOf M :=
      Expr.madeOf_app.mpr ⟨closed.mean, List.forall_mem_map.mpr values⟩
    have deviation := Expr.MadeOf.pair closed.subtract (values f hf) mean_made
    exact .pair closed.multiply deviation deviation
  refine mean deviations (Expr.madeOf_app.mpr ⟨closed.mean, ?_⟩)
  simpa only [List.forall_mem_map] using squares

theorem exponent (closed : M.Closed) {b c x : Tangent} (hb : b.Keeps M) (hc : c.Keeps M)
    (hx : x.Keeps M) : (Tangent.exponent b c x).Keeps M :=
  neg (div closed (mul closed (hx.sub hb) (hx.sub hb))
    (mul closed (mul closed hc hc) (const closed _)))

theorem gauss (closed : M.Closed) {a b c x : Tangent} (ha : a.Keeps M) (hb : b.Keeps M)
    (hc : c.Keeps M) (hx : x.Keeps M) : (Tangent.gauss a b c x).Keeps M := by
  intro made
  simp only [Tangent.gauss, Expr.madeOf_binary, Expr.madeOf_quaternary] at made ⊢
  obtain ⟨gauss, made_a, made_b, made_c, made_x⟩ := made
  have one : (number 1).MadeOf M := Expr.madeOf_const.mpr closed.one
  have exponent_made : (Tangent.exponent b c x).slope.MadeOf M := by
    have two : (number 2).MadeOf M := Expr.madeOf_const.mpr closed.two
    have distance := Expr.MadeOf.pair closed.subtract made_x made_b
    have square := Expr.MadeOf.pair closed.multiply distance distance
    have width := Expr.MadeOf.pair closed.multiply made_c made_c
    have ratio := Expr.MadeOf.pair closed.divide square (.pair closed.multiply width two)
    refine exponent closed hb hc hx (Expr.madeOf_app.mpr ⟨closed.negate, ?_⟩)
    exact List.forall_mem_singleton.mpr ratio
  exact ⟨closed.multiply, ⟨gauss, one, made_b, made_c, made_x⟩,
    ⟨closed.add, ha made_a, ⟨closed.multiply, made_a, exponent_made⟩⟩⟩

end Keeps

/-- The rule of an operation that accepts its operands keeps the material. -/
theorem exists_ofOp?_keeps (closed : M.Closed) {op : Op} {fs : List Tangent}
    (count : op.accepts fs.length = true) (each : ∀ f ∈ fs, f.Keeps M) :
    ∃ t, ofOp? op fs = some t ∧ t.Keeps M := by
  cases Op.applied_of_accepts count with
  | add f g => exact ⟨_, rfl, .add (each f (by simp)) (each g (by simp))⟩
  | subtract f g => exact ⟨_, rfl, .sub (each f (by simp)) (each g (by simp))⟩
  | multiply f g => exact ⟨_, rfl, .mul closed (each f (by simp)) (each g (by simp))⟩
  | divide f g => exact ⟨_, rfl, .div closed (each f (by simp)) (each g (by simp))⟩
  | negate f => exact ⟨_, rfl, .neg (each f (by simp))⟩
  | abs f => exact ⟨_, rfl, .abs closed (each f (by simp))⟩
  | iff c f g => exact ⟨_, rfl, .choose (each f (by simp)) (each g (by simp))⟩
  | mean => exact ⟨_, rfl, .mean each⟩
  | var => exact ⟨_, rfl, .variance closed each⟩
  | gauss a b c x =>
    exact ⟨_, rfl, .gauss closed (each a (by simp)) (each b (by simp)) (each c (by simp))
      (each x (by simp))⟩

end Tangent

namespace Expr

variable {M : Material}

/-- A derivative is made of what its expression is made of. -/
theorem MadeOf.of_diff? (closed : M.Closed) {e d : Expr} {name : List Char} (h : e.WellFormed)
    (made : e.MadeOf M) (hd : e.diff? name = some d) : d.MadeOf M := by
  obtain ⟨t, ht, keeps⟩ := Tangent.exists_ofExpr?_of_rules (.const closed) (.var closed name)
    (fun count each => Tangent.exists_ofOp?_keeps closed count each) h
  rw [diff?, ht] at hd
  cases hd
  rw [← Tangent.value_of_ofExpr? ht] at made
  exact keeps made

/-- So is a derivative of any order. -/
theorem MadeOf.exists_diffAll? (closed : M.Closed) {e : Expr} (h : e.WellFormed)
    (made : e.MadeOf M) (names : List (List Char)) :
    ∃ d, e.diffAll? names = some d ∧ d.MadeOf M := by
  induction names generalizing e with
  | nil => exact ⟨e, rfl, made⟩
  | cons name names ih =>
    obtain ⟨d, hd, formed⟩ := h.exists_diff? name
    obtain ⟨last, hlast, made_last⟩ := ih formed (made.of_diff? closed h hd)
    refine ⟨last, ?_, made_last⟩
    rw [diffAll?, List.foldlM_cons, hd]
    exact hlast

end Expr

end ExprCalculus

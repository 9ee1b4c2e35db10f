import Mathlib
import ExprCalculus.Expr.Derivative

/-!
# Well-formed expressions and their derivatives

An operation accepts a number of operands in one of ten ways, one for each operation: `Op.Applied`
lists them, and what is shown for every well-formed application is shown way by way. The first use
of it is here: every rule of differentiation applies to the operands of its operation, and it builds
well-formed expressions out of well-formed ones, also where it differentiates an expression that it
has just built. So a well-formed expression has a derivative, and that is well-formed again.
-/

namespace ExprCalculus

/-! ## Accepted operands -/

/-- The ten ways of applying an operation to a number of operands that it accepts. -/
inductive Op.Applied {α : Type} : Op → List α → Prop where
  | add (a b : α) : Applied .add [a, b]
  | subtract (a b : α) : Applied .subtract [a, b]
  | multiply (a b : α) : Applied .multiply [a, b]
  | divide (a b : α) : Applied .divide [a, b]
  | negate (a : α) : Applied .negate [a]
  | abs (a : α) : Applied .abs [a]
  | iff (c a b : α) : Applied .iff [c, a, b]
  | mean (as : List α) : Applied .mean as
  | var (as : List α) : Applied .var as
  | gauss (a b c x : α) : Applied .gauss [a, b, c, x]

/-- A list that an operation accepts can be applied to it. -/
theorem Op.applied_of_accepts {α : Type} {op : Op} {as : List α}
    (h : op.accepts as.length = true) : op.Applied as := by
  have two : ∀ {as : List α}, (2 == as.length) = true → ∃ a b, as = [a, b] := by
    intro as h
    exact List.length_eq_two.mp (beq_iff_eq.mp h).symm
  have one : ∀ {as : List α}, (1 == as.length) = true → ∃ a, as = [a] := by
    intro as h
    exact List.length_eq_one_iff.mp (beq_iff_eq.mp h).symm
  cases op with
  | add => obtain ⟨a, b, rfl⟩ := two h; exact .add a b
  | subtract => obtain ⟨a, b, rfl⟩ := two h; exact .subtract a b
  | multiply => obtain ⟨a, b, rfl⟩ := two h; exact .multiply a b
  | divide => obtain ⟨a, b, rfl⟩ := two h; exact .divide a b
  | negate => obtain ⟨a, rfl⟩ := one h; exact .negate a
  | abs => obtain ⟨a, rfl⟩ := one h; exact .abs a
  | iff =>
    obtain ⟨c, a, b, rfl⟩ := List.length_eq_three.mp (beq_iff_eq.mp h).symm
    exact .iff c a b
  | mean => exact .mean as
  | var => exact .var as
  | gauss =>
    match as, h with
    | [a, b, c, x], _ => exact .gauss a b c x

/-- Values that each operand has are the values of all operands. -/
theorem mapM_id_map {α β : Type} {as : List α} {f : α → Option β} {g : α → β}
    (h : ∀ a ∈ as, f a = some (g a)) : (as.map f).mapM id = some (as.map g) := by
  induction as with
  | nil => rfl
  | cons a as ih =>
    have rest := ih fun b hb => h b (List.mem_cons_of_mem a hb)
    simp [h a List.mem_cons_self, rest]

/-! ## Derivatives -/

namespace Tangent

instance : Inhabited Tangent := ⟨⟨default, default⟩⟩

/-- Both expressions of the tangent are well-formed. -/
structure WellFormed (t : Tangent) : Prop where
  value : t.value.WellFormed
  slope : t.slope.WellFormed

namespace WellFormed

/- How many operands an operation accepts is computed. -/
attribute [local simp] Op.accepts Op.arity

theorem const (value : Double) : (Tangent.const value).WellFormed := ⟨.const value, .const _⟩

theorem var (name : List Char) (v : Variable) : (Tangent.var name v).WellFormed := by
  refine ⟨.var v, ?_⟩
  by_cases h : v.name = name
  · simpa only [Tangent.var, h, if_true] using .const _
  · simpa only [Tangent.var, h, if_false] using .const _

theorem add {f g : Tangent} (hf : f.WellFormed) (hg : g.WellFormed) :
    (Tangent.add f g).WellFormed where
  value := by simp [Tangent.add, hf.value, hg.value]
  slope := by simp [Tangent.add, hf.slope, hg.slope]

theorem sub {f g : Tangent} (hf : f.WellFormed) (hg : g.WellFormed) :
    (Tangent.sub f g).WellFormed where
  value := by simp [Tangent.sub, hf.value, hg.value]
  slope := by simp [Tangent.sub, hf.slope, hg.slope]

theorem mul {f g : Tangent} (hf : f.WellFormed) (hg : g.WellFormed) :
    (Tangent.mul f g).WellFormed where
  value := by simp [Tangent.mul, hf.value, hg.value]
  slope := by simp [Tangent.mul, hf.value, hf.slope, hg.value, hg.slope]

theorem div {f g : Tangent} (hf : f.WellFormed) (hg : g.WellFormed) :
    (Tangent.div f g).WellFormed where
  value := by simp [Tangent.div, hf.value, hg.value]
  slope := by simp [Tangent.div, hf.value, hf.slope, hg.value, hg.slope]

theorem neg {f : Tangent} (hf : f.WellFormed) : (Tangent.neg f).WellFormed where
  value := by simp [Tangent.neg, hf.value]
  slope := by simp [Tangent.neg, hf.slope]

theorem abs {f : Tangent} (hf : f.WellFormed) : (Tangent.abs f).WellFormed where
  value := by simp [Tangent.abs, hf.value]
  slope := by simp [Tangent.abs, hf.value, hf.slope]

theorem choose {c f g : Tangent} (hc : c.WellFormed) (hf : f.WellFormed) (hg : g.WellFormed) :
    (Tangent.choose c f g).WellFormed where
  value := by simp [Tangent.choose, hc.value, hf.value, hg.value]
  slope := by simp [Tangent.choose, hc.value, hf.slope, hg.slope]

theorem mean {fs : List Tangent} (each : ∀ f ∈ fs, f.WellFormed) :
    (Tangent.mean fs).WellFormed where
  value := by simpa [Tangent.mean] using fun f hf => (each f hf).value
  slope := by simpa [Tangent.mean] using fun f hf => (each f hf).slope

theorem variance {fs : List Tangent} (each : ∀ f ∈ fs, f.WellFormed) :
    (Tangent.variance fs).WellFormed := by
  have deviations : ∀ d ∈ fs.map (squaredDeviation fs), d.WellFormed := by
    intro d hd
    obtain ⟨f, hf, rfl⟩ := List.mem_map.mp hd
    have deviation := (each f hf).sub (mean each)
    exact deviation.mul deviation
  constructor
  · simpa [Tangent.variance] using fun f hf => (each f hf).value
  · exact (mean deviations).slope

theorem exponent {b c x : Tangent} (hb : b.WellFormed) (hc : c.WellFormed) (hx : x.WellFormed) :
    (Tangent.exponent b c x).WellFormed :=
  (((hx.sub hb).mul (hx.sub hb)).div ((hc.mul hc).mul (const _))).neg

theorem gauss {a b c x : Tangent} (ha : a.WellFormed) (hb : b.WellFormed) (hc : c.WellFormed)
    (hx : x.WellFormed) : (Tangent.gauss a b c x).WellFormed where
  value := by simp [Tangent.gauss, ha.value, hb.value, hc.value, hx.value]
  slope := by
    have one : (number 1).WellFormed := .const _
    simp [Tangent.gauss, one, ha.value, ha.slope, hb.value, hc.value, hx.value,
      (exponent hb hc hx).slope]

end WellFormed

/-- The rule of an operation that accepts its operands applies and keeps well-formedness. -/
theorem exists_ofOp? {op : Op} {fs : List Tangent} (count : op.accepts fs.length = true)
    (each : ∀ f ∈ fs, f.WellFormed) : ∃ t, ofOp? op fs = some t ∧ t.WellFormed := by
  cases Op.applied_of_accepts count with
  | add f g => exact ⟨_, rfl, .add (each f (by simp)) (each g (by simp))⟩
  | subtract f g => exact ⟨_, rfl, .sub (each f (by simp)) (each g (by simp))⟩
  | multiply f g => exact ⟨_, rfl, .mul (each f (by simp)) (each g (by simp))⟩
  | divide f g => exact ⟨_, rfl, .div (each f (by simp)) (each g (by simp))⟩
  | negate f => exact ⟨_, rfl, .neg (each f (by simp))⟩
  | abs f => exact ⟨_, rfl, .abs (each f (by simp))⟩
  | iff c f g => exact ⟨_, rfl, .choose (each c (by simp)) (each f (by simp)) (each g (by simp))⟩
  | mean => exact ⟨_, rfl, .mean each⟩
  | var => exact ⟨_, rfl, .variance each⟩
  | gauss a b c x =>
    exact ⟨_, rfl, .gauss (each a (by simp)) (each b (by simp)) (each c (by simp))
      (each x (by simp))⟩

/-- The tangent of an operation comes from the tangents of its operands. -/
theorem ofExpr?_app {name : List Char} {op : Op} {es : List Expr} {tangent : Expr → Tangent}
    (each : ∀ e ∈ es, ofExpr? name e = some (tangent e)) :
    ofExpr? name (.app op es) = ofOp? op (es.map tangent) := by
  rw [ofExpr?, Expr.fold_app, ← ofExpr?, mapM_id_map each, Option.bind_some]

/-- A property of tangents that leaves have and rules keep: a well-formed expression has a tangent
with this property. -/
theorem exists_ofExpr?_of_rules {name : List Char} {P : Tangent → Prop}
    (const : ∀ value, P (.const value)) (var : ∀ v, P (.var name v))
    (rule : ∀ {op : Op} {fs : List Tangent}, op.accepts fs.length = true → (∀ f ∈ fs, P f) →
      ∃ t, ofOp? op fs = some t ∧ P t)
    {e : Expr} (h : e.WellFormed) : ∃ t, ofExpr? name e = some t ∧ P t := by
  induction e with
  | const value => exact ⟨_, rfl, const value⟩
  | var v => exact ⟨_, rfl, var v⟩
  | app op es ih =>
    obtain ⟨count, operands⟩ := Expr.wellFormed_app.mp h
    choose! tangent htangent property using fun e he => ih e he (operands e he)
    rw [ofExpr?_app htangent]
    refine rule (by rwa [List.length_map]) ?_
    rwa [List.forall_mem_map]

/-- Every well-formed expression has a tangent, and the tangent is well-formed. -/
theorem exists_ofExpr? (name : List Char) {e : Expr} (h : e.WellFormed) :
    ∃ t, ofExpr? name e = some t ∧ t.WellFormed :=
  exists_ofExpr?_of_rules .const (.var name) exists_ofOp? h

end Tangent

namespace Expr

/-- A well-formed expression has a derivative with respect to every name, and it is well-formed. -/
theorem WellFormed.exists_diff? {e : Expr} (h : e.WellFormed) (name : List Char) :
    ∃ d, e.diff? name = some d ∧ d.WellFormed := by
  obtain ⟨t, ht, formed⟩ := Tangent.exists_ofExpr? name h
  exact ⟨t.slope, by rw [diff?, ht, Option.map_some], formed.slope⟩

theorem WellFormed.of_diff? {e d : Expr} {name : List Char} (h : e.WellFormed)
    (hd : e.diff? name = some d) : d.WellFormed := by
  obtain ⟨d', hd', formed⟩ := h.exists_diff? name
  rw [hd] at hd'
  cases hd'
  exact formed

end Expr

end ExprCalculus

import Mathlib
import ExprCalculus.Proofs.Dependence
import ExprCalculus.Proofs.Sameness

/-!
# What a derivative has from its expression

The rules of differentiation write the numbers zero, one and two, a few operations of their own, and
a choice for an absolute value. All else in a derivative, of whatever order, stands in the
expression already: the material that says so is closed under the rules.

A name plays its part only where a variable is compared with it. Two names that no variable of an
expression has are told apart nowhere, and so the derivatives with respect to them are the same.
-/

namespace ExprCalculus.Expr

/-! ## What stands in an expression -/

theorem mem_constants {value : Double} {e : Expr} :
    value ∈ e.constants ↔ const value ∈ e.preorder := by
  rw [constants, List.mem_filterMap]
  constructor
  · rintro ⟨f, hf, h⟩
    cases f with
    | const value' =>
      cases h
      exact hf
    | var v => cases h
    | app op es => cases h
  · intro h
    exact ⟨const value, h, rfl⟩

/-- The operation stands at a node of the expression. -/
def Uses (e : Expr) (op : Op) : Prop := e.ofOp op ≠ []

theorem uses_iff {e : Expr} {op : Op} : e.Uses op ↔ ∃ es, app op es ∈ e.preorder := by
  constructor
  · intro uses
    obtain ⟨f, hf⟩ := List.exists_mem_of_ne_nil _ uses
    obtain ⟨mem, same⟩ := List.mem_filter.mp hf
    cases f with
    | const value => cases of_decide_eq_true same
    | var v => cases of_decide_eq_true same
    | app op' es =>
      cases of_decide_eq_true same
      exact ⟨es, mem⟩
  · rintro ⟨es, mem⟩
    have found : app op es ∈ e.ofOp op := List.mem_filter.mpr ⟨mem, decide_eq_true rfl⟩
    exact List.ne_nil_of_mem found

/-! ## Derivatives of any order -/

/-- What stands in an expression, and what the rules of differentiation may add to it. -/
def supply (e : Expr) : Material where
  const := {value | value ∈ e.constants ∨ value = .ofNat 0 ∨ value = .ofNat 1 ∨ value = .ofNat 2}
  var := {v | v ∈ e.distinctVariables}
  op := {op | (op ∈ [Op.abs, .var, .gauss] → e.Uses op) ∧ (op = .iff → e.Uses .iff ∨ e.Uses .abs)}

/-- What an expression supplies is closed under the rules of differentiation. -/
theorem closed_supply (e : Expr) : e.supply.Closed where
  zero := .inr (.inl rfl)
  one := .inr (.inr (.inl rfl))
  two := .inr (.inr (.inr rfl))
  add := by simp [supply]
  subtract := by simp [supply]
  multiply := by simp [supply]
  divide := by simp [supply]
  negate := by simp [supply]
  mean := by simp [supply]
  iff_of_abs := by
    rintro ⟨uses, -⟩
    exact ⟨by simp, fun _ => .inr (uses List.mem_cons_self)⟩

theorem madeOf_supply (e : Expr) : e.MadeOf e.supply := by
  intro f hf
  cases f with
  | const value => exact .inl (mem_constants.mpr hf)
  | var v => exact mem_distinctVariables.mpr hf
  | app op es =>
    have uses : e.Uses op := uses_iff.mpr ⟨es, hf⟩
    refine ⟨fun _ => uses, ?_⟩
    rintro rfl
    exact .inl uses

/-! ## Names that do not occur -/

/-- Names that the variables of a material agree on give the same tangent to what is made of it. -/
theorem MadeOf.ofExpr?_congr {M : Material} {e : Expr} (made : e.MadeOf M)
    {name name' : List Char} (agree : ∀ v ∈ M.var, v.name = name ↔ v.name = name') :
    Tangent.ofExpr? name e = Tangent.ofExpr? name' e := by
  induction e with
  | const value => rfl
  | var v =>
    have same := agree v (madeOf_var.mp made)
    simp only [Tangent.ofExpr?, fold_var, Tangent.var, same]
  | app op es ih =>
    obtain ⟨-, operands⟩ := madeOf_app.mp made
    have each := List.map_congr_left fun f hf => ih f hf (operands f hf)
    rw [Tangent.ofExpr?, fold_app, ← Tangent.ofExpr?, each, Tangent.ofExpr?, fold_app]

/-- A repeated derivative has no variables but those of the expression, no constants but those and
the numbers zero, one and two, absolute values, variances and bell curves only if the expression has
them, and choices only if it has choices or absolute values. The derivatives with respect to two
names that do not occur are the same. -/
theorem derivatives_made_from {e : Expr} (h : e.WellFormed) :
    (∀ names, ∃ d, e.diffAll? names = some d ∧
      (∀ v ∈ d.distinctVariables, v ∈ e.distinctVariables) ∧
      (∀ value ∈ d.constants,
        value ∈ e.constants ∨ value = .ofNat 0 ∨ value = .ofNat 1 ∨ value = .ofNat 2) ∧
      (∀ op ∈ [Op.abs, .var, .gauss], d.Uses op → e.Uses op) ∧
      (d.Uses .iff → e.Uses .iff ∨ e.Uses .abs)) ∧
    ∀ name name', name ∉ e.distinctVariables.map Variable.name →
      name' ∉ e.distinctVariables.map Variable.name →
      ∃ d d', e.diff? name = some d ∧ e.diff? name' = some d' ∧ (d == d') = true := by
  constructor
  · intro names
    obtain ⟨d, hd, made⟩ := e.madeOf_supply.exists_diffAll? e.closed_supply h names
    refine ⟨d, hd, fun v hv => made _ (mem_distinctVariables.mp hv),
      fun value hvalue => made _ (mem_constants.mp hvalue), ?_, ?_⟩
    · intro op rare uses
      obtain ⟨es, node⟩ := uses_iff.mp uses
      exact (made _ node).1 rare
    · intro uses
      obtain ⟨es, node⟩ := uses_iff.mp uses
      exact (made _ node).2 rfl
  · intro name name' absent absent'
    obtain ⟨d, hd, -⟩ := h.exists_diff? name
    have agree : ∀ v ∈ e.supply.var, v.name = name ↔ v.name = name' := by
      intro v hv
      have differs : v.name ≠ name := fun same => absent (same ▸ List.mem_map_of_mem hv)
      have differs' : v.name ≠ name' := fun same => absent' (same ▸ List.mem_map_of_mem hv)
      exact iff_of_false differs differs'
    refine ⟨d, d, hd, ?_, equivalence_beq.refl d⟩
    rw [← hd, diff?, diff?, e.madeOf_supply.ofExpr?_congr agree]

/-- A second derivative of a quotient with an absolute value, and a variable beside a word. -/
theorem derivatives_made_from_absolute_value :
    let e : Expr := .app .divide [.app .abs [.var .x], .const (.ofNat 3)]
    (∃ d, e.diffAll? [['x'], ['x']] = some d ∧ ¬ d.Uses .gauss ∧
      ∀ v ∈ d.distinctVariables, v = .x) ∧
    ∃ d d', e.diff? ['y'] = some d ∧ e.diff? ['w', 'x'] = some d' ∧ (d == d') = true := by
  intro e
  have operand : (app .abs [.var .x]).WellFormed := .app rfl (by simp [WellFormed.var])
  have formed : e.WellFormed := .app rfl (by simp [operand, WellFormed.const])
  have listed : e.distinctVariables = [.x] := rfl
  obtain ⟨derivatives, names⟩ := derivatives_made_from formed
  constructor
  · obtain ⟨d, hd, leaves, -, operations, -⟩ := derivatives [['x'], ['x']]
    refine ⟨d, hd, ?_, ?_⟩
    · intro uses
      exact operations .gauss (by simp) uses rfl
    · intro v hv
      exact List.mem_singleton.mp (listed ▸ leaves v hv)
  · refine names _ _ ?_ ?_
    · rw [listed]
      decide
    · rw [listed]
      decide

end ExprCalculus.Expr

import ExprCalculus.Blueprint
import ExprCalculus.Expr.Derivative

/-!
# Differentiation with checked nodes

The rules of `Tangent` build derivatives out of expressions that are there. Here every node of a
derivative is made as a node is made anywhere: the operation is looked up, the operands are counted,
and each of them has to be an expression. Any of this may fail in the middle of a rule, and so may
calling a rule with a number of operands that it does not have.

The operands of a rule are differentiated when it needs them. The rule of variance also
differentiates the square of each deviation, and the rule of the bell curve its exponent:
expressions that the rule has just made and that are larger than its operands. Counting these two
operations for what their rules make of them, every expression that is differentiated on the way is
lighter than the one that it is needed for.
-/

namespace ExprCalculus

/- Sums start from the core library's zero. -/
attribute [local instance (20000)] Zero.ofOfNat0

namespace Expr

open Tangent (number)

/-! ## Weights -/

/-- The weight of an expression: its number of nodes, except that the operations whose rules
differentiate something of their own weigh more than that. -/
def weight : Expr → Nat :=
  fold (fun _ => 1) (fun _ => 1) fun op weights =>
    match op with
    | .var => 6 + 4 * weights.sum
    | .gauss => 10 + 2 * weights.sum
    | _ => 1 + weights.sum

@[simp] theorem weight_number (n : Nat) : (number n).weight = 1 := rfl

@[simp] theorem weight_app (op : Op) (es : List Expr) :
    (app op es).weight = match op with
      | .var => 6 + 4 * (es.map weight).sum
      | .gauss => 10 + 2 * (es.map weight).sum
      | _ => 1 + (es.map weight).sum := by
  simp [weight]

theorem weight_le_sum {e : Expr} {es : List Expr} (h : e ∈ es) :
    e.weight ≤ (es.map weight).sum := by
  induction es with
  | nil => cases h
  | cons f es ih =>
    rw [List.map_cons, List.sum_cons]
    rcases List.mem_cons.mp h with rfl | h
    · exact Nat.le_add_right _ _
    · exact Nat.le_trans (ih h) (Nat.le_add_left _ _)

/-- Operands are lighter than the operation. -/
theorem weight_lt_of_mem {op : Op} {e : Expr} {es : List Expr} (h : e ∈ es) :
    e.weight < (app op es).weight := by
  have le := weight_le_sum h
  cases op <;> simp only [weight_app] <;> omega

/-- The square of the deviation of an operand is lighter than the variance. -/
theorem weight_square_lt {e : Expr} {es : List Expr} (h : e ∈ es) :
    (app .multiply [app .subtract [e, app .mean es], app .subtract [e, app .mean es]]).weight <
      (app .var es).weight := by
  have le := weight_le_sum h
  simp
  omega

/-- The exponent of a bell curve is lighter than the bell curve. -/
theorem weight_exponent_lt (a b c x : Expr) :
    (app .negate [app .divide [app .multiply [app .subtract [x, b], app .subtract [x, b]],
      app .multiply [app .multiply [c, c], number 2]]]).weight < (app .gauss [a, b, c, x]).weight := by
  simp
  omega

attribute [local irreducible] weight

/-! ## Rules -/

/-- The operation on the operands. -/
abbrev Node (op : Op) (operands : List Expr) := {e : Expr // e = .app op operands}

/-- Makes a node of a derivative like any other node. -/
def node (op : Op) (operands : List Expr) : Except Fault (Node op operands) :=
  match h : (OpKey.code op.code).assemble (operands.map .inr) with
  | .ok (.inr e) => .ok ⟨e, by
      rw [OpKey.assemble_inr] at h
      split at h <;> cases h
      rfl⟩
  | .ok (.inl kind) => .error (.rootKind kind)
  | .error fault => .error fault

/-- The derivative with respect to a name, by the rule of the operation. -/
def differentiate (name : List Char) : Expr → Except Fault Expr
  | .const _ => return number 0
  | .var v => return if v.name = name then number 1 else number 0
  | .app .add [f, g] => do return ← node .add [← differentiate name f, ← differentiate name g]
  | .app .subtract [f, g] => do
    return ← node .subtract [← differentiate name f, ← differentiate name g]
  | .app .multiply [f, g] => do
    return ← node .add [← node .multiply [← differentiate name f, g],
      ← node .multiply [f, ← differentiate name g]]
  | .app .divide [f, g] => do
    return ← node .divide [
      ← node .subtract [← node .multiply [← differentiate name f, g],
        ← node .multiply [f, ← differentiate name g]],
      ← node .multiply [g, g]]
  | .app .negate [f] => do return ← node .negate [← differentiate name f]
  | .app .abs [f] => do
    let slope ← differentiate name f
    return ← node .iff [f, slope, ← node .negate [slope]]
  | .app .iff [c, f, g] => do
    return ← node .iff [c, ← differentiate name f, ← differentiate name g]
  | .app .mean es => do
    return ← node .mean (← es.attach.mapM fun e => differentiate name e.1)
  | .app .var es => do
    let terms ← es.attach.mapM fun e => do
      let ⟨mean, _⟩ ← node .mean es
      let ⟨deviation, _⟩ ← node .subtract [e.1, mean]
      let ⟨square, _⟩ ← node .multiply [deviation, deviation]
      differentiate name square
    return ← node .mean terms
  | .app .gauss [a, b, c, x] => do
    let ⟨left, _⟩ ← node .subtract [x, b]
    let ⟨right, _⟩ ← node .subtract [x, b]
    let ⟨square, _⟩ ← node .multiply [left, right]
    let ⟨width, _⟩ ← node .multiply [c, c]
    let ⟨divisor, _⟩ ← node .multiply [width, number 2]
    let ⟨quotient, _⟩ ← node .divide [square, divisor]
    let ⟨exponent, _⟩ ← node .negate [quotient]
    return ← node .multiply [← node .gauss [number 1, b, c, x],
      ← node .add [← differentiate name a, ← node .multiply [a, ← differentiate name exponent]]]
  | .app _ _ => throw .misapplied
termination_by e => e.weight
decreasing_by
  all_goals
    subst_vars
    first
    | exact weight_exponent_lt _ _ _ _
    | exact weight_square_lt (Subtype.property _)
    | exact weight_lt_of_mem (Subtype.property _)
    | exact weight_lt_of_mem (by simp)

/-- The derivative with respect to one name after another. -/
def differentiateAll (names : List (List Char)) (e : Expr) : Except Fault Expr :=
  names.foldlM (fun e name => differentiate name e) e

end Expr

end ExprCalculus

import ExprCalculus.Expr.Operation
import ExprCalculus.Number.Layout

/-!
# Expressions

An expression is a constant, a variable, or an operation with its operands in order. The type does
not count operands: `Expr.WellFormed` says that every operation has a number that it accepts, and
`Expr.build` is the constructor that checks it for the node at hand.

Everything that is computed from the leaves up goes through `Expr.fold`, which has one equation per
constructor; `Expr.induction` is the matching principle, with a hypothesis for every operand.
The comparison `==` is one of structure, where constants are the same when their literals are.
-/

namespace ExprCalculus

/- Sums start from the core library's zero. -/
attribute [local instance (20000)] Zero.ofOfNat0

/-- An expression over three variables. -/
inductive Expr where
  /-- A constant. -/
  | const (value : Double)
  /-- A variable. -/
  | var (v : Variable)
  /-- An operation and its operands. -/
  | app (op : Op) (operands : List Expr)

namespace Expr

/-- Induction on expressions, with a hypothesis for every operand. -/
@[induction_eliminator]
theorem induction {motive : Expr → Prop} (const : ∀ value, motive (const value))
    (var : ∀ v, motive (var v))
    (app : ∀ op operands, (∀ e ∈ operands, motive e) → motive (app op operands)) (e : Expr) :
    motive e :=
  Expr.rec (motive_1 := motive) (motive_2 := fun es => ∀ e ∈ es, motive e) const var app
    (fun _ h => absurd h List.not_mem_nil)
    (fun _ _ head tail _ h => (List.mem_cons.mp h).elim (fun h => h ▸ head) (tail _)) e

/-! ## Folding -/

section fold

variable {α : Type} (const : Double → α) (var : Variable → α) (app : Op → List α → α)

mutual

/-- The value of an expression computed from the leaves up. -/
def fold : Expr → α
  | .const value => const value
  | .var v => var v
  | .app op operands => app op (foldAll operands)

/-- The values of several expressions, in order. -/
def foldAll : List Expr → List α
  | [] => []
  | e :: es => fold e :: foldAll es

end

theorem foldAll_eq_map (es : List Expr) : foldAll const var app es = es.map (fold const var app) := by
  induction es with
  | nil => rfl
  | cons e es ih => simp [foldAll, ih]

@[simp] theorem fold_const (value : Double) : fold const var app (.const value) = const value := rfl

@[simp] theorem fold_var (v : Variable) : fold const var app (.var v) = var v := rfl

@[simp] theorem fold_app (op : Op) (operands : List Expr) :
    fold const var app (.app op operands) = app op (operands.map (fold const var app)) := by
  rw [fold, foldAll_eq_map]

end fold

/-! ## Equality -/

mutual

/-- Are two expressions the same, node by node? Constants are compared by their literals, so
not-a-number is the same as itself and the two zeros differ. -/
def same : Expr → Expr → Bool
  | .const value, .const value' => value.literal == value'.literal
  | .var v, .var w => v == w
  | .app op es, .app op' fs => op == op' && sameAll es fs
  | _, _ => false

/-- Are two lists of expressions the same, one by one? -/
def sameAll : List Expr → List Expr → Bool
  | [], [] => true
  | e :: es, f :: fs => same e f && sameAll es fs
  | _, _ => false

end

instance : BEq Expr := ⟨same⟩

instance : Inhabited Expr := ⟨.const (.zero false)⟩

/-- The hash of an expression is computed from those of its parts, where a constant counts as its
literal. -/
instance : Hashable Expr where
  hash := fold (fun value => mixHash 1 (hash (String.ofList value.literal)))
    (fun v => mixHash 2 (hash v))
    (fun op hashes => mixHash 3 (mixHash (hash op) (hash hashes)))

/-! ## Structure -/

/-- The operands of an expression; leaves have none. -/
def operands : Expr → List Expr
  | const _ => []
  | var _ => []
  | app _ operands => operands

@[simp] theorem operands_const (value : Double) : (const value).operands = [] := rfl
@[simp] theorem operands_var (v : Variable) : (var v).operands = [] := rfl
@[simp] theorem operands_app (op : Op) (es : List Expr) : (app op es).operands = es := rfl

/-- The number of nodes. -/
def size : Expr → Nat := fold (fun _ => 1) (fun _ => 1) (fun _ sizes => 1 + sizes.sum)

@[simp] theorem size_const (value : Double) : (const value).size = 1 := rfl
@[simp] theorem size_var (v : Variable) : (var v).size = 1 := rfl
@[simp] theorem size_app (op : Op) (es : List Expr) :
    (app op es).size = 1 + (es.map size).sum := by
  simp [size]

/-- A node counts itself besides its operands. -/
theorem size_eq (e : Expr) : e.size = 1 + (e.operands.map size).sum := by
  cases e <;> simp

/-- The number of nodes on the longest path to a leaf. -/
def depth : Expr → Nat := fold (fun _ => 1) (fun _ => 1) (fun _ depths => 1 + depths.max?.getD 0)

@[simp] theorem depth_const (value : Double) : (const value).depth = 1 := rfl
@[simp] theorem depth_var (v : Variable) : (var v).depth = 1 := rfl
@[simp] theorem depth_app (op : Op) (es : List Expr) :
    (app op es).depth = 1 + (es.map depth).max?.getD 0 := by
  simp [depth]

/-- Every operation has a number of operands that it accepts. -/
inductive WellFormed : Expr → Prop where
  /-- A constant is well-formed. -/
  | const (value : Double) : WellFormed (.const value)
  /-- A variable is well-formed. -/
  | var (v : Variable) : WellFormed (.var v)
  /-- An operation on an accepted number of well-formed operands is well-formed. -/
  | app {op : Op} {operands : List Expr} (count : op.accepts operands.length = true)
      (each : ∀ e ∈ operands, WellFormed e) : WellFormed (.app op operands)

@[simp] theorem wellFormed_app {op : Op} {es : List Expr} :
    (app op es).WellFormed ↔ op.accepts es.length = true ∧ ∀ e ∈ es, e.WellFormed :=
  ⟨fun h => by cases h with | app count each => exact ⟨count, each⟩, fun h => .app h.1 h.2⟩

/-! ## Checked construction -/

/-- A number of operands that the operation does not accept. -/
structure CountMismatch where
  /-- The operation. -/
  op : Op
  /-- The number that it takes. -/
  expected : Nat
  /-- The number that it was given. -/
  found : Nat
deriving DecidableEq

/-- An operation on its operands, if it accepts their number. -/
def build (op : Op) (operands : List Expr) : Except CountMismatch Expr :=
  match op.arity with
  | none => .ok (app op operands)
  | some n =>
    if n = operands.length then .ok (app op operands) else .error ⟨op, n, operands.length⟩

/-- Construction succeeds exactly when the operation accepts the number of operands. -/
theorem build_eq_ok_iff {op : Op} {es : List Expr} {e : Expr} :
    build op es = .ok e ↔ op.accepts es.length = true ∧ e = app op es := by
  unfold build Op.accepts
  cases op.arity with
  | none => simpa using eq_comm
  | some n =>
    by_cases h : n = es.length
    · simpa [h] using eq_comm
    · simp [h]

end Expr

end ExprCalculus

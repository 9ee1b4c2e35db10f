import ExprCalculus.Expr.Basic

/-!
# Symbolic differentiation

A `Tangent` pairs an expression with its derivative, and each operation has a rule that builds the
pair of its result from the pairs of its operands. Differentiation folds these rules over the
expression and keeps the second component; the first is the expression itself
(`Tangent.value_of_ofExpr?`). The rules of variance and of the bell curve differentiate
expressions that are not operands (a squared deviation, an exponent) by building them from tangents,
so they need no rule of their own.

Nothing is simplified: a rule writes the textbook formula with the operands as they are. The
derivative at a kink is the one of the branch that evaluation takes there.
-/

namespace ExprCalculus

/-- An expression and its derivative. -/
structure Tangent where
  /-- The expression. -/
  value : Expr
  /-- Its derivative. -/
  slope : Expr

namespace Tangent

/-- The constant of a natural number. -/
def number (n : Nat) : Expr := .const (.ofNat n)

/-- A constant does not change. -/
def const (value : Double) : Tangent := ⟨.const value, number 0⟩

/-- A variable changes at rate one with its own name and not at all with any other. -/
def var (name : List Char) (v : Variable) : Tangent :=
  ⟨.var v, if v.name = name then number 1 else number 0⟩

/-- The sum rule. -/
def add (f g : Tangent) : Tangent where
  value := .app .add [f.value, g.value]
  slope := .app .add [f.slope, g.slope]

/-- The difference rule. -/
def sub (f g : Tangent) : Tangent where
  value := .app .subtract [f.value, g.value]
  slope := .app .subtract [f.slope, g.slope]

/-- The product rule, `f' g + f g'`. -/
def mul (f g : Tangent) : Tangent where
  value := .app .multiply [f.value, g.value]
  slope := .app .add [.app .multiply [f.slope, g.value], .app .multiply [f.value, g.slope]]

/-- The quotient rule, `(f' g - f g') / (g g)`. -/
def div (f g : Tangent) : Tangent where
  value := .app .divide [f.value, g.value]
  slope := .app .divide [
    .app .subtract [.app .multiply [f.slope, g.value], .app .multiply [f.value, g.slope]],
    .app .multiply [g.value, g.value]]

/-- A change of sign passes to the derivative. -/
def neg (f : Tangent) : Tangent where
  value := .app .negate [f.value]
  slope := .app .negate [f.slope]

/-- The derivative of an absolute value keeps its sign where the operand is at least zero and
changes it elsewhere. -/
def abs (f : Tangent) : Tangent where
  value := .app .abs [f.value]
  slope := .app .iff [f.value, f.slope, .app .negate [f.slope]]

/-- A choice differentiates its branches under the same condition. -/
def choose (c f g : Tangent) : Tangent where
  value := .app .iff [c.value, f.value, g.value]
  slope := .app .iff [c.value, f.slope, g.slope]

/-- The mean of the derivatives. -/
def mean (fs : List Tangent) : Tangent where
  value := .app .mean (fs.map value)
  slope := .app .mean (fs.map slope)

/-- The square of a difference from the mean of all operands. -/
def squaredDeviation (fs : List Tangent) (f : Tangent) : Tangent :=
  let deviation := sub f (mean fs)
  mul deviation deviation

/-- The mean of the derivatives of the squared deviations. -/
def variance (fs : List Tangent) : Tangent where
  value := .app .var (fs.map value)
  slope := (mean (fs.map (squaredDeviation fs))).slope

/-- The exponent of a bell curve, `-((x - b)² / ((c c) 2))`. -/
def exponent (b c x : Tangent) : Tangent :=
  neg (div (mul (sub x b) (sub x b)) (mul (mul c c) (const (.ofNat 2))))

/-- A bell curve of amplitude one times `a' + a e'`, where `e` is the exponent. -/
def gauss (a b c x : Tangent) : Tangent where
  value := .app .gauss [a.value, b.value, c.value, x.value]
  slope := .app .multiply [
    .app .gauss [number 1, b.value, c.value, x.value],
    .app .add [a.slope, .app .multiply [a.value, (exponent b c x).slope]]]

/-- The tangent of an operation on operands of an accepted number. -/
def ofOp? : Op → List Tangent → Option Tangent
  | .add, [f, g] => some (add f g)
  | .subtract, [f, g] => some (sub f g)
  | .multiply, [f, g] => some (mul f g)
  | .divide, [f, g] => some (div f g)
  | .negate, [f] => some (neg f)
  | .abs, [f] => some (abs f)
  | .iff, [c, f, g] => some (choose c f g)
  | .mean, fs => some (mean fs)
  | .var, fs => some (variance fs)
  | .gauss, [a, b, c, x] => some (gauss a b c x)
  | _, _ => none

/-- The tangent of an expression with respect to a name, if its operations have operands of accepted
numbers. -/
def ofExpr? (name : List Char) : Expr → Option Tangent :=
  Expr.fold (fun c => some (const c)) (fun v => some (var name v))
    (fun op tangents => (tangents.mapM id).bind (ofOp? op))

/-- A rule keeps the operation and its operands as the value. -/
theorem value_of_ofOp? {op : Op} {fs : List Tangent} {t : Tangent} (h : ofOp? op fs = some t) :
    t.value = .app op (fs.map value) := by
  unfold ofOp? at h
  split at h <;> cases h <;> rfl

/-- The tangents of operands have the operands as values. -/
theorem map_value_of_mapM {es : List Expr} {tangent? : Expr → Option Tangent} {fs : List Tangent}
    (each : ∀ e ∈ es, ∀ t, tangent? e = some t → t.value = e)
    (h : (es.map tangent?).mapM id = some fs) : fs.map value = es := by
  induction es generalizing fs with
  | nil =>
    cases h
    rfl
  | cons e es ih =>
    simp only [List.map_cons, List.mapM_cons, id_eq, Option.bind_eq_bind, Option.bind_eq_some_iff,
      Option.pure_def, Option.some.injEq] at h
    obtain ⟨t, ht, ts, hts, rfl⟩ := h
    rw [List.map_cons, each e List.mem_cons_self t ht,
      ih (fun e he => each e (List.mem_cons_of_mem _ he)) hts]

/-- The value of an expression's tangent is the expression. -/
theorem value_of_ofExpr? {name : List Char} {e : Expr} {t : Tangent}
    (h : ofExpr? name e = some t) : t.value = e := by
  induction e generalizing t with
  | const value =>
    cases h
    rfl
  | var v =>
    cases h
    rfl
  | app op es ih =>
    rw [ofExpr?, Expr.fold_app, Option.bind_eq_some_iff] at h
    obtain ⟨fs, hfs, h⟩ := h
    rw [value_of_ofOp? h, map_value_of_mapM (fun e he t ht => ih e he ht) hfs]

/-- A rule applies exactly when the operation accepts the number of operands. -/
theorem isSome_ofOp? (op : Op) (fs : List Tangent) :
    (ofOp? op fs).isSome = op.accepts fs.length := by
  cases op <;> rcases fs with _ | ⟨a, _ | ⟨b, _ | ⟨c, _ | ⟨d, _ | ⟨e, r⟩⟩⟩⟩⟩ <;>
    simp [ofOp?, Op.accepts, Op.arity]

end Tangent

namespace Expr

/-- The derivative with respect to a name, if the operations have operands of accepted numbers. -/
def diff? (name : List Char) (e : Expr) : Option Expr :=
  (Tangent.ofExpr? name e).map Tangent.slope

/-- The repeated derivative, with respect to one name after another. -/
def diffAll? (names : List (List Char)) (e : Expr) : Option Expr :=
  names.foldlM (fun e name => e.diff? name) e

end Expr

end ExprCalculus

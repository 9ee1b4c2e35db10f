import ExprCalculus.Lookup
import ExprCalculus.Parse.Bracketed

/-!
# Blueprints

A blueprint says how an expression is put together: read from a text, built from parts, or taken
from a name. Its parts are built first, from left to right, and the first that fails decides. Then
the operation is looked up, the number of its operands is checked, and last that each operand is an
expression, which a value put in from outside is not.
-/

namespace ExprCalculus

/-- A description of an expression. -/
inductive Blueprint where
  /-- What a bracketed text denotes. -/
  | bracketed (mode : Mode) (text : List Char)
  /-- What a bracket-free text denotes. -/
  | flat (text : List Char)
  /-- A constant. -/
  | const (value : Double)
  /-- A variable. -/
  | var (word : List Char)
  /-- An operation on its operands. -/
  | app (key : OpKey) (operands : List Blueprint)
  /-- A value that is no expression. -/
  | foreign (kind : Foreign)
  /-- The expression bound to a name. -/
  | ref (word : List Char)

/-- What a blueprint is built into: an expression or a value that is none. -/
abbrev Built := Foreign ⊕ Expr

/-- A built value as an operand. -/
def Built.operand (op : Op) : Built → Except Fault Expr
  | .inl kind => .error (.operandKind op kind)
  | .inr e => .ok e

/-- A built value as a whole expression. -/
def Built.root : Built → Except Fault Expr
  | .inl kind => .error (.rootKind kind)
  | .inr e => .ok e

/-- An operation on built values: the operation must be known, their number accepted, and each of
them an expression. -/
def OpKey.assemble (key : OpKey) (operands : List Built) : Except Fault Built := do
  let op ← key.lookUp
  if op.accepts operands.length then
    return .inr (.app op (← operands.mapM (Built.operand op)))
  else throw (.operandCount ⟨op, op.arity.getD operands.length, operands.length⟩)

theorem OpKey.lookUp_code (op : Op) : (OpKey.code op.code).lookUp = .ok op := by
  cases op <;> rfl

theorem Built.mapM_operand_inr (op : Op) (es : List Expr) :
    (es.map .inr).mapM (Built.operand op) = .ok es := by
  induction es with
  | nil => rfl
  | cons e es ih =>
    rw [List.map_cons, List.mapM_cons, ih]
    rfl

/-- On expressions, all that is left to check is their number. -/
theorem OpKey.assemble_inr (op : Op) (es : List Expr) :
    (OpKey.code op.code).assemble (es.map .inr) =
      if op.accepts es.length then .ok (.inr (.app op es))
      else .error (.operandCount ⟨op, op.arity.getD es.length, es.length⟩) := by
  rw [OpKey.assemble, OpKey.lookUp_code]
  refine Eq.trans (ite_congr (by rw [List.length_map]) (fun _ => ?_) fun _ => ?_) rfl
  · rw [Built.mapM_operand_inr]
    rfl
  · rw [List.length_map]
    rfl

namespace Blueprint

mutual

/-- Builds a blueprint in an environment of named expressions. -/
def build (bound? : List Char → Option Expr) : Blueprint → Except Fault Built
  | .bracketed mode text =>
    match parseBracketed mode text with
    | .ok e => .ok (.inr e)
    | .error rejection => .error (.rejected rejection)
  | .flat text =>
    match parseStack text with
    | .ok result => .ok (.inr result.expr)
    | .error fault => .error (.stack fault)
  | .const value => .ok (.inr (.const value))
  | .var word => (Variable.leaf word).map fun v => .inr (.var v)
  | .app key operands => do key.assemble (← buildAll bound? operands)
  | .foreign kind => .ok (.inl kind)
  | .ref word => (orFault (.unboundName word) (bound? word)).map .inr

/-- Builds blueprints from left to right. -/
def buildAll (bound? : List Char → Option Expr) : List Blueprint → Except Fault (List Built)
  | [] => .ok []
  | blueprint :: blueprints => do
    let first ← build bound? blueprint
    let rest ← buildAll bound? blueprints
    return first :: rest

end

/-- The expression that a blueprint describes. -/
def expr (bound? : List Char → Option Expr) (blueprint : Blueprint) : Except Fault Expr := do
  Built.root (← blueprint.build bound?)

end Blueprint

end ExprCalculus

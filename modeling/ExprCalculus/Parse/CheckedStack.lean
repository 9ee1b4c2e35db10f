import ExprCalculus.Blueprint

/-!
# Reading bracket-free texts with every check

The operands of an operation are taken from the stack one by one, and the operation is then
constructed like any other: it is looked up by its code, the number of its operands is counted, and
each of them has to be an expression. Any of this may fail, and so may taking the result from the
stack at the end.
-/

namespace ExprCalculus

/-- Takes expressions from the top of a stack one by one: those that were taken, and the rest. -/
def pop : Nat → List Expr → Except Fault (List Expr × List Expr)
  | 0, stack => .ok ([], stack)
  | _ + 1, [] => .error (.stack .underflow)
  | count + 1, top :: below => do
    let (taken, rest) ← pop count below
    return (top :: taken, rest)

/-- Constructs an operation by its code, from operands whose number and kind are checked. -/
def construct (op : Op) (operands : List Expr) : Except Fault Expr := do
  Built.root (← (OpKey.code op.code).assemble (operands.map .inr))

/-- An operation on too few operands is not constructed. -/
example : construct .add [.var .x] = .error (.operandCount ⟨.add, 2, 1⟩) := rfl

/-- Takes the operands of an operation from a stack, and constructs and pushes it. -/
def operate (op : Op) (stack : List Expr) : Except Fault (List Expr) := do
  let (taken, rest) ← pop (op.arity.getD stack.length) stack
  let e ← construct op taken.reverse
  return e :: rest

/-- Takes a word against a stack. -/
def takeWord (stack : List Expr) (word : List Char) : Except Fault (List Expr) :=
  match Variable.ofName? word, Op.ofSymbol? word, number? word with
  | some v, _, _ => .ok (.var v :: stack)
  | none, some op, _ => operate op stack
  | none, none, some value => .ok (.const value :: stack)
  | none, none, none => .error (.stack (.unknownWord word))

/-- Reads a bracket-free text with every check that is made on the way. -/
def readStack (text : List Char) : Except Fault StackResult := do
  let stack ← (words text).foldlM takeWord []
  let (taken, unused) ← pop 1 stack
  match taken with
  | e :: _ => return ⟨e, unused⟩
  | [] => .error (.stack .underflow)

end ExprCalculus

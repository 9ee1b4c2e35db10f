import ExprCalculus.Expr.Basic
import ExprCalculus.Number.Numeral
import ExprCalculus.Text.Words

/-!
# Reading bracket-free texts

The words of a bracket-free text are taken one after another against a stack of expressions. A
variable or a number is pushed; an operation pops its operands and pushes itself on them. An
operation that takes any number of operands takes the whole stack. The result is the expression on
top at the end; what is left below it is unused.
-/

namespace ExprCalculus

/-- Why a bracket-free text is rejected. -/
inductive StackFault where
  /-- A word that is neither a variable nor an operation nor a number. -/
  | unknownWord (word : List Char)
  /-- Fewer expressions on the stack than are needed. -/
  | underflow
deriving DecidableEq

/-- The message of a fault. -/
def StackFault.message : StackFault → List Char
  | unknownWord word =>
    "Unknown token '".toList ++ word ++ "' in postfix expression".toList
  | underflow => "pop from empty list".toList

/-- What a bracket-free text denotes. -/
structure StackResult where
  /-- The expression on top of the stack. -/
  expr : Expr
  /-- The expressions that are left below it, from the top. -/
  unused : List Expr

/-- An operation on the topmost expressions of a stack, the lowest of them first. -/
def applyToStack (op : Op) (stack : List Expr) : Except StackFault (List Expr) :=
  let count := op.arity.getD stack.length
  if count ≤ stack.length then .ok (.app op (stack.take count).reverse :: stack.drop count)
  else .error .underflow

/-- What one word does to the stack. -/
def pushWord (stack : List Expr) (word : List Char) : Except StackFault (List Expr) :=
  match Variable.ofName? word, Op.ofSymbol? word, number? word with
  | some v, _, _ => .ok (.var v :: stack)
  | none, some op, _ => applyToStack op stack
  | none, none, some value => .ok (.const value :: stack)
  | none, none, none => .error (.unknownWord word)

/-- What a stack denotes at the end of the text. -/
def topOfStack : List Expr → Except StackFault StackResult
  | [] => .error .underflow
  | e :: unused => .ok ⟨e, unused⟩

/-- What a bracket-free text denotes. -/
def parseStack (text : List Char) : Except StackFault StackResult :=
  ((words text).foldlM pushWord []).bind topOfStack

end ExprCalculus

import ExprCalculus.Expr.Basic

/-!
# Looking into an expression

The nodes of an expression in two orders: `preorder` visits a node before its operands, and
`levelOrder` takes nodes from the front of a queue and puts their operands at its end, so that it
goes level by level. The finders filter the first, and so answer in the order of the texts.
-/

namespace ExprCalculus.Expr

/- Sums start from the core library's zero. -/
attribute [local instance (20000)] Zero.ofOfNat0

mutual

/-- The nodes of an expression, each before its operands, from left to right. -/
def preorder : Expr → List Expr
  | .const value => [.const value]
  | .var v => [.var v]
  | .app op operands => .app op operands :: preorderAll operands

/-- The nodes of several expressions, one expression after another. -/
def preorderAll : List Expr → List Expr
  | [] => []
  | e :: es => preorder e ++ preorderAll es

end

theorem preorderAll_eq_flatMap (es : List Expr) : preorderAll es = es.flatMap preorder := by
  induction es with
  | nil => rfl
  | cons e es ih => simp [preorderAll, ih]

/-- A node comes before everything below it. -/
theorem preorder_eq (e : Expr) : e.preorder = e :: e.operands.flatMap preorder := by
  cases e with
  | const value => rfl
  | var v => rfl
  | app op es => simp [preorder, preorderAll_eq_flatMap]

/-- The nodes in the order in which a queue of expressions hands them out, when every node handed
out puts its operands at the end of the queue. -/
def fromQueue : List Expr → List Expr
  | [] => []
  | e :: queue => e :: fromQueue (queue ++ e.operands)
termination_by queue => (queue.map size).sum
decreasing_by
  simp only [List.map_append, List.sum_append, List.map_cons, List.sum_cons]
  have := e.size_eq
  omega

/-- The nodes of an expression, level by level. -/
def levelOrder (e : Expr) : List Expr := fromQueue [e]

/-- A stage of the loop: what is still to be visited, and what has been visited. -/
structure Visit where
  queue : List Expr
  visited : List Expr

namespace Visit

/-- One round of the loop: the front of the queue is visited, its operands line up at the end. -/
def round : Visit → Visit
  | ⟨[], visited⟩ => ⟨[], visited⟩
  | ⟨e :: queue, visited⟩ => ⟨queue ++ e.operands, visited ++ [e]⟩

end Visit

/-- An order of visiting nodes. -/
inductive Order where
  /-- Level by level. -/
  | breadthFirst
  /-- A node before its operands. -/
  | depthFirst
deriving DecidableEq

/-- The nodes in an order. -/
def nodes (order : Order) (e : Expr) : List Expr :=
  match order with
  | .breadthFirst => e.levelOrder
  | .depthFirst => e.preorder

/-- A kind of node. -/
inductive Kind where
  /-- Constants. -/
  | const
  /-- Variables. -/
  | var
  /-- Operations. -/
  | app
  /-- All nodes. -/
  | any
deriving DecidableEq

/-- Is the node of the kind? -/
def isKind : Kind → Expr → Bool
  | .const, .const _ => true
  | .var, .var _ => true
  | .app, .app _ _ => true
  | .any, _ => true
  | _, _ => false

/-- The nodes of a kind, each before its operands. -/
def ofKind (kind : Kind) (e : Expr) : List Expr := e.preorder.filter (isKind kind)

/-- The operation of a node, if it is one. -/
def op? : Expr → Option Op
  | .app op _ => some op
  | _ => none

/-- The nodes with an operation, each before its operands. -/
def ofOp (op : Op) (e : Expr) : List Expr := e.preorder.filter fun node => node.op? = some op

/-- The value of a node, if it is a constant. -/
def const? : Expr → Option Double
  | .const value => some value
  | _ => none

/-- The variable of a node, if it is one. -/
def var? : Expr → Option Variable
  | .var v => some v
  | _ => none

/-- The constants, from left to right. -/
def constants (e : Expr) : List Double := e.preorder.filterMap const?

/-- The occurrences of variables, from left to right. -/
def occurrences (e : Expr) : List Variable := e.preorder.filterMap var?

/-- The variables in the order in which they first occur. -/
def distinctVariables (e : Expr) : List Variable := e.occurrences.eraseDups

/-- A tally with one more occurrence of a variable; without an entry it gets one at the end. -/
def tally : List (Variable × Nat) → Variable → List (Variable × Nat)
  | [], v => [(v, 1)]
  | (w, n) :: entries, v => if w = v then (w, n + 1) :: entries else (w, n) :: tally entries v

/-- One more occurrence of a variable is one more in the sum of the tally. -/
theorem sum_tally (entries : List (Variable × Nat)) (v : Variable) :
    ((tally entries v).map Prod.snd).sum = (entries.map Prod.snd).sum + 1 := by
  induction entries with
  | nil => rfl
  | cons entry entries ih =>
    obtain ⟨w, n⟩ := entry
    by_cases h : w = v
    · simp only [tally, if_pos h, List.map_cons, List.sum_cons]
      omega
    · simp only [tally, if_neg h, List.map_cons, List.sum_cons, ih]
      omega

/-- How often each variable occurs, in the order in which they first occur. -/
def usage (e : Expr) : List (Variable × Nat) := e.occurrences.foldl tally []

/-- The different nodes, in the order in which they first occur level by level. -/
def distinct (e : Expr) : List Expr := e.levelOrder.eraseDups

end ExprCalculus.Expr

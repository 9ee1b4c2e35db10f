import ExprCalculus.Expr.Inspect
import ExprCalculus.Fault

/-!
# Looking up names

Operations, variables, modes and orders are asked for by name. Each look-up has the fault of its own
that a missing name is answered with; an operation may also be asked for by its code.
-/

namespace ExprCalculus

/-- What a look-up found, or the fault of its failure. -/
def orFault {α : Type} (fault : Fault) : Option α → Except Fault α
  | some found => .ok found
  | none => .error fault

/-- How an operation is asked for. -/
inductive OpKey where
  /-- By its symbol. -/
  | symbol (word : List Char)
  /-- By its code. -/
  | code (n : Int)
deriving DecidableEq

/-- The operation of a key. -/
def OpKey.lookUp : OpKey → Except Fault Op
  | symbol word => orFault (.missingSymbol word) (Op.ofSymbol? word)
  | code n => orFault (.missingCode n) (Op.ofCode? n)

/-- The operation to search an expression for. -/
def Op.sought (word : List Char) : Except Fault Op := orFault (.unknownSymbol word) (ofSymbol? word)

/-- The variable of a name, as a leaf. -/
def Variable.leaf (word : List Char) : Except Fault Variable :=
  orFault (.unknownVariable word) (ofName? word)

/-- The variable of a name, as a direction. -/
def Variable.direction (word : List Char) : Except Fault Variable :=
  orFault (.missingVariable word) (ofName? word)

/-- The mode of a name. -/
def Mode.named (word : List Char) : Except Fault Mode := orFault (.unknownMode word) (ofName? word)

namespace Expr.Order

/-- The name of an order. -/
def name : Order → List Char
  | breadthFirst => "breadth_first".toList
  | depthFirst => "depth_first".toList

/-- The order of a name. -/
def named (word : List Char) : Except Fault Order :=
  orFault (.unknownOrder word) ([breadthFirst, depthFirst].find? fun order => order.name = word)

end Expr.Order

end ExprCalculus

import ExprCalculus.Expr.Render
import ExprCalculus.Parse.Rejection
import ExprCalculus.Parse.Stack
import ExprCalculus.Text.Quoted

/-!
# What can go wrong

Every operation on expressions that can fail does so with a `Fault`, which names the cause. The
message is computed from it.
-/

namespace ExprCalculus

/-- A kind of value that is no expression. -/
inductive Foreign where
  /-- Nothing. -/
  | nothing
  /-- A truth value. -/
  | truth
  /-- A whole number. -/
  | whole
  /-- A number with a fraction part. -/
  | fraction
  /-- A text. -/
  | text
  /-- A sequence of values. -/
  | sequence
  /-- A record of named values. -/
  | record
deriving DecidableEq

/-- The name of a kind of value. -/
def Foreign.name : Foreign → List Char
  | nothing => "NoneType".toList
  | truth => "bool".toList
  | whole => "int".toList
  | fraction => "float".toList
  | text => "str".toList
  | sequence => "list".toList
  | record => "dict".toList

/-- Why an operation on expressions fails. -/
inductive Fault where
  /-- A bracketed text is rejected. -/
  | rejected (rejection : Rejection)
  /-- A bracket-free text is rejected. -/
  | stack (fault : StackFault)
  /-- A mode of bracketed texts that there is not. -/
  | unknownMode (word : List Char)
  /-- A word that names no variable. -/
  | unknownVariable (word : List Char)
  /-- A symbol that is looked up and names no operation. -/
  | missingSymbol (word : List Char)
  /-- A code that is looked up and belongs to no operation. -/
  | missingCode (code : Int)
  /-- A variable that is looked up and is none. -/
  | missingVariable (word : List Char)
  /-- A number of operands that an operation does not accept. -/
  | operandCount (mismatch : Expr.CountMismatch)
  /-- A value that is no expression as an operand. -/
  | operandKind (op : Op) (kind : Foreign)
  /-- A value that is no expression as a whole expression. -/
  | rootKind (kind : Foreign)
  /-- An operation inside an expression has a number of operands that it does not accept. -/
  | misapplied
  /-- A name to which no expression is bound. -/
  | unboundName (word : List Char)
  /-- An order of nodes that there is not. -/
  | unknownOrder (word : List Char)
  /-- A symbol to search for that names no operation. -/
  | unknownSymbol (word : List Char)
  /-- More columns than there are variables. -/
  | manyColumns (count : Nat)
  /-- A table whose rows have different shapes. -/
  | ragged
  /-- A single number where a table is needed. -/
  | noTable
  /-- Rows of rows where a table is needed. -/
  | deepTable
  /-- Coordinates of a shape that is no point's. -/
  | pointShape (shape : List Nat)
deriving DecidableEq

/-- A shape as a tuple: one extent is followed by a comma. -/
def shapeText : List Nat → List Char
  | [n] => '(' :: (Nat.toDigits 10 n ++ [',', ')'])
  | shape => '(' :: ([',', ' '].intercalate (shape.map (Nat.toDigits 10)) ++ [')'])

/-- The message of a fault; a ragged table has none. -/
def Fault.message? : Fault → Option (List Char)
  | rejected rejection => some rejection.message
  | stack fault => some fault.message
  | unknownMode word => some (quoted word ++ " is not a valid ParseMode".toList)
  | unknownVariable word =>
    some ("Unknown variable '".toList ++ word ++ "', expected one of ['x', 'y', 'z']".toList)
  | missingSymbol word => some (quoted word)
  | missingCode code => some (integerText code)
  | missingVariable word => some (quoted word)
  | operandCount mismatch =>
    some ("Operation '".toList ++ mismatch.op.symbol ++ "' takes ".toList ++
      Nat.toDigits 10 mismatch.expected ++ " operands, got ".toList ++
      Nat.toDigits 10 mismatch.found)
  | operandKind op kind =>
    some ("Operand of '".toList ++ op.symbol ++ "' must be a Node, got ".toList ++ kind.name)
  | rootKind kind => some ("Expression root must be a Node, got ".toList ++ kind.name)
  | misapplied => some "operation applied to a wrong number of operands".toList
  | unboundName word => some word
  | unknownOrder word => some ("Invalid traversal_order: ".toList ++ word)
  | unknownSymbol word => some ("Unknown operation symbol: ".toList ++ word)
  | manyColumns count =>
    some ("Expected at most 3 columns, got ".toList ++ Nat.toDigits 10 count)
  | ragged => none
  | noTable => some "not enough values to unpack (expected 2, got 0)".toList
  | deepTable => some "too many values to unpack (expected 2)".toList
  | pointShape shape =>
    some ("Expected a point (x, y, z), got shape ".toList ++ shapeText shape)

end ExprCalculus

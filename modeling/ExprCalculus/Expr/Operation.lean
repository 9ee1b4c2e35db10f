/-!
# Operations and variables

The ten operations an expression is built with, the symbols that name them in a text, and how many
operands each takes. Two of them, `mean` and `var`, take any number. The three variables are the
coordinates of a point.
-/

namespace ExprCalculus

/-- An operation. -/
inductive Op where
  /-- The sum of two operands. -/
  | add
  /-- The difference of two operands. -/
  | subtract
  /-- The product of two operands. -/
  | multiply
  /-- The quotient of two operands. -/
  | divide
  /-- The operand with its sign changed. -/
  | negate
  /-- The absolute value. -/
  | abs
  /-- The second operand if the first is at least zero, and the third otherwise. -/
  | iff
  /-- The arithmetic mean. -/
  | mean
  /-- The population variance. -/
  | var
  /-- A bell curve: amplitude, centre, width and position. -/
  | gauss
deriving DecidableEq, Hashable

namespace Op

/-- All operations, in the order of their codes. -/
def all : List Op := [add, subtract, multiply, divide, negate, abs, iff, mean, var, gauss]

/-- The symbol that names an operation in a text. -/
def symbol : Op → List Char
  | add => ['+']
  | subtract => ['-']
  | multiply => ['*']
  | divide => ['/']
  | negate => ['n', 'e', 'g', 'a', 't', 'e']
  | abs => ['a', 'b', 's']
  | iff => ['i', 'f', 'f']
  | mean => ['m', 'e', 'a', 'n']
  | var => ['v', 'a', 'r']
  | gauss => ['g', 'a', 'u', 's', 's']

/-- The operation that a word names, if it names one. -/
def ofSymbol? (word : List Char) : Option Op := all.find? fun op => op.symbol = word

/-- The place of an operation among all of them. -/
def code : Op → Nat
  | add => 0
  | subtract => 1
  | multiply => 2
  | divide => 3
  | negate => 4
  | abs => 5
  | iff => 6
  | mean => 7
  | var => 8
  | gauss => 9

/-- The operation with a code, if there is one. -/
def ofCode? (n : Int) : Option Op := all.find? fun op => op.code = n

/-- The name of an operation in capitals: the symbol's, where the symbol is a word. -/
def name : Op → List Char
  | add => ['A', 'D', 'D']
  | subtract => ['S', 'U', 'B', 'T', 'R', 'A', 'C', 'T']
  | multiply => ['M', 'U', 'L', 'T', 'I', 'P', 'L', 'Y']
  | divide => ['D', 'I', 'V', 'I', 'D', 'E']
  | op => op.symbol.map Char.toUpper

/-- How many operands an operation takes; `none` when it takes any number. -/
def arity : Op → Option Nat
  | add | subtract | multiply | divide => some 2
  | negate | abs => some 1
  | iff => some 3
  | mean | var => none
  | gauss => some 4

/-- Does the operation take any number of operands? -/
def isVariadic (op : Op) : Bool := op.arity.isNone

/-- Does the operation take this number of operands? -/
def accepts (op : Op) (count : Nat) : Bool :=
  match op.arity with
  | none => true
  | some n => n == count

/-- Every symbol names its operation. -/
@[simp] theorem ofSymbol?_symbol (op : Op) : ofSymbol? op.symbol = some op := by
  cases op <;> decide

/-- A word names an operation exactly when it is its symbol. -/
theorem ofSymbol?_eq_some_iff {word : List Char} {op : Op} :
    ofSymbol? word = some op ↔ word = op.symbol := by
  constructor
  · intro h
    have := List.find?_some h
    simpa using (of_decide_eq_true this).symm
  · rintro rfl
    exact ofSymbol?_symbol op

theorem symbol_injective {a b : Op} (h : a.symbol = b.symbol) : a = b := by
  have := ofSymbol?_symbol b
  rw [← h, ofSymbol?_symbol] at this
  exact Option.some.inj this

end Op

/-- A variable: a coordinate of the point of evaluation. -/
inductive Variable where
  /-- The first coordinate. -/
  | x
  /-- The second coordinate. -/
  | y
  /-- The third coordinate. -/
  | z
deriving DecidableEq, Hashable

namespace Variable

/-- The variables, in the order of the coordinates. -/
def all : List Variable := [x, y, z]

/-- The name of a variable. -/
def name : Variable → List Char
  | x => ['x']
  | y => ['y']
  | z => ['z']

/-- The place of a variable among the coordinates. -/
def index : Variable → Nat
  | x => 0
  | y => 1
  | z => 2

/-- The variable that a word names, if it names one. -/
def ofName? (word : List Char) : Option Variable := all.find? fun v => v.name = word

@[simp] theorem ofName?_name (v : Variable) : ofName? v.name = some v := by
  cases v <;> decide

/-- A word names a variable exactly when it is its name. -/
theorem ofName?_eq_some_iff {word : List Char} {v : Variable} :
    ofName? word = some v ↔ word = v.name := by
  constructor
  · intro h
    have := List.find?_some h
    simpa using (of_decide_eq_true this).symm
  · rintro rfl
    exact ofName?_name v

theorem name_injective {v w : Variable} (h : v.name = w.name) : v = w := by
  have := ofName?_name w
  rw [← h, ofName?_name] at this
  exact Option.some.inj this

end Variable

end ExprCalculus

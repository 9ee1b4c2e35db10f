import ExprCalculus.Expr.Basic
import ExprCalculus.Number.Layout

/-!
# Sums, products and powers

An algebra system knows sums and products of any number of terms, powers, and a few functions; it
has no differences, quotients or means. `Expr.form?` writes an expression in these terms: a
difference is a sum with a product by minus one, a quotient a product with a power of minus one.
A change of sign is taken in by a number, or by the integer that begins a product.

The operations of an expression write out their term as it is. Inside a mean, a variance or a bell
curve, and in a change of sign, the algebra system computes with its terms, and there not-a-number
takes in everything that follows it.
-/

namespace ExprCalculus

/-- A term of an algebra system. -/
inductive Form where
  /-- An integer. -/
  | integer (n : Int)
  /-- A number that is no integer. -/
  | real (value : Double)
  /-- Positive infinity. -/
  | infinity
  /-- Negative infinity. -/
  | negativeInfinity
  /-- Not a number. -/
  | nan
  /-- A variable. -/
  | symbol (v : Variable)
  /-- A sum. -/
  | sum (terms : List Form)
  /-- A product. -/
  | product (factors : List Form)
  /-- A power. -/
  | power (base exponent : Form)
  /-- An absolute value. -/
  | abs (argument : Form)
  /-- An exponential. -/
  | exp (argument : Form)
  /-- The first term where the condition is at least zero, and the second elsewhere. -/
  | piecewise (condition onTrue onFalse : Form)

namespace Form

/-- The number that a double is which is no integer. -/
def ofNonInteger : Double → Form
  | .nan => nan
  | .infinite negative => if negative then negativeInfinity else infinity
  | .finite negative code => real (.finite negative code)

/-- The number that a double is; both zeros are the integer zero. -/
def ofDouble (value : Double) : Form :=
  match value.toInt? with
  | some n => integer n
  | none => ofNonInteger value

theorem ofDouble_of_toInt? {value : Double} {n : Int} (h : value.toInt? = some n) :
    ofDouble value = integer n := by
  rw [ofDouble, h]

theorem ofDouble_of_not_integer {value : Double} (h : value.toInt? = none) :
    ofDouble value = ofNonInteger value := by
  rw [ofDouble, h]

/-- The number of opposite sign, if the term is a number; not-a-number is its own opposite. -/
def opposite? : Form → Option Form
  | integer n => some (integer (-n))
  | real (.finite negative code) => some (real (.finite (!negative) code))
  | infinity => some negativeInfinity
  | negativeInfinity => some infinity
  | nan => some nan
  | _ => none

/-- The product of factors; a single factor is its own product. -/
def productOf : List Form → Form
  | [factor] => factor
  | factors => product factors

/-- One term times another. Not-a-number takes in what it is multiplied by. -/
def times (a b : Form) : Form :=
  match a with
  | nan => nan
  | _ => product [a, b]

/-- Factors with an integer taken in: one changes nothing, and otherwise a number at the front takes
it in, by a change of sign if it is minus one, and the integer goes in front of anything else. -/
def takeIn (k : Int) (factors : List Form) : List Form :=
  if k = 1 then factors
  else
    match factors with
    | [] => [integer k]
    | first :: rest =>
      match first.opposite? with
      | none => integer k :: first :: rest
      | some opposite => (if k = -1 then opposite else first.times (integer k)) :: rest

/-- A change of sign: of a number, of the integer in front of a product, which the other factors
take in, or by a factor of minus one. -/
def neg (form : Form) : Form :=
  match form with
  | product (integer n :: rest) => productOf (takeIn (-n) rest)
  | product factors => productOf (takeIn (-1) factors)
  | other =>
    match other.opposite? with
    | some number => number
    | none => product [integer (-1), other]

/-- A reciprocal. -/
def reciprocal (form : Form) : Form := power form (integer (-1))

/-- A quotient; one is left out as a factor, and not-a-number takes in its divisor. -/
def quotient (a b : Form) : Form :=
  match a with
  | integer 1 => reciprocal b
  | _ => a.times (reciprocal b)

/-- A difference; not-a-number takes in what is subtracted. -/
def difference (a b : Form) : Form :=
  match a with
  | nan => nan
  | _ => sum [a, neg b]

/-- A sum; a single term is its own sum. -/
def sumOf : List Form → Form
  | [term] => term
  | terms => sum terms

/-- A mean: the sum divided by the count, and zero when there are no terms. -/
def mean (forms : List Form) : Form :=
  match forms with
  | [] => integer 0
  | _ => quotient (sumOf forms) (integer forms.length)

/-- A square. -/
def square (form : Form) : Form := power form (integer 2)

/-- A variance: the mean of the squared differences from the mean. -/
def variance (forms : List Form) : Form :=
  mean (forms.map fun form => square (difference form (mean forms)))

/-- A bell curve with amplitude `a`, centre `b` and width `c` at `x`. -/
def gauss (a b c x : Form) : Form :=
  let t := quotient (difference x b) c
  a.times (exp (quotient (neg (square t)) (integer 2)))

/-- A choice. A condition that is a number is decided. -/
def choose (condition a b : Form) : Form :=
  match condition with
  | integer n => if 0 ≤ n then a else b
  | real (.finite negative _) => if negative then b else a
  | _ => piecewise condition a b

/-- The term of an operation on operands of an accepted number. -/
def ofOp? : Op → List Form → Option Form
  | .add, [a, b] => some (sum [a, b])
  | .subtract, [a, b] => some (sum [a, product [integer (-1), b]])
  | .multiply, [a, b] => some (product [a, b])
  | .divide, [a, b] => some (product [a, reciprocal b])
  | .negate, [a] => some (neg a)
  | .abs, [a] => some (abs a)
  | .iff, [c, a, b] => some (choose c a b)
  | .mean, forms => some (mean forms)
  | .var, forms => some (variance forms)
  | .gauss, [a, b, c, x] => some (gauss a b c x)
  | _, _ => none

end Form

/-- The term of an expression, if its operations have operands of accepted numbers. -/
def Expr.form? : Expr → Option Form :=
  fold (fun value => some (.ofDouble value)) (fun v => some (.symbol v))
    (fun op forms => (forms.mapM id).bind (Form.ofOp? op))

end ExprCalculus

import ExprCalculus.Algebra.Form
import ExprCalculus.Algebra.Fraction
import ExprCalculus.Lookup

/-!
# Checks by an algebra system

An algebra system answers two questions about terms: whether a term is zero once it is simplified,
and what its partial derivative is. Two expressions are equivalent for it if the difference of their
terms is zero, and the derivative of an expression agrees with the system's if their difference is.

Any pair of answers is an `AlgebraSystem`. The one that is given here knows rational functions only:
it finds out whether a term is zero by its quotient of polynomials, and it differentiates sums,
products and powers by their rules.
-/

namespace ExprCalculus

/-- What an algebra system is asked about terms. -/
structure AlgebraSystem where
  /-- Is the term zero when it is simplified? -/
  isZero : Form → Bool
  /-- The partial derivative of a term. -/
  derivative : Variable → Form → Form

namespace AlgebraSystem

variable (S : AlgebraSystem)

/-- Is the difference of two expressions zero? -/
def equivalent (a b : Expr) : Except Fault Bool := do
  let left ← orFault .misapplied a.form?
  let right ← orFault .misapplied b.form?
  return S.isZero (left.difference right)

/-- Two derivatives of one expression. -/
structure Comparison where
  /-- The term of the expression's derivative. -/
  derivative : Form
  /-- The algebra system's derivative of the expression's term. -/
  reference : Form
  /-- Is their difference zero? -/
  agrees : Bool

/-- Compares the derivative of an expression with the algebra system's. -/
def compareDerivatives (name : List Char) (e : Expr) : Except Fault Comparison := do
  let slope ← orFault .misapplied (e.diff? name)
  let derivative ← orFault .misapplied slope.form?
  let form ← orFault .misapplied e.form?
  let v ← Variable.direction name
  let reference := S.derivative v form
  return ⟨derivative, reference, S.isZero (derivative.difference reference)⟩

end AlgebraSystem

/-! ## The algebra of rational functions -/

namespace Fraction

/-- The power with a natural number. -/
def powNat (a : Fraction) : Nat → Fraction
  | 0 => ofInt 1
  | n + 1 => (a.powNat n).mul a

/-- The power with an integer; zero has none with a negative one. -/
def power? (a : Fraction) : Int → Option Fraction
  | .ofNat n => some (a.powNat n)
  | .negSucc n => (ofInt 1).div? (a.powNat (n + 1))

end Fraction

namespace Form

mutual

/-- The quotient of polynomials that a term is, if it is built from integers and variables by sums,
products and powers with integers. -/
def fraction? : Form → Option Fraction
  | .integer n => some (.ofInt n)
  | .symbol v => some (.ofVariable v)
  | .sum terms => (fractionAll? terms).map fun as => as.foldr Fraction.add (.ofInt 0)
  | .product factors => (fractionAll? factors).map fun as => as.foldr Fraction.mul (.ofInt 1)
  | .power base (.integer n) => (fraction? base).bind fun a => a.power? n
  | _ => none

/-- The quotients of polynomials that several terms are, if each of them is one. -/
def fractionAll? : List Form → Option (List Fraction)
  | [] => some []
  | form :: forms => (fraction? form).bind fun a => (fractionAll? forms).map (a :: ·)

end

mutual

/-- The partial derivative of a term; there is a rule for what rational functions are built from. -/
def derivative (v : Variable) : Form → Form
  | .integer _ => integer 0
  | .symbol w => integer (if w = v then 1 else 0)
  | .sum terms => sum (derivatives v terms)
  | .product factors => productDerivative v factors
  | .power base (.integer n) =>
    if n = 0 then integer 0
    else product [integer n, power base (integer (n - 1)), derivative v base]
  | _ => nan

/-- The partial derivatives of several terms. -/
def derivatives (v : Variable) : List Form → List Form
  | [] => []
  | form :: forms => derivative v form :: derivatives v forms

/-- The partial derivative of a product, one factor after another. -/
def productDerivative (v : Variable) : List Form → Form
  | [] => integer 0
  | form :: forms =>
    sum [product (derivative v form :: forms), product [form, productDerivative v forms]]

end

end Form

/-- The algebra system that knows rational functions. -/
def AlgebraSystem.rational : AlgebraSystem where
  isZero form := form.fraction?.any Fraction.isZero
  derivative := Form.derivative

end ExprCalculus

import ExprCalculus.Algebra.Polynomial
import ExprCalculus.Expr.Arithmetic
import ExprCalculus.Expr.Derivative
import ExprCalculus.Number.Layout

/-!
# Rational functions

An expression built from integers and variables by the four operations, changes of sign, means and
variances is a rational function: a quotient of polynomials. It is found by evaluating the
expression in the arithmetic of quotients of polynomials, at the point whose coordinates are the
variables themselves. What is no rational function, and a quotient by zero, has no value there.

Numerators and denominators are kept as factors and multiplied out only where a sum needs it, so
that factors which two denominators share are not multiplied up. Two rational functions are equal
when their difference has the numerator zero. So equality of two expressions is decided, and so is
whether an expression's derivative is the derivative of its rational function.
-/

namespace ExprCalculus

/-- A quotient of two products of polynomials. -/
structure Fraction where
  /-- The factors of the numerator. -/
  num : List Poly
  /-- The factors of the denominator. -/
  den : List Poly

namespace Fraction

/-- An integer. -/
def ofInt (n : Int) : Fraction := ⟨[.const n], []⟩

/-- A variable. -/
def ofVariable (v : Variable) : Fraction := ⟨[.ofVariable v], []⟩

/-- The factors that are left of the first list when those of the second are taken away, each as
often as it occurs. -/
def without (factors taken : List Poly) : List Poly := taken.foldl List.erase factors

/-- The sum, over the factors of both denominators; shared ones are taken once. -/
def add (a b : Fraction) : Fraction where
  num := [(Poly.expand (a.num ++ without b.den a.den)).add
    (Poly.expand (b.num ++ without a.den b.den))]
  den := a.den ++ without b.den a.den

/-- The change of sign. -/
def neg (a : Fraction) : Fraction := ⟨.const (-1) :: a.num, a.den⟩

/-- The difference. -/
def sub (a b : Fraction) : Fraction := a.add b.neg

/-- The product. -/
def mul (a b : Fraction) : Fraction := ⟨a.num ++ b.num, a.den ++ b.den⟩

/-- Is the numerator zero? -/
def isZero (a : Fraction) : Bool := a.num.any Poly.isZero

/-- The quotient, if the divisor is not zero. -/
def div? (a b : Fraction) : Option Fraction :=
  if b.isZero then none else some ⟨a.num ++ b.den, a.den ++ b.num⟩

/-- Are two rational functions equal? -/
def equal (a b : Fraction) : Bool := (a.sub b).isZero

/-- The partial derivative by the quotient rule. -/
def derivative (v : Variable) (a : Fraction) : Fraction :=
  let n := Poly.expand a.num
  let d := Poly.expand a.den
  ⟨[((n.derivative v).mul d).sub (n.mul (d.derivative v))], a.den ++ a.den⟩

/-- The arithmetic of rational functions; what is none is missing. -/
def arithmetic : Arithmetic (Option Fraction) where
  ofDouble value := value.toInt?.map ofInt
  ofNat n := some (ofInt n)
  undefined := none
  add a b := do return (← a).add (← b)
  sub a b := do return (← a).sub (← b)
  mul a b := do return (← a).mul (← b)
  div a b := do (← a).div? (← b)
  neg a := a.map neg
  abs _ := none
  exp _ := none
  select _ _ _ := none

end Fraction

namespace Expr

/-- The rational function that an expression is, if it is one. -/
def fraction? (e : Expr) : Option Fraction :=
  e.eval Fraction.arithmetic fun v => some (.ofVariable v)

/-- Are two expressions the same rational function? There is no answer if one is none. -/
def equivalent? (a b : Expr) : Option Bool := do
  return (← a.fraction?).equal (← b.fraction?)

/-- Is the derivative of an expression that of its rational function? There is no answer if it is
none. -/
def derivativeAgrees? (v : Variable) (e : Expr) : Option Bool := do
  let derivative ← e.diff? v.name
  return (← derivative.fraction?).equal ((← e.fraction?).derivative v)

end Expr

end ExprCalculus

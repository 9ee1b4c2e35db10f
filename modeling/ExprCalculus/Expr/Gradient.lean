import ExprCalculus.Expr.Evaluation
import ExprCalculus.Fault
import ExprCalculus.Number.Array

/-!
# Forward differences

The gradient of an expression at a point is estimated one variable at a time: the variable is moved
by a step and the change of the value is divided by the change of the variable, as it came out after
rounding. A step too small to move the variable is replaced by a fallback.

In floating point the default step is the square root of the distance from one to the next double,
and the fallback is that times the magnitude of the coordinate, at least one, away from zero.
-/

namespace ExprCalculus

/- Powers of natural numbers are those of the core library. -/
attribute [local instance (20000)] instPowNat instNatPowNat

/-- How far a variable is moved. -/
structure Stepping (α : Type) where
  /-- Is a movement too small to tell from none? -/
  isZero : α → Bool
  /-- The step that is wanted. -/
  step : α
  /-- The step that is taken from a coordinate when the wanted one does not move it. -/
  fallback : α → α

/-- The step that is taken from a coordinate. -/
def Stepping.stepFrom {α : Type} (A : Arithmetic α) (stepping : Stepping α) (x : α) : α :=
  if stepping.isZero (A.sub (A.add x stepping.step) x) then stepping.fallback x else stepping.step

/-- A point with one coordinate replaced. -/
def movedPoint {α : Type} (p : Variable → α) (v : Variable) (x : α) (w : Variable) : α :=
  if w = v then x else p w

namespace Expr

/-- The difference quotient of an expression when a variable is moved by a step. -/
def forwardDifference {α : Type} (A : Arithmetic α) (e : Expr) (p : Variable → α) (v : Variable)
    (step : α) : α :=
  let x := A.add (p v) step
  A.div (A.sub (e.eval A (movedPoint p v x)) (e.eval A p)) (A.sub x (p v))

/-- The difference quotients of an expression for all variables. -/
def gradient {α : Type} (A : Arithmetic α) (stepping : Stepping α) (e : Expr) (p : Variable → α) :
    List α :=
  Variable.all.map fun v => e.forwardDifference A p v (stepping.stepFrom A (p v))

end Expr

/-- The default step in floating point, `2 ^ (-26)`. -/
def defaultStep : Double := .ofRatio false 1 (2 ^ (26 : Nat))

/-- Stepping in floating point with a wanted step. -/
def Stepping.float (step : Float) : Stepping Float where
  isZero change := change == 0
  step := step
  fallback x :=
    let direction := if 0 ≤ x then 1 else -1
    defaultStep.toFloat * direction * (if x.abs < 1 then 1 else x.abs)

/-- The coordinates of an array that is a point. -/
def NumberArray.coordinates (array : NumberArray) : Except Fault (List Double) :=
  match array.shape? with
  | none => .error .ragged
  | some [3] => .ok array.numbers
  | some shape => .error (.pointShape shape)

/-- The estimated gradient of an expression in floating point, with a step of its own or the default
one. -/
def Expr.estimateGradient (e : Expr) (array : NumberArray) (step? : Option Double) :
    Except Fault (List Double) :=
  array.coordinates.map fun coordinates =>
    let stepping := Stepping.float (step?.getD defaultStep).toFloat
    let p := point (Arithmetic.float.ofNat 0) (coordinates.map Double.toFloat)
    (e.gradient Arithmetic.float stepping p).map Double.ofFloat

end ExprCalculus

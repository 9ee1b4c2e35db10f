import ExprCalculus.Blueprint
import ExprCalculus.Expr.Derivative
import ExprCalculus.Expr.Evaluation

/-!
# Sessions

A session binds names to expressions. The names stay in the order in which they were first bound,
and binding a name again keeps its place. A request is answered from the bindings and may add one;
when it fails, the session is as it was.
-/

namespace ExprCalculus

/-- Names bound to expressions, in the order in which they were first bound. -/
abbrev Session := List (List Char × Expr)

namespace Session

/-- The expression bound to a name. -/
def find? (session : Session) (name : List Char) : Option Expr :=
  (List.find? (fun binding => binding.1 = name) session).map Prod.snd

/-- The expression bound to a name, or the fault that there is none. -/
def get (session : Session) (name : List Char) : Except Fault Expr :=
  orFault (.unboundName name) (session.find? name)

/-- Binds a name: in its place if it is bound, and else at the end. -/
def bind (name : List Char) (e : Expr) : Session → Session
  | [] => [(name, e)]
  | first :: rest => if first.1 = name then (name, e) :: rest else first :: bind name e rest

/-- For each different expression the first name that is bound to it. -/
def distinct (session : Session) : List (List Char) :=
  (List.eraseDupsBy (fun a b => a.2 == b.2) session).map Prod.fst

end Session

/-- A request to a session. -/
inductive Request where
  /-- Bind a name to what a blueprint describes. -/
  | define (name : List Char) (blueprint : Blueprint)
  /-- Bind a name to the derivative of a bound expression. -/
  | differentiate (name of variableName : List Char)
  /-- Evaluate a bound expression. -/
  | evaluate (of : List Char) (coordinates : List Double)
  /-- Write a bound expression without brackets. -/
  | flat (of : List Char)
  /-- Write a bound expression with its symbols in front, as a constructor's argument. -/
  | display (of : List Char)
  /-- Count the nodes of a bound expression. -/
  | size (of : List Char)
  /-- Compare two bound expressions. -/
  | equal (a b : List Char)
  /-- Name the different expressions. -/
  | distinct

/-- An answer of a session. -/
inductive Reply where
  /-- An expression, to be described. -/
  | described (e : Expr)
  /-- A text. -/
  | text (text : List Char)
  /-- A number. -/
  | number (value : Double)
  /-- A count. -/
  | count (n : Nat)
  /-- A truth value. -/
  | truth (value : Bool)
  /-- Names. -/
  | names (words : List (List Char))

/-- The text of an expression as the argument of its constructor. -/
def Expr.display (e : Expr) : List Char :=
  "Expression(".toList ++ quoted (e.bracketed .pre) ++ [')']

/-- The derivative of an expression with respect to a name. -/
def Expr.derivative (name : List Char) (e : Expr) : Except Fault Expr :=
  orFault .misapplied (e.diff? name)

namespace Session

/-- Answers a request and gives the session after it. -/
def answer (session : Session) : Request → Except Fault (Reply × Session)
  | .define name blueprint => do
    let e ← blueprint.expr session.find?
    return (.described e, session.bind name e)
  | .differentiate name of variableName => do
    let derivative ← (← session.get of).derivative variableName
    return (.text (derivative.bracketed .pre), session.bind name derivative)
  | .evaluate of coordinates => do
    return (.number ((← session.get of).evaluate coordinates), session)
  | .flat of => do return (.text (← session.get of).flat, session)
  | .display of => do return (.text (← session.get of).display, session)
  | .size of => do return (.count (← session.get of).size, session)
  | .equal a b => do
    let left ← session.get a
    let right ← session.get b
    return (.truth (left == right), session)
  | .distinct => .ok (.names session.distinct, session)

/-- Answers requests one after another; one that fails changes nothing. -/
def run (session : Session) : List Request → List (Except Fault Reply)
  | [] => []
  | request :: requests =>
    match session.answer request with
    | .ok (reply, after) => .ok reply :: after.run requests
    | .error fault => .error fault :: session.run requests

end Session

end ExprCalculus

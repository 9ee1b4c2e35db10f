import ExprCalculus.Expr.Arithmetic
import ExprCalculus.Expr.Render
import ExprCalculus.Parse.Descent

/-!
# Computing with a limit on nested calls

What is computed from the leaves up calls itself on the operands of a node, and reading by descent
calls itself on a group inside a group. Here both get a limit on how many calls may be open at a
time, and break off where it is reached.
-/

namespace ExprCalculus

namespace Expr

/-! ## Computing from the leaves up -/

section fold

variable {α : Type} (const : Double → α) (var : Variable → α) (app : Op → List α → α)

/-- The value of an expression computed from the leaves up, if no more calls are nested than the
limit allows. -/
def foldWithin : Nat → Expr → Option α
  | 0, _ => none
  | _ + 1, .const value => some (const value)
  | _ + 1, .var v => some (var v)
  | limit + 1, .app op operands => (operands.mapM (foldWithin limit)).map (app op)

end fold

/-- The value of an expression at a point, if no more calls are nested than the limit allows. -/
def evalWithin {α : Type} (limit : Nat) (A : Arithmetic α) (point : Variable → α) :
    Expr → Option α :=
  foldWithin A.ofDouble point A.apply limit

/-- The bracketed text, if no more calls are nested than the limit allows. -/
def bracketedWithin (limit : Nat) (mode : Mode) : Expr → Option (List Char) :=
  foldWithin Double.literal Variable.name
    (fun op texts => '(' :: (spaced (mode.order op.symbol texts) ++ [')'])) limit

/-- The text without brackets, if no more calls are nested than the limit allows. -/
def flatWithin (limit : Nat) : Expr → Option (List Char) :=
  foldWithin Double.literal Variable.name (fun op texts => spaced (texts ++ [op.symbol])) limit

end Expr

namespace Bracketed

/-! ## Reading by descent -/

/-- Why a descent with a limit breaks off. -/
inductive Overrun where
  /-- The descent breaks off without a limit, too. -/
  | breakdown (cause : Breakdown)
  /-- A group opens inside as many as the limit allows. -/
  | tooDeep
deriving DecidableEq

/-- Reads a group inside another: the limit is one less there. -/
def nested {α : Type} (limit : Nat) (read : Nat → Except Overrun α) : Except Overrun α :=
  match limit with
  | 0 => .error .tooDeep
  | limit + 1 => read limit

/-- Reads the rest of a group as `readGroup` does, with a limit on how many groups are open inside
it at a time. -/
def readGroupWithin (limit : Nat) (mode : Mode) (text : List Char) (start : Nat)
    (elements : List Element) (cursor : Cursor) :
    Except Overrun (Expr × {after : Cursor // after.Follows cursor}) :=
  match h : cursor.next with
  | (none, after) => .error (.breakdown (.rejected (.endOfText after.pos .closing)))
  | (some lexeme, after) =>
    have follows := Cursor.follows_of_next h
    have := follows.shorter
    if lexeme.text = [')'] then do
      let e ← (closeElements mode start elements lexeme).mapError .breakdown
      .ok (e, ⟨after, follows⟩)
    else do
      let (element, behind) : Element × {behind : Cursor // behind.Follows cursor} ←
        if lexeme.text = ['('] then do
          let (inner, behind) ← nested limit fun limit =>
            readGroupWithin limit mode text lexeme.start [] after
          .ok (.operand inner (.between text lexeme.start behind.1.pos),
            ⟨behind, behind.2.trans follows⟩)
        else .ok (.ofLexeme lexeme, ⟨after, follows⟩)
      have := behind.2.shorter
      (checkElement mode elements element).mapError .breakdown
      let (e, final) ← readGroupWithin limit mode text start (elements ++ [element]) behind
      .ok (e, ⟨final, final.2.trans behind.2⟩)
termination_by cursor.rest.length

/-- Reads one expression as `readExpression` does, with a limit on how many groups are open at a
time. -/
def readExpressionWithin (limit : Nat) (mode : Mode) (text : List Char) (cursor : Cursor) :
    Except Overrun (Expr × Cursor) :=
  match cursor.next with
  | (none, after) => .error (.breakdown (.rejected (.endOfText after.pos .expression)))
  | (some lexeme, after) =>
    if lexeme.text = ['('] then do
      let (e, behind) ← nested limit fun limit =>
        readGroupWithin limit mode text lexeme.start [] after
      .ok (e, behind)
    else
      match leaf? lexeme.text with
      | some e => .ok (e, after)
      | none => .error (.breakdown (.rejected (.strayToken lexeme)))

/-- The expression of a text, read by descent with a limit on how many groups are open at a time. -/
def descendWithin (limit : Nat) (mode : Mode) (text : List Char) : Except Overrun Expr := do
  let (e, cursor) ← readExpressionWithin limit mode text (.ofText text)
  match cursor.next.1 with
  | some lexeme => .error (.breakdown (.rejected (.trailing lexeme)))
  | none => .ok e

end Bracketed

end ExprCalculus

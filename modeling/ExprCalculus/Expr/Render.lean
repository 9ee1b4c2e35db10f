import ExprCalculus.Expr.Basic
import ExprCalculus.Number.Layout

/-!
# Texts of an expression

Three texts name the same nodes. The bracketed ones put every operation in a group of its own, with
the symbol in front of its operands or behind them; they can be read back by the reader of the same
mode. The flat text has no brackets: operands, then symbol, which is what a stack reads. A fourth
text spells out the constructors of the nodes.

A leaf is written alike in the first three: a constant as its literal, a variable as its name.
-/

namespace ExprCalculus

/-- Where a bracket group has its operation symbol. -/
inductive Mode where
  /-- In front of the operands. -/
  | pre
  /-- Behind the operands. -/
  | post
deriving DecidableEq

/-- The name of a mode. -/
def Mode.name : Mode → List Char
  | pre => ['p', 'r', 'e', 'f', 'i', 'x']
  | post => ['p', 'o', 's', 't', 'f', 'i', 'x']

/-- The mode with a name, if there is one. -/
def Mode.ofName? (word : List Char) : Option Mode := [pre, post].find? fun mode => mode.name = word

/-- Words with a single space between them. -/
def spaced (words : List (List Char)) : List Char := [' '].intercalate words

/-- What splits at every space is computed from words with spaces between them word by word. -/
theorem apply_spaced {α : Type} {f : List Char → List α} (nil : f [] = [])
    (split : ∀ w cs, f (w ++ ' ' :: cs) = f w ++ f cs) (words : List (List Char)) :
    f (spaced words) = words.flatMap f := by
  induction words with
  | nil => rw [spaced, List.intercalate_nil, nil, List.flatMap_nil]
  | cons w ws ih =>
    cases ws with
    | nil => rw [spaced, List.intercalate_singleton, List.flatMap_singleton]
    | cons v vs =>
      have joined : spaced (w :: v :: vs) = w ++ ' ' :: spaced (v :: vs) := by
        simp [spaced, List.intercalate_cons_cons]
      rw [joined, split, ih, ← List.flatMap_cons]

/-- The words of a group in the order of the mode. -/
def Mode.order (mode : Mode) (symbol : List Char) (operands : List (List Char)) :
    List (List Char) :=
  match mode with
  | pre => symbol :: operands
  | post => operands ++ [symbol]

namespace Expr

/-- The bracketed text: every operation is a group. -/
def bracketed (mode : Mode) : Expr → List Char :=
  fold Double.literal Variable.name fun op texts =>
    '(' :: (spaced (mode.order op.symbol texts) ++ [')'])

/-- The text without brackets: operands, then symbol. -/
def flat : Expr → List Char :=
  fold Double.literal Variable.name fun op texts => spaced (texts ++ [op.symbol])

/-- Texts with a comma and a space between them. -/
def listed (texts : List (List Char)) : List Char := [',', ' '].intercalate texts

/-- The text that spells out the constructors. The comma behind a symbol stays when there are no
operands. -/
def constructorText : Expr → List Char :=
  fold (fun value => "ConstantNode(".toList ++ value.text ++ [')'])
    (fun v => "VariableNode('".toList ++ v.name ++ ['\'', ')'])
    (fun op texts =>
      "OperationNode('".toList ++ op.symbol ++ ['\'', ',', ' '] ++ listed texts ++ [')'])

@[simp] theorem bracketed_const (mode : Mode) (value : Double) :
    (const value).bracketed mode = value.literal := rfl

@[simp] theorem bracketed_var (mode : Mode) (v : Variable) :
    (var v).bracketed mode = v.name := rfl

@[simp] theorem bracketed_app (mode : Mode) (op : Op) (es : List Expr) :
    (app op es).bracketed mode =
      '(' :: (spaced (mode.order op.symbol (es.map (bracketed mode))) ++ [')']) := by
  simp [bracketed]

@[simp] theorem flat_const (value : Double) : (const value).flat = value.literal := rfl

@[simp] theorem flat_var (v : Variable) : (var v).flat = v.name := rfl

@[simp] theorem flat_app (op : Op) (es : List Expr) :
    (app op es).flat = spaced (es.map flat ++ [op.symbol]) := by
  simp [flat]

end Expr

end ExprCalculus

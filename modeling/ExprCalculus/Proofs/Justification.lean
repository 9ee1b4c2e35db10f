import Mathlib
import ExprCalculus.Proofs.Diagnosis

/-!
# What rejections say is so

A rejection names a cause, and the cause can be seen in the text without the reader: the group that
is empty, the element in the place of a symbol, the word in the place of an operand, the group with
its symbol and the number of its operands, the bracket that is never closed. `Rejection.TrueOf` says
so for each cause, in terms of the lexemes of the text and of the grammar.

The reader rejects in a state that has read what stands before, so everything it knows of its groups
has been seen in the text.
-/

namespace ExprCalculus

variable {mode : Mode} {text : List Char}

/-! ## Causes -/

namespace Bracketed

/-- The elements have been read from the lexemes, one after another. -/
inductive ElementsReadFrom (mode : Mode) (text : List Char) :
    List Element → List Excerpt → Prop where
  | nil : ElementsReadFrom mode text [] []
  | concat {elements : List Element} {element : Element} {ls els : List Excerpt}
      (before : ElementsReadFrom mode text elements ls) (last : element.ReadFrom mode text els) :
      ElementsReadFrom mode text (elements ++ [element]) (ls ++ els)

/-- An opening bracket of the text is followed by the elements, and these by the lexemes `after`. -/
def HasGroup (mode : Mode) (text : List Char) (elements : List Element) (after : List Excerpt) :
    Prop :=
  ∃ before opening ls, lexemes text = before ++ opening :: (ls ++ after) ∧ opening.text = ['('] ∧
    ElementsReadFrom mode text elements ls

end Bracketed

open Bracketed

theorem count_order {mode : Mode} {op : Op} {words : List (List Char)} {c : Char}
    (h : isBracket c = true) : (mode.order op.symbol words).count [c] = words.count [c] := by
  have differ : op.symbol ≠ [c] := by
    rintro same
    cases op <;> simp [Op.symbol] at same <;> subst same <;> cases h
  cases mode <;> simp [Mode.order, differ]

theorem SpellsAll.count_brackets {es : List Expr}
    (each : ∀ e ∈ es, ∀ {words}, Spells mode e words → words.count ['('] = words.count [')'])
    {words : List (List Char)} (h : SpellsAll mode es words) :
    words.count ['('] = words.count [')'] := by
  induction es generalizing words with
  | nil =>
    cases h
    rfl
  | cons e es ih =>
    cases h with
    | cons head tail =>
      rw [List.count_append, List.count_append, each e List.mem_cons_self head,
        ih (fun f hf => each f (List.mem_cons_of_mem _ hf)) tail]

/-- An expression has as many opening brackets as closing ones. -/
theorem Spells.count_brackets {e : Expr} {words : List (List Char)} (h : Spells mode e words) :
    words.count ['('] = words.count [')'] := by
  induction e generalizing words with
  | const value =>
    cases h with
    | @const word _ number =>
      have opening : word ≠ ['('] := by rintro rfl; cases number
      have closing : word ≠ [')'] := by rintro rfl; cases number
      simp [opening, closing]
  | var v =>
    cases h
    cases v <;> decide
  | app op es ih =>
    cases h with
    | app count operands =>
      have inside := operands.count_brackets fun e he _ spelled => ih e he spelled
      simp [count_order (c := '(') rfl, count_order (c := ')') rfl, inside]

namespace Bracketed

/-- As many brackets open as close within an element. -/
theorem Element.ReadFrom.count_brackets {element : Element} {ls : List Excerpt}
    (h : element.ReadFrom mode text ls) :
    (ls.map Excerpt.text).count ['('] = (ls.map Excerpt.text).count [')'] := by
  cases h with
  | word opening closing raw => simp [opening, closing]
  | operand spelled spans => exact spelled.count_brackets

/-- One bracket more opens than closes within an open group: its own. -/
theorem Group.ReadFrom.count_brackets {group : Group} {ls : List Excerpt}
    (h : group.ReadFrom mode text ls) :
    (ls.map Excerpt.text).count ['('] = (ls.map Excerpt.text).count [')'] + 1 := by
  induction h with
  | opened h => simp [h]
  | place before read placed ih =>
    rw [List.map_append, List.count_append, List.count_append, ih, read.count_brackets]
    omega

/-- Every open group has one opening bracket more than closing ones. -/
theorem GroupsReadFrom.count_brackets {groups : List Group} {ls : List Excerpt}
    (h : GroupsReadFrom mode text groups ls) :
    (ls.map Excerpt.text).count ['('] = (ls.map Excerpt.text).count [')'] + groups.length := by
  induction h with
  | nil => rfl
  | cons around inner ih =>
    rw [List.map_append, List.count_append, List.count_append, ih, inner.count_brackets,
      List.length_cons]
    omega

/-! ## The elements of a group -/

/-- The elements that have been put into a group, in the order of the text. -/
def Group.elements (mode : Mode) (group : Group) : List Element :=
  let operands := group.operands.map fun operand => .operand operand.1 operand.2
  match mode with
  | .pre => group.word.toList.map .word ++ operands
  | .post => operands ++ group.word.toList.map .word

/-- Putting an element into a group adds it behind the elements of the group. -/
theorem Group.elements_of_place {group after : Group} {element : Element}
    (empty : mode = .pre → group.word = none → group.operands = [])
    (h : group.place mode element = .ok after) :
    after.elements mode = group.elements mode ++ [element] := by
  rcases Group.place_eq_ok h with ⟨l, rfl, free, -, rfl⟩ | ⟨e, source, rfl, takes, rfl⟩
  · cases mode with
    | pre => simp [Group.elements, free, empty rfl free]
    | post => simp [Group.elements, free]
  · cases mode with
    | pre => simp [Group.elements]
    | post =>
      have free : group.word = none := takes
      simp [Group.elements, free]

/-- An open group has read its bracket and then its elements. -/
theorem Group.ReadFrom.elements {group : Group} {ls : List Excerpt}
    (h : group.ReadFrom mode text ls) :
    ∃ opening inner, ls = opening :: inner ∧ opening.text = ['('] ∧
      ElementsReadFrom mode text (group.elements mode) inner := by
  induction h with
  | @opened l h =>
    have none : (Group.opened l.start).elements mode = [] := by cases mode <;> rfl
    exact ⟨l, [], rfl, h, none ▸ .nil⟩
  | @place group after element ls els before read placed ih =>
    obtain ⟨opening, inner, rfl, hopening, elements⟩ := ih
    obtain ⟨-, -, -, empty⟩ := before.spells
    refine ⟨opening, inner ++ els, rfl, hopening, ?_⟩
    rw [Group.elements_of_place empty placed]
    exact .concat elements read

/-- The next element of a group joins the elements in front of it. -/
theorem HasGroup.concat {elements : List Element} {element : Element} {els after : List Excerpt}
    (h : HasGroup mode text elements (els ++ after)) (read : element.ReadFrom mode text els) :
    HasGroup mode text (elements ++ [element]) after := by
  obtain ⟨before, opening, ls, hl, hopening, inner⟩ := h
  exact ⟨before, opening, ls ++ els, by rw [hl, List.append_assoc], hopening, .concat inner read⟩

end Bracketed

open Bracketed

end ExprCalculus

import Mathlib
import ExprCalculus.Proofs.Grammar

/-!
# Texts of both modes

A group with an operand has its symbol in front of the operand or behind it, and no spelling of an
operand begins with a symbol. So a text is of both modes only if no order can be seen in it: it is a
single operand word, or a group of a symbol and nothing else. It then denotes the same expression in
both.
-/

namespace ExprCalculus

/-- The tokens are a single operand word, or the group of a symbol that may do without operands. -/
inductive Orderless : List (List Char) → Prop where
  | number {word : List Char} {value : Double} (h : number? word = some value) : Orderless [word]
  | name (v : Variable) : Orderless [v.name]
  | group {op : Op} (h : op = .mean ∨ op = .var) : Orderless [['('], op.symbol, [')']]

variable {mode : Mode}

/-- The spelling of an expression begins with a token that is no symbol. -/
theorem Spells.exists_cons {e : Expr} {words : List (List Char)} (h : Spells mode e words) :
    ∃ first rest, words = first :: rest ∧ ∀ op : Op, first ≠ op.symbol := by
  cases h with
  | @const word value number =>
    refine ⟨word, [], rfl, ?_⟩
    rintro op rfl
    have leaf := leaf?_of_number number
    rw [leaf?_symbol] at leaf
    cases leaf
  | var v =>
    refine ⟨v.name, [], rfl, fun op same => ?_⟩
    have leaf := leaf?_name v
    rw [same, leaf?_symbol] at leaf
    cases leaf
  | app count operands => exact ⟨['('], _, rfl, fun op => by cases op <;> decide⟩

theorem SpellsAll.exists_cons {es : List Expr} {words : List (List Char)}
    (h : SpellsAll mode es words) : es = [] ∧ words = [] ∨
      ∃ first rest, words = first :: rest ∧ ∀ op : Op, first ≠ op.symbol := by
  cases h with
  | nil => exact .inl ⟨rfl, rfl⟩
  | @cons e es words rest head tail =>
    obtain ⟨first, others, rfl, no_symbol⟩ := head.exists_cons
    exact .inr ⟨first, others ++ rest, rfl, no_symbol⟩

theorem SpellsAll.eq_nil {es : List Expr} (h : SpellsAll mode es []) : es = [] := by
  rcases h.exists_cons with ⟨none, -⟩ | ⟨first, rest, absent, -⟩
  · exact none
  · cases absent

/-- What stands between the brackets of a group has one order only, unless it is a symbol alone. -/
theorem eq_of_order_eq_order {op op' : Op} {fs : List Expr} {words words' : List (List Char)}
    (operands : SpellsAll .post fs words')
    (same : Mode.pre.order op.symbol words = Mode.post.order op'.symbol words') :
    op = op' ∧ words = [] ∧ words' = [] := by
  rcases operands.exists_cons with ⟨-, rfl⟩ | ⟨first, rest, rfl, no_symbol⟩
  · obtain ⟨symbols, rfl⟩ := List.cons.inj same
    exact ⟨Op.symbol_injective symbols, rfl, rfl⟩
  · -- Behind the bracket the one mode has the symbol, and the other the start of an operand.
    obtain ⟨symbol, -⟩ := List.cons.inj same
    exact absurd symbol.symm (no_symbol op)

/-- Only the two aggregates accept an empty list of operands. -/
theorem eq_mean_or_var_of_accepts_zero {op : Op} (h : op.accepts 0 = true) :
    op = .mean ∨ op = .var := by
  cases op <;> simp_all [Op.accepts, Op.arity]

/-- Words that spell in both orders spell the same expression and are orderless. -/
theorem Spells.orderless {e f : Expr} {words : List (List Char)} (he : Spells .pre e words)
    (hf : Spells .post f words) : e = f ∧ Orderless words := by
  cases he with
  | const number => exact ⟨Spells.unique (.const number) hf, .number number⟩
  | var v => exact ⟨Spells.unique (.var v) hf, .name v⟩
  | @app op es inner count operands =>
    generalize same : ['('] :: (Mode.pre.order op.symbol inner ++ [[')']]) = words at hf
    cases hf with
    | const number => simp [Mode.order] at same
    | var v => simp [Mode.order] at same
    | @app op' fs inner' count' operands' =>
      obtain ⟨-, bodies⟩ := List.cons.inj same
      obtain ⟨rfl, rfl, rfl⟩ := eq_of_order_eq_order operands' (List.append_cancel_right bodies)
      obtain rfl := operands.eq_nil
      obtain rfl := operands'.eq_nil
      exact ⟨rfl, .group (eq_mean_or_var_of_accepts_zero count)⟩

/-- Tokens without order spell an expression in every mode. -/
theorem Orderless.exists_spells {words : List (List Char)} (h : Orderless words) :
    ∃ e, ∀ mode, Spells mode e words := by
  cases h with
  | number h => exact ⟨_, fun _ => .const h⟩
  | name v => exact ⟨_, fun _ => .var v⟩
  | @group op h =>
    have count : op.accepts 0 = true := by rcases h with rfl | rfl <;> rfl
    refine ⟨.app op [], fun mode => ?_⟩
    have spelled : Spells mode (.app op []) _ := .app count .nil
    cases mode <;> exact spelled

/-- A text is accepted in both modes exactly when its tokens show no order, and then as the same
expression; every other text is rejected in one of the modes. -/
theorem parseBracketed_pre_and_post_iff (text : List Char) :
    (((∃ e, parseBracketed .pre text = .ok e) ∧ ∃ f, parseBracketed .post text = .ok f) ↔
      Orderless (tokens text)) ∧
    (∀ e f, parseBracketed .pre text = .ok e → parseBracketed .post text = .ok f → e = f) ∧
    (¬ Orderless (tokens text) → ∃ mode r, parseBracketed mode text = .error r) := by
  have both {e f : Expr} (he : parseBracketed .pre text = .ok e)
      (hf : parseBracketed .post text = .ok f) : e = f ∧ Orderless (tokens text) :=
    (spells_of_parseBracketed he).orderless (spells_of_parseBracketed hf)
  refine ⟨⟨?_, fun orderless => ?_⟩, fun e f he hf => (both he hf).1, fun ordered => ?_⟩
  · rintro ⟨⟨e, he⟩, f, hf⟩
    exact (both he hf).2
  · obtain ⟨e, spells⟩ := orderless.exists_spells
    exact ⟨⟨e, parseBracketed_of_spells (spells .pre)⟩,
      e, parseBracketed_of_spells (spells .post)⟩
  · cases he : parseBracketed .pre text with
    | error r => exact ⟨.pre, r, he⟩
    | ok e =>
      cases hf : parseBracketed .post text with
      | error r => exact ⟨.post, r, hf⟩
      | ok f => exact absurd (both he hf).2 ordered

/-- The group of `mean` alone is of both modes, and that of `mean` and `x` is not. -/
theorem parseBracketed_pre_and_post_of_means :
    (∃ e, parseBracketed .pre ['(', ' ', 'm', 'e', 'a', 'n', ')'] = .ok e ∧
      parseBracketed .post ['(', ' ', 'm', 'e', 'a', 'n', ')'] = .ok e) ∧
    ∃ mode r, parseBracketed mode ['(', 'm', 'e', 'a', 'n', ' ', 'x', ')'] = .error r := by
  have alone : lexemes ['(', ' ', 'm', 'e', 'a', 'n', ')'] =
      [⟨['('], 0⟩, ⟨['m', 'e', 'a', 'n'], 2⟩, ⟨[')'], 6⟩] :=
    Cursor.lexemes_eq_cons rfl <| Cursor.lexemes_eq_cons rfl <| Cursor.lexemes_eq_cons rfl <|
      Cursor.lexemes_of_next_none rfl
  have applied : lexemes ['(', 'm', 'e', 'a', 'n', ' ', 'x', ')'] =
      [⟨['('], 0⟩, ⟨['m', 'e', 'a', 'n'], 1⟩, ⟨['x'], 6⟩, ⟨[')'], 7⟩] :=
    Cursor.lexemes_eq_cons rfl <| Cursor.lexemes_eq_cons rfl <| Cursor.lexemes_eq_cons rfl <|
      Cursor.lexemes_eq_cons rfl <| Cursor.lexemes_of_next_none rfl
  constructor
  · obtain ⟨accepted, same, -⟩ :=
      parseBracketed_pre_and_post_iff ['(', ' ', 'm', 'e', 'a', 'n', ')']
    have orderless : Orderless (tokens ['(', ' ', 'm', 'e', 'a', 'n', ')']) := by
      rw [tokens, alone]
      exact .group (.inl rfl)
    obtain ⟨⟨e, he⟩, f, hf⟩ := accepted.mpr orderless
    exact ⟨e, he, same e f he hf ▸ hf⟩
  · refine (parseBracketed_pre_and_post_iff _).2.2 fun orderless => ?_
    rw [tokens, applied] at orderless
    generalize hwords : List.map Excerpt.text _ = words at orderless
    cases orderless <;> simp at hwords

end ExprCalculus

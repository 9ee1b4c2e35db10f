import Mathlib
import ExprCalculus.Expr.Render
import ExprCalculus.Parse.Bracketed
import ExprCalculus.Proofs.Grammar
import ExprCalculus.Proofs.Lexing
import ExprCalculus.Proofs.Literal

/-!
# Bracketed texts are read back

The tokens of the bracketed text of a well-formed expression spell the expression. A literal and a
name are one token each, a space only parts the words of a group, and the brackets stand for
themselves; so the tokens of a group are those of its words in the order of the mode.
-/

namespace ExprCalculus

/-! ## Tokens of texts that are put together -/

theorem tokens_spaced (words : List (List Char)) :
    tokens (spaced words) = words.flatMap tokens :=
  apply_spaced tokens_nil
    (fun w cs => by rw [tokens_append (cutsBetween_cons rfl w cs), tokens_gap rfl]) words

theorem tokens_symbol (op : Op) : tokens op.symbol = [op.symbol] := by
  cases op <;> exact tokens_of_word (List.cons_ne_nil _ _) (List.all_eq_true.mp rfl)

theorem tokens_name (v : Variable) : tokens v.name = [v.name] := by
  cases v <;> exact tokens_of_word (List.cons_ne_nil _ _) (List.all_eq_true.mp rfl)

theorem tokens_literal (value : Double) : tokens value.literal = [value.literal] :=
  tokens_of_word value.literal_ne_nil fun c hc =>
    isWordChar_of_isLiteralChar (value.isLiteralChar_of_mem_literal c hc)

theorem flatMap_tokens_order (mode : Mode) (op : Op) (texts : List (List Char)) :
    (mode.order op.symbol texts).flatMap tokens = mode.order op.symbol (texts.flatMap tokens) := by
  cases mode with
  | pre => simp [Mode.order, tokens_symbol]
  | post => simp [Mode.order, tokens_symbol]

/-! ## Spellings -/

namespace Expr

theorem spellsAll_map_bracketed {mode : Mode} {es : List Expr}
    (each : ∀ e ∈ es, Spells mode e (tokens (e.bracketed mode))) :
    SpellsAll mode es ((es.map (bracketed mode)).flatMap tokens) := by
  induction es with
  | nil => exact .nil
  | cons e es ih =>
    rw [List.map_cons, List.flatMap_cons]
    exact .cons (each e List.mem_cons_self) (ih fun f hf => each f (List.mem_cons_of_mem _ hf))

/-- The bracketed text of a well-formed expression spells it. -/
theorem spells_bracketed (mode : Mode) {e : Expr} (h : e.WellFormed) :
    Spells mode e (tokens (e.bracketed mode)) := by
  induction e with
  | const value =>
    rw [bracketed_const, tokens_literal]
    exact .const value.number?_literal
  | var v =>
    rw [bracketed_var, tokens_name]
    exact .var v
  | app op es ih =>
    obtain ⟨count, each⟩ := wellFormed_app.mp h
    rw [bracketed_app, tokens_group, tokens_spaced, flatMap_tokens_order]
    exact .app count (spellsAll_map_bracketed fun f hf => ih f hf (each f hf))

end Expr

/-- The reader of a mode undoes the bracketed text of that mode. -/
theorem parseBracketed_bracketed (mode : Mode) {e : Expr} (h : e.WellFormed) :
    parseBracketed mode (e.bracketed mode) = .ok e :=
  parseBracketed_of_spells (e.spells_bracketed mode h)

/-- Not-a-number, an infinity, minus zero, the least positive double and a mean of nothing. -/
theorem parseBracketed_bracketed_extremes :
    parseBracketed .post ((Expr.app .var [.const .nan, .const (.infinite true),
          .const (.zero true), .const (.finite false ⟨1, by decide⟩),
          .app .mean []]).bracketed .post) =
      .ok (.app .var [.const .nan, .const (.infinite true), .const (.zero true),
        .const (.finite false ⟨1, by decide⟩), .app .mean []]) := by
  refine parseBracketed_bracketed .post (.app rfl ?_)
  simp only [List.forall_mem_cons]
  exact ⟨.const _, .const _, .const _, .const _, .app rfl nofun, nofun⟩

end ExprCalculus

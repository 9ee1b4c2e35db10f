import Mathlib
import ExprCalculus.Proofs.Grammar
import ExprCalculus.Proofs.Padding
import ExprCalculus.Proofs.StackGrammar

/-!
# Brackets around symbols that stand behind are redundant

A text with the symbols behind their operands keeps its meaning without its brackets, as far as a
stack can read it. The readers of the two kinds of text cut words at different characters: a blank
that is no gap belongs to a word of the one and ends a word of the other. But a word with blanks is
only accepted as a number, and a number word holds a single word without blanks, which is the same
number.
-/

namespace ExprCalculus

/-- The text with a space in place of every bracket. -/
def unbracketed (text : List Char) : List Char := text.map fun c => if isBracket c then ' ' else c

theorem unbracketed_append (a b : List Char) :
    unbracketed (a ++ b) = unbracketed a ++ unbracketed b :=
  List.map_append

theorem unbracketed_cons_of_bracket {c : Char} (h : isBracket c = true) (cs : List Char) :
    unbracketed (c :: cs) = ' ' :: unbracketed cs := by
  rw [unbracketed, List.map_cons, h]
  rfl

theorem unbracketed_cons {c : Char} (h : isBracket c = false) (cs : List Char) :
    unbracketed (c :: cs) = c :: unbracketed cs := by
  rw [unbracketed, List.map_cons, h]
  rfl

/-- A text without brackets stays as it is. -/
theorem unbracketed_eq_self {cs : List Char} (h : ∀ c ∈ cs, isBracket c = false) :
    unbracketed cs = cs := by
  induction cs with
  | nil => rfl
  | cons c cs ih =>
    rw [unbracketed_cons (h c List.mem_cons_self), ih fun d hd => h d (List.mem_cons_of_mem _ hd)]

/-- A character that does not go on a word of a bracketed text is a blank once brackets are. -/
theorem isInk_of_head?_unbracketed {cs : List Char} (h : ∀ c ∈ cs.head?, isWordChar c = false) :
    ∀ c ∈ (unbracketed cs).head?, isInk c = false := by
  cases cs with
  | nil => exact nofun
  | cons d cs =>
    have no_word := h d rfl
    cases bracket : isBracket d with
    | true =>
      rw [unbracketed_cons_of_bracket bracket]
      rintro c ⟨⟩
      rfl
    | false =>
      have gap : isGap d = true := by simpa [isWordChar, bracket] using no_word
      rw [unbracketed_cons bracket]
      rintro c ⟨⟩
      exact isInk_eq_false_iff.mpr (isBlank_of_isPadding (isPadding_of_isGap gap))

/-- A bracket in front separates nothing. -/
theorem words_unbracketed_of_bracket {c : Char} (h : isBracket c = true) (cs : List Char) :
    words (unbracketed (c :: cs)) = words (unbracketed cs) := by
  rw [unbracketed_cons_of_bracket h, words_blank rfl]

/-- Without brackets, the words of a text are the words of its tokens. -/
theorem words_unbracketed (text : List Char) :
    words (unbracketed text) = (tokens text).flatMap fun token => words (unbracketed token) := by
  induction text using lexing_induction with
  | nil => rw [tokens_nil, List.flatMap_nil, unbracketed, List.map_nil, words_nil]
  | gap c cs gap ih =>
    have blank := isBlank_of_isPadding (isPadding_of_isGap gap)
    rw [tokens_gap gap, ← ih, unbracketed_cons (isBracket_of_isGap gap), words_blank blank]
  | bracket c cs gap bracket ih =>
    have alone : words (unbracketed [c]) = [] := by
      rw [words_unbracketed_of_bracket bracket, unbracketed, List.map_nil, words_nil]
    rw [tokens_bracket gap bracket, List.flatMap_cons, alone, List.nil_append, ← ih,
      words_unbracketed_of_bracket bracket]
  | word w cs nonempty hw hcs ih =>
    rw [tokens_word nonempty hw hcs, List.flatMap_cons, ← ih, unbracketed_append,
      words_append (isInk_of_head?_unbracketed hcs)]

/-- The spelling without brackets of what a token list spells with them. -/
def flattened (tokens : List (List Char)) : List (List Char) :=
  tokens.flatMap fun token => words (unbracketed token)

theorem flattened_append (as bs : List (List Char)) :
    flattened (as ++ bs) = flattened as ++ flattened bs :=
  List.flatMap_append

theorem flattened_name (v : Variable) : flattened [v.name] = [v.name] := by
  have plain : unbracketed v.name = v.name := by cases v <;> rfl
  rw [flattened, List.flatMap_singleton, plain, words_name]

theorem flattened_symbol (op : Op) : flattened [op.symbol] = [op.symbol] := by
  have plain : unbracketed op.symbol = op.symbol := by cases op <;> rfl
  rw [flattened, List.flatMap_singleton, plain, words_symbol]

theorem flattened_group (body : List (List Char)) :
    flattened (['('] :: (body ++ [[')']])) = flattened body := by
  have bracket {c : Char} (h : isBracket c = true) : flattened [[c]] = [] := by
    rw [flattened, List.flatMap_singleton, words_unbracketed_of_bracket h, unbracketed,
      List.map_nil, words_nil]
  rw [← List.singleton_append, flattened_append, flattened_append, bracket rfl, bracket rfl,
    List.nil_append, List.append_nil]

/-- What holds of the spelling of each operand holds of the spellings of all. -/
theorem spellsFlatAll_of_spellsAll {es : List Expr}
    (each : ∀ e ∈ es, ∀ {words}, Spells .post e words → SpellsFlat e (flattened words))
    {words : List (List Char)} (h : SpellsAll .post es words) :
    SpellsFlatAll es (flattened words) := by
  induction es generalizing words with
  | nil =>
    cases h
    exact .nil
  | cons e es ih =>
    cases h with
    | cons head tail =>
      rw [flattened_append]
      exact .cons (each e List.mem_cons_self head)
        (ih (fun f hf => each f (List.mem_cons_of_mem _ hf)) tail)

/-- What spells an expression with the symbols behind spells it without brackets. -/
theorem spellsFlat_of_spells {e : Expr} {words : List (List Char)} (h : Spells .post e words) :
    SpellsFlat e (flattened words) := by
  induction e generalizing words with
  | const value =>
    cases h with
    | @const word _ number =>
      obtain ⟨core, word_eq, core_number⟩ := exists_words_of_number? number
      rw [flattened, List.flatMap_singleton, unbracketed_eq_self (isBracket_of_number? number),
        word_eq]
      exact .const core_number
  | var v =>
    cases h
    rw [flattened_name]
    exact .var v
  | app op es ih =>
    cases h with
    | @app _ _ words count operands =>
      rw [flattened_group, Mode.order, flattened_append, flattened_symbol]
      exact .app count (spellsFlatAll_of_spellsAll (fun e he _ spelled => ih e he spelled) operands)

/-- A text that is accepted with the symbols behind is read by a stack, without its brackets, as the
same expression, if its variadic operations stand on the left spine. -/
theorem parseStack_unbracketed {text : List Char} {e : Expr}
    (accepted : parseBracketed .post text = .ok e) (spine : e.VariadicOnLeftSpine) :
    parseStack (unbracketed text) = .ok ⟨e, []⟩ := by
  have spelled : SpellsFlat e (words (unbracketed text)) := by
    rw [words_unbracketed]
    exact spellsFlat_of_spells (spells_of_parseBracketed accepted)
  exact (parseStack_of_spellsFlat spelled).mpr ⟨rfl, spine⟩

/-- A no-break space and a vertical tab around the number of a mean that is a first operand. -/
theorem parseStack_unbracketed_of_padded :
    parseBracketed .post
        ['(', '(', '\u00a0', '1', '\x0b', ' ', 'm', 'e', 'a', 'n', ')', 'x', ' ', '+', ')'] =
      .ok (.app .add [.app .mean [.const (.ofDecimal false ⟨1, 0⟩)], .var .x]) ∧
    parseStack (unbracketed
        ['(', '(', '\u00a0', '1', '\x0b', ' ', 'm', 'e', 'a', 'n', ')', 'x', ' ', '+', ')']) =
      .ok ⟨.app .add [.app .mean [.const (.ofDecimal false ⟨1, 0⟩)], .var .x], []⟩ := by
  have cut : lexemes
      ['(', '(', '\u00a0', '1', '\x0b', ' ', 'm', 'e', 'a', 'n', ')', 'x', ' ', '+', ')'] =
      [⟨['('], 0⟩, ⟨['('], 1⟩, ⟨['\u00a0', '1', '\x0b'], 2⟩, ⟨['m', 'e', 'a', 'n'], 6⟩, ⟨[')'], 10⟩,
        ⟨['x'], 11⟩, ⟨['+'], 13⟩, ⟨[')'], 14⟩] :=
    Cursor.lexemes_eq_cons rfl <| Cursor.lexemes_eq_cons rfl <| Cursor.lexemes_eq_cons rfl <|
      Cursor.lexemes_eq_cons rfl <| Cursor.lexemes_eq_cons rfl <| Cursor.lexemes_eq_cons rfl <|
      Cursor.lexemes_eq_cons rfl <| Cursor.lexemes_eq_cons rfl <| Cursor.lexemes_of_next_none rfl
  have one : number? ['\u00a0', '1', '\x0b'] = some (.ofDecimal false ⟨1, 0⟩) := rfl
  have mean : Spells .post (.app .mean [.const _]) _ := .app rfl (.cons (.const one) .nil)
  have sum : Spells .post (.app .add [_, .var .x]) _ := .app rfl (.cons mean (.cons (.var .x) .nil))
  suffices accepted : parseBracketed .post _ = .ok _ by
    refine ⟨accepted, parseStack_unbracketed accepted ?_⟩
    rw [Expr.variadicOnLeftSpine_app_cons, Expr.variadicOnLeftSpine_app_cons]
    simp [Expr.variadicFree_const, Expr.variadicFree_var, Expr.VariadicFree.onLeftSpine]
  refine parseBracketed_of_spells ?_
  rw [tokens, cut]
  exact sum

end ExprCalculus

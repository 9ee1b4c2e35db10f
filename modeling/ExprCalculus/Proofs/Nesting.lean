import Mathlib
import ExprCalculus.Proofs.Grammar
import ExprCalculus.Proofs.Lexing

/-!
# Brackets of bracketed texts

The brackets of a text, read as steps up and down, are a Dyck word when each closes another. The
brackets between those of a group that spells an expression are one, so the first and the last
bracket of the group belong together.
-/

namespace ExprCalculus

/-- The brackets of a text as steps up and down. -/
def bracketSteps (text : List Char) : List DyckStep :=
  text.filterMap fun c => if c = '(' then some .U else if c = ')' then some .D else none

/-- Every bracket of the text has its counterpart in the text. -/
def Balanced (text : List Char) : Prop := ∃ word : DyckWord, word.toList = bracketSteps text

/-- The text is one group: the bracket that its first character opens is closed by its last one. -/
def IsGroup (text : List Char) : Prop := ∃ body, text = '(' :: (body ++ [')']) ∧ Balanced body

/-! ## Brackets of tokens -/

@[simp] theorem bracketSteps_nil : bracketSteps [] = [] := rfl

theorem bracketSteps_append (a b : List Char) :
    bracketSteps (a ++ b) = bracketSteps a ++ bracketSteps b :=
  List.filterMap_append

theorem bracketSteps_eq_nil {cs : List Char} (h : ∀ c ∈ cs, isBracket c = false) :
    bracketSteps cs = [] := by
  refine List.filterMap_eq_nil_iff.mpr fun c hc => ?_
  have none := isBracket_eq_false_iff.mp (h c hc)
  rw [if_neg none.1, if_neg none.2]

/-- A word has no steps: no bracket is a word character. -/
theorem bracketSteps_of_word {w : List Char} (h : ∀ c ∈ w, isWordChar c = true) :
    bracketSteps w = [] := by
  refine bracketSteps_eq_nil fun c hc => ?_
  have word := h c hc
  simp only [isWordChar, Bool.and_eq_true, Bool.not_eq_true'] at word
  exact word.2

/-- The brackets of a text are those of its tokens. -/
theorem bracketSteps_eq_flatMap_tokens (text : List Char) :
    bracketSteps text = (tokens text).flatMap bracketSteps := by
  induction text using lexing_induction with
  | nil => rw [tokens_nil, bracketSteps_nil, List.flatMap_nil]
  | gap c cs gap ih =>
    have none : bracketSteps [c] = [] := by
      refine bracketSteps_eq_nil fun d hd => ?_
      obtain rfl := List.mem_singleton.mp hd
      exact isBracket_of_isGap gap
    rw [← List.singleton_append, bracketSteps_append, none, List.singleton_append,
      tokens_gap gap, ih, List.nil_append]
  | bracket c cs gap bracket ih =>
    rw [tokens_bracket gap bracket, List.flatMap_cons, ← ih, ← bracketSteps_append,
      List.singleton_append]
  | word w cs nonempty hw hcs ih =>
    rw [tokens_word nonempty hw hcs, List.flatMap_cons, ← ih, bracketSteps_append]

/-- A token is a bracket alone or has none. -/
theorem bracketSteps_of_mem_tokens {text w : List Char} (h : w ∈ tokens text) :
    w = ['('] ∨ w = [')'] ∨ bracketSteps w = [] := by
  obtain ⟨l, hl, rfl⟩ := List.mem_map.mp h
  rcases bracket_or_word_of_mem_lexemesFrom hl with ⟨c, bracket, text_eq⟩ | ⟨-, word⟩
  · rcases isBracket_eq_true_iff.mp bracket with rfl | rfl
    · exact .inl text_eq
    · exact .inr (.inl text_eq)
  · exact .inr (.inr (bracketSteps_of_word word))

/-! ## Brackets of spellings -/

variable {mode : Mode}

/-- The brackets of the spellings of an expression are a Dyck word. -/
def Nests (mode : Mode) (e : Expr) : Prop :=
  ∀ {words : List (List Char)}, Spells mode e words →
    (∀ w ∈ words, w = ['('] ∨ w = [')'] ∨ bracketSteps w = []) →
    ∃ nested : DyckWord, nested.toList = words.flatMap bracketSteps

/-- The brackets of operands that nest make one Dyck word, in their order. -/
theorem exists_dyckWord_of_spellsAll {es : List Expr} (each : ∀ e ∈ es, Nests mode e)
    {words : List (List Char)} (h : SpellsAll mode es words)
    (tokens : ∀ w ∈ words, w = ['('] ∨ w = [')'] ∨ bracketSteps w = []) :
    ∃ nested : DyckWord, nested.toList = words.flatMap bracketSteps := by
  induction es generalizing words with
  | nil =>
    cases h
    exact ⟨0, rfl⟩
  | cons e es ih =>
    cases h with
    | @cons _ _ words rest head tail =>
      obtain ⟨p, hp⟩ := each e List.mem_cons_self head fun w hw =>
        tokens w (List.mem_append_left _ hw)
      obtain ⟨q, hq⟩ := ih (fun f hf => each f (List.mem_cons_of_mem _ hf)) tail fun w hw =>
        tokens w (List.mem_append_right _ hw)
      refine ⟨p + q, ?_⟩
      rw [List.flatMap_append, ← hp, ← hq]
      rfl

theorem flatMap_bracketSteps_order (mode : Mode) (op : Op) (words : List (List Char)) :
    (mode.order op.symbol words).flatMap bracketSteps = words.flatMap bracketSteps := by
  have symbol : bracketSteps op.symbol = [] := by cases op <;> rfl
  cases mode with
  | pre => simp [Mode.order, symbol]
  | post => simp [Mode.order, symbol]

theorem mem_order {mode : Mode} {symbol w : List Char} {words : List (List Char)} (h : w ∈ words) :
    w ∈ mode.order symbol words := by
  cases mode with
  | pre => exact List.mem_cons_of_mem _ h
  | post => exact List.mem_append_left _ h

/-- The brackets of every spelling of an expression nest. -/
theorem nests (e : Expr) : Nests mode e := by
  induction e with
  | const value =>
    intro words h tokens
    cases h with
    | @const word _ number =>
      refine ⟨0, ?_⟩
      rcases tokens word List.mem_cons_self with rfl | rfl | none
      · cases number
      · cases number
      · rw [List.flatMap_singleton, none]
        rfl
  | var v =>
    intro words h tokens
    cases h
    exact ⟨0, by cases v <;> rfl⟩
  | app op es ih =>
    intro words h tokens
    cases h with
    | @app _ _ words count operands =>
      obtain ⟨inner, hinner⟩ := exists_dyckWord_of_spellsAll ih operands fun w hw =>
        tokens w (by simp [mem_order hw])
      refine ⟨inner.nest, ?_⟩
      have steps : inner.nest.toList = [.U] ++ inner.toList ++ [.D] := rfl
      rw [steps, hinner, ← flatMap_bracketSteps_order mode op, List.flatMap_cons,
        List.flatMap_append]
      simp [bracketSteps]

/-- What stands between the brackets of a group is balanced. -/
theorem balanced_of_spellsAll {body : List Char} {op : Op} {es : List Expr}
    {words : List (List Char)} (h : SpellsAll mode es words)
    (tokens_eq : tokens body = mode.order op.symbol words) : Balanced body := by
  have mem {w : List Char} (hw : w ∈ words) : w ∈ tokens body := tokens_eq ▸ mem_order hw
  obtain ⟨nested, hnested⟩ := exists_dyckWord_of_spellsAll (fun e _ => nests e) h fun w hw =>
    bracketSteps_of_mem_tokens (mem hw)
  refine ⟨nested, ?_⟩
  rw [hnested, bracketSteps_eq_flatMap_tokens, tokens_eq, flatMap_bracketSteps_order]

/-! ## Groups in a text -/

/-- The lexemes of a text from an opening bracket to a closing one are a piece of the text between
two brackets. -/
theorem exists_cut_of_group {text : List Char} {before body after : List Excerpt}
    {opening closing : Excerpt} (h : lexemes text = before ++ opening :: (body ++ closing :: after))
    (hopening : opening.text = ['(']) (hclosing : closing.text = [')']) :
    ∃ a inner b, text = a ++ ('(' :: (inner ++ [')']) ++ b) ∧ a.length = opening.start ∧
      closing.stop = opening.start + (inner.length + 2) ∧
      tokens inner = body.map Excerpt.text := by
  obtain ⟨a, rest, rfl, start_eq, -, inside⟩ := exists_cut_of_lexemesFrom h
  obtain ⟨inner, b, rfl, closing_eq, body_eq, -⟩ := exists_cut_of_lexemesFrom inside
  have stop_eq : opening.stop = opening.start + 1 := by rw [Excerpt.stop, hopening]; rfl
  refine ⟨a, inner, b, ?_, by rw [start_eq, Nat.zero_add], ?_, ?_⟩
  · rw [hopening, hclosing]
    simp
  · rw [Excerpt.stop, hclosing, closing_eq, stop_eq, List.length_singleton]
    omega
  · rw [← body_eq, map_text_lexemesFrom]

/-- The excerpt from the start of the one bracket to the end of the other is that piece. -/
theorem exists_between_of_group {text : List Char} {before body after : List Excerpt}
    {opening closing : Excerpt} (h : lexemes text = before ++ opening :: (body ++ closing :: after))
    (hopening : opening.text = ['(']) (hclosing : closing.text = [')']) :
    ∃ inner, Excerpt.between text opening.start closing.stop =
        ⟨'(' :: (inner ++ [')']), opening.start⟩ ∧
      (Excerpt.between text opening.start closing.stop).StandsIn text ∧
      tokens inner = body.map Excerpt.text := by
  obtain ⟨a, inner, b, text_eq, start_eq, stop_eq, inner_eq⟩ :=
    exists_cut_of_group h hopening hclosing
  have length : ('(' :: (inner ++ [')'])).length = inner.length + 2 := by simp
  have piece : Excerpt.between text opening.start closing.stop =
      ⟨'(' :: (inner ++ [')']), opening.start⟩ := by
    rw [stop_eq, ← start_eq, ← length, text_eq, Excerpt.between_append]
  refine ⟨inner, piece, ?_, inner_eq⟩
  rw [piece]
  exact ⟨a, b, text_eq, start_eq⟩

end ExprCalculus

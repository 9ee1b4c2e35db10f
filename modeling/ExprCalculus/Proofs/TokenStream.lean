import ExprCalculus.Journal
import ExprCalculus.Proofs.Construction

/-!
# The stack holds what has been read

A word that is taken against a stack pushes a leaf, or puts an operation on expressions that lie on
top. In both cases the words that spell the stack from the bottom to the top are the words before,
and then this one. So after any number of words the stack spells exactly the words that were taken:
none of them is lost, none is there twice, and none has changed places.

The flat text of an expression is made of the words that spell it, except that a number may be
spelled in many ways and is written in one. This is the canonical word.
-/

namespace ExprCalculus

/-! ## One word -/

/-- What one word makes of a stack. -/
inductive Pushed : List Expr → List Char → List Expr → Prop where
  | var (v : Variable) (stack : List Expr) : Pushed stack v.name (.var v :: stack)
  | const {word : List Char} {value : Double} (number : number? word = some value)
      (stack : List Expr) : Pushed stack word (.const value :: stack)
  | app {op : Op} {operands below : List Expr} (count : op.accepts operands.length = true)
      (whole : op.isVariadic = true → below = []) :
      Pushed (operands.reverse ++ below) op.symbol (.app op operands :: below)

/-- An operation takes its operands from the top of the stack. -/
theorem pushed_of_applyToStack {op : Op} {stack after : List Expr}
    (h : applyToStack op stack = .ok after) : Pushed stack op.symbol after := by
  have found := h
  simp only [applyToStack] at h
  split at h
  · rename_i enough
    have count := Op.accepts_taken enough
    cases h
    obtain ⟨stack_eq, whole⟩ := (applyToStack_eq_ok_iff count).mp found
    have pushed := Pushed.app count whole
    rwa [← stack_eq] at pushed
  · cases h

/-- Pushing a word succeeds exactly in the three ways of the relation. -/
theorem pushWord_eq_ok_iff {stack after : List Expr} {word : List Char} :
    pushWord stack word = .ok after ↔ Pushed stack word after := by
  constructor
  · intro h
    unfold pushWord at h
    split at h
    · rename_i v name
      cases h
      rw [Variable.ofName?_eq_some_iff.mp name]
      exact .var v stack
    · rename_i op _ symbol
      rw [Op.ofSymbol?_eq_some_iff.mp symbol]
      exact pushed_of_applyToStack h
    · rename_i value _ _ number
      cases h
      exact .const number stack
    · cases h
  · intro h
    cases h with
    | var v => exact pushWord_name stack v
    | const number => exact pushWord_number number stack
    | @app op operands below count whole =>
      rw [pushWord_symbol]
      exact (applyToStack_eq_ok_iff count).mpr ⟨rfl, whole⟩

/-! ## Spellings of a stack -/

theorem SpellsFlatAll.append {es fs : List Expr} {ws vs : List (List Char)}
    (h : SpellsFlatAll es ws) (h' : SpellsFlatAll fs vs) : SpellsFlatAll (es ++ fs) (ws ++ vs) := by
  induction es generalizing ws with
  | nil =>
    cases h
    exact h'
  | cons e es ih =>
    cases h with
    | cons head tail =>
      rw [List.append_assoc]
      exact .cons head (ih tail)

/-- A spelling of expressions one after another may be cut between any two of them. -/
theorem SpellsFlatAll.exists_cut {es fs : List Expr} {words : List (List Char)}
    (h : SpellsFlatAll (es ++ fs) words) :
    ∃ ws vs, words = ws ++ vs ∧ SpellsFlatAll es ws ∧ SpellsFlatAll fs vs := by
  induction es generalizing words with
  | nil => exact ⟨[], words, rfl, .nil, h⟩
  | cons e es ih =>
    cases h with
    | @cons _ _ first rest head tail =>
      obtain ⟨ws, vs, rfl, operands, others⟩ := ih tail
      exact ⟨first ++ ws, vs, (List.append_assoc ..).symm, .cons head operands, others⟩

theorem SpellsFlatAll.concat {es : List Expr} {e : Expr} {ws vs : List (List Char)}
    (h : SpellsFlatAll es ws) (last : SpellsFlat e vs) : SpellsFlatAll (es ++ [e]) (ws ++ vs) := by
  have single := SpellsFlatAll.cons last .nil
  rw [List.append_nil] at single
  exact h.append single

/-- From the bottom to the top the stack spells the words before and then this one. -/
theorem Pushed.spells {stack after : List Expr} {word : List Char} (h : Pushed stack word after)
    {ws : List (List Char)} (before : SpellsFlatAll stack.reverse ws) :
    SpellsFlatAll after.reverse (ws ++ [word]) := by
  cases h with
  | var v =>
    rw [List.reverse_cons]
    exact before.concat (.var v)
  | const number =>
    rw [List.reverse_cons]
    exact before.concat (.const number)
  | @app op operands below count whole =>
    rw [List.reverse_append, List.reverse_reverse] at before
    obtain ⟨us, vs, rfl, lower, upper⟩ := before.exists_cut
    rw [List.reverse_cons, List.append_assoc]
    exact lower.concat (.app count upper)

/-- After any words, the stack spells the words that were there before and then these. -/
theorem spellsFlatAll_of_pushWords {stack after : List Expr} {words ws : List (List Char)}
    (h : pushWords stack words = .ok after) (before : SpellsFlatAll stack.reverse ws) :
    SpellsFlatAll after.reverse (ws ++ words) := by
  induction words generalizing stack ws with
  | nil =>
    cases h
    rwa [List.append_nil]
  | cons word words ih =>
    rw [pushWords, List.foldlM_cons] at h
    obtain ⟨middle, first, rest⟩ := exists_ok_of_bind_eq_ok h
    have step := (pushWord_eq_ok_iff.mp first).spells before
    have run := ih rest step
    rwa [List.append_assoc] at run

/-! ## Canonical words -/

/-- The word that is written for a word: for a number its literal, and any other word is written as
it stands. -/
def canonicalWord (word : List Char) : List Char :=
  match number? word with
  | some value => value.literal
  | none => word

theorem canonicalWord_number {word : List Char} {value : Double} (h : number? word = some value) :
    canonicalWord word = value.literal := by
  rw [canonicalWord, h]

theorem canonicalWord_name (v : Variable) : canonicalWord v.name = v.name := by
  rw [canonicalWord, number?_name]

theorem canonicalWord_symbol (op : Op) : canonicalWord op.symbol = op.symbol := by
  rw [canonicalWord, number?_symbol]

theorem spaced_singleton (word : List Char) : spaced [word] = word := List.intercalate_singleton

theorem spaced_append {as bs : List (List Char)} (ha : as ≠ []) (hb : bs ≠ []) :
    spaced (as ++ bs) = spaced as ++ ' ' :: spaced bs := by
  induction as with
  | nil => exact absurd rfl ha
  | cons a as ih =>
    cases as with
    | nil =>
      obtain ⟨b, bs, rfl⟩ := List.exists_cons_of_ne_nil hb
      rw [spaced_singleton, List.singleton_append, spaced, List.intercalate_cons_cons,
        List.append_assoc, List.singleton_append, ← spaced]
    | cons a' as =>
      have rest : spaced (a' :: (as ++ bs)) = _ := ih (List.cons_ne_nil a' as)
      simp only [spaced, List.cons_append, List.intercalate_cons_cons] at rest ⊢
      rw [rest, List.append_assoc, List.append_assoc, List.append_assoc]

theorem SpellsFlat.ne_nil {e : Expr} {ws : List (List Char)} (h : SpellsFlat e ws) : ws ≠ [] := by
  cases h <;> simp

theorem SpellsFlatAll.eq_nil_iff {es : List Expr} {ws : List (List Char)}
    (h : SpellsFlatAll es ws) : es = [] ↔ ws = [] := by
  cases h with
  | nil => simp
  | cons head tail => simp [head.ne_nil]

/-- What is written for expressions one after another is what is written for the words that spell
them. -/
theorem SpellsFlatAll.spaced_flat {es : List Expr} {ws : List (List Char)}
    (each : ∀ e ∈ es, ∀ vs, SpellsFlat e vs → e.flat = spaced (vs.map canonicalWord))
    (h : SpellsFlatAll es ws) : spaced (es.map Expr.flat) = spaced (ws.map canonicalWord) := by
  induction es generalizing ws with
  | nil =>
    cases h
    rfl
  | cons e es ih =>
    cases h with
    | @cons _ _ vs rest head tail =>
      have first := each e List.mem_cons_self vs head
      have others := ih (fun f hf => each f (List.mem_cons_of_mem _ hf)) tail
      rw [List.map_cons, List.map_append]
      by_cases last : es = []
      · rw [last, tail.eq_nil_iff.mp last, List.map_nil, List.map_nil, List.append_nil,
          spaced_singleton, first]
      · have rest_ne : rest ≠ [] := tail.eq_nil_iff.not.mp last
        have front : spaced (e.flat :: es.map Expr.flat) = _ :=
          spaced_append (List.cons_ne_nil e.flat []) (by simpa using last)
        rw [front, spaced_append (by simpa using head.ne_nil) (by simpa using rest_ne), others,
          spaced_singleton, first]

/-- The flat text of an expression is written in the canonical words of those that spell it. -/
theorem SpellsFlat.flat_eq {e : Expr} {ws : List (List Char)} (h : SpellsFlat e ws) :
    e.flat = spaced (ws.map canonicalWord) := by
  induction e generalizing ws with
  | const value =>
    cases h with
    | const number =>
      rw [List.map_singleton, canonicalWord_number number, spaced_singleton, Expr.flat_const]
  | var v =>
    cases h
    rw [List.map_singleton, canonicalWord_name, spaced_singleton, Expr.flat_var]
  | app op es ih =>
    cases h with
    | @app _ _ words count operands =>
      have inner := operands.spaced_flat fun e he vs hvs => ih e he hvs
      rw [Expr.flat_app, List.map_append, List.map_singleton, canonicalWord_symbol]
      by_cases none : es = []
      · rw [none, operands.eq_nil_iff.mp none]
        rfl
      · have words_ne : words ≠ [] := operands.eq_nil_iff.not.mp none
        rw [spaced_append (by simpa using none) (by simp),
          spaced_append (by simpa using words_ne) (by simp), inner]

/-- The texts of operands are their words in canonical form, with single spaces. -/
theorem spaced_flat_of_spellsFlatAll {es : List Expr} {ws : List (List Char)}
    (h : SpellsFlatAll es ws) : spaced (es.map Expr.flat) = spaced (ws.map canonicalWord) :=
  h.spaced_flat fun _ _ _ hvs => hvs.flat_eq

/-! ## Whole texts -/

/-- Words without blanks, with a space between them, are the words of their text. -/
theorem words_of_spaced {text : List Char} {ws : List (List Char)} (spaced_eq : text = spaced ws)
    (h : ws.all (fun w => !w.isEmpty && w.all isInk) = true) : words text = ws := by
  rw [spaced_eq, words_spaced]
  clear spaced_eq
  induction ws with
  | nil => rfl
  | cons w ws ih =>
    rw [List.all_cons, Bool.and_eq_true, Bool.and_eq_true, List.all_eq_true] at h
    obtain ⟨⟨nonempty, ink⟩, others⟩ := h
    rw [List.flatMap_cons, words_of_word (by simpa using nonempty) ink, ih others,
      List.singleton_append]

/-- The words of a text as they are written. -/
def canonicalWords (text : List Char) : List (List Char) := (words text).map canonicalWord

/-- What is on the stack after the first words of a text is written, from the bottom to the top, in
their canonical words. So the expression that a text is read as is written in the last canonical
words of the text, in all of them if nothing is left below it, and otherwise what is left is written
in those before, and a warning tells how many expressions that are. -/
theorem stack_written_in_canonical_words (text : List Char) :
    (∀ count stack, pushWords [] ((words text).take count) = .ok stack →
      spaced (stack.reverse.map Expr.flat) = spaced ((canonicalWords text).take count)) ∧
    (∀ result, parseStack text = .ok result →
      ∃ rest own, canonicalWords text = rest ++ own ∧ result.expr.flat = spaced own ∧
        spaced (result.unused.reverse.map Expr.flat) = spaced rest ∧
        (result.unused = [] ↔ rest = []) ∧
        (stackNotes text (parseStack text)).filter (fun note => note.severity = .warning) =
          if result.unused = [] then [] else
            [.warning ("Postfix parse of ".toList ++ inQuotes text ++ " left ".toList ++
              Nat.toDigits 10 result.unused.length ++
              " unused operand(s) on the stack".toList)]) := by
  constructor
  · intro count stack h
    have spelled := spellsFlatAll_of_pushWords h .nil
    rw [canonicalWords, ← List.map_take]
    exact spaced_flat_of_spellsFlatAll spelled
  · rintro ⟨e, unused⟩ h
    have spelled := spellsFlatAll_of_pushWords (parseStack_eq_ok_iff.mp h) .nil
    rw [List.reverse_cons, List.nil_append] at spelled
    obtain ⟨rest, own, words_eq, lower, upper⟩ := spelled.exists_cut
    have top := spaced_flat_of_spellsFlatAll upper
    rw [List.map_singleton, spaced_singleton] at top
    refine ⟨rest.map canonicalWord, own.map canonicalWord, ?_, top,
      spaced_flat_of_spellsFlatAll lower, ?_, ?_⟩
    · rw [canonicalWords, words_eq, List.map_append]
    · rw [List.map_eq_nil_iff, ← lower.eq_nil_iff, List.reverse_eq_nil_iff]
    · rw [h]
      by_cases none : unused = []
      · simp [stackNotes, none, Note.info, Note.debug]
      · simp [stackNotes, none, Note.info, Note.debug, Note.warning]

/-- A sum with seven spelled in an unusual way, and a variable that is read last. -/
theorem stack_written_of_sum_below_variable :
    let text := ['x', ' ', '0', '0', '.', '7', '0', 'e', '1', ' ', '+', ' ', 'y']
    let sum : Expr := .app .add [.var .x, .const (.ofDecimal false ⟨70, -1⟩)]
    pushWords [] ((words text).take 3) = .ok [sum] ∧
      spaced ([sum].reverse.map Expr.flat) = spaced ((canonicalWords text).take 3) ∧
      parseStack text = .ok ⟨.var .y, [sum]⟩ ∧
      canonicalWords text = [['x'], ['7'], ['+'], ['y']] ∧
      ∃ rest own, canonicalWords text = rest ++ own ∧ (Expr.var .y).flat = spaced own ∧
        spaced ([sum].reverse.map Expr.flat) = spaced rest := by
  intro text sum
  have cut : words text = [['x'], ['0', '0', '.', '7', '0', 'e', '1'], ['+'], ['y']] :=
    words_of_spaced rfl rfl
  have first : pushWords [] ((words text).take 3) = .ok [sum] := by
    rw [cut]
    rfl
  have read : parseStack text = .ok ⟨.var .y, [sum]⟩ := by
    rw [parseStack_eq_ok_iff, cut]
    rfl
  have canonical : canonicalWords text = [['x'], ['7'], ['+'], ['y']] := by
    rw [canonicalWords, cut]
    decide +kernel
  have written := stack_written_in_canonical_words text
  obtain ⟨rest, own, split, top, below, -⟩ := written.2 _ read
  exact ⟨first, written.1 3 _ first, read, canonical, rest, own, split, top, below⟩

end ExprCalculus

import Mathlib
import ExprCalculus.Proofs.Grammar

/-!
# Where the reader stops

A text is rejected at one lexeme, by a group or outside all groups, or at its end. `Stops` lists
these ways, each with what has been read before: what is refused, the group that refuses it, and the
lexemes that both have been read from. All that is said of rejections is proved from this list.
-/

namespace ExprCalculus

variable {mode : Mode} {text : List Char}

/-- An operation refuses its operands only for their number. -/
theorem Expr.build_eq_error {op : Op} {es : List Expr} {mismatch : Expr.CountMismatch}
    (h : Expr.build op es = .error mismatch) :
    ∃ expected, op.arity = some expected ∧ expected ≠ es.length ∧
      mismatch = ⟨op, expected, es.length⟩ := by
  unfold Expr.build at h
  split at h
  · cases h
  · rename_i expected arity
    split at h
    · cases h
    · rename_i differ
      exact ⟨expected, arity, differ, (Except.error.inj h).symm⟩

namespace Bracketed

/-! ## What a group refuses -/

/-- An element is refused if the first one is no symbol where the symbol stands in front, or if a
word that is no operand does not stand in the place of the symbol. -/
theorem Group.place_eq_error {group : Group} {element : Element} {r : Rejection}
    (h : group.place mode element = .error r) :
    (mode = .pre ∧ group.word = none ∧ (∀ l, element = .word l → isSymbol l = false) ∧
      r = .notAnOperation element.source) ∨
    ∃ l, r = .misplacedWord l ∧
      (mode = .pre ∧ group.word.isSome ∧ element = .word l ∨
        mode = .post ∧ group.word = some l) := by
  cases hw : group.word with
  | none =>
    cases mode with
    | pre =>
      cases element with
      | word l =>
        by_cases symbol : isSymbol l = true
        · simp [Group.place, hw, symbol] at h
        · simp only [Group.place, hw, symbol, Bool.false_eq_true, if_false, Except.error.injEq] at h
          refine .inl ⟨rfl, rfl, ?_, h.symm⟩
          rintro m ⟨⟩
          exact Bool.eq_false_of_not_eq_true symbol
      | operand e source =>
        simp only [Group.place, hw, Except.error.injEq] at h
        refine .inl ⟨rfl, rfl, ?_, h.symm⟩
        intro m same
        cases same
    | post => cases element <;> simp [Group.place, hw] at h
  | some word =>
    cases mode with
    | pre =>
      cases element with
      | word l =>
        simp only [Group.place, hw, Except.error.injEq] at h
        exact .inr ⟨l, h.symm, .inl ⟨rfl, rfl, rfl⟩⟩
      | operand e source => simp [Group.place, hw] at h
    | post =>
      simp only [Group.place, hw, Except.error.injEq] at h
      exact .inr ⟨word, h.symm, .inr ⟨rfl, rfl⟩⟩

/-- The last element of a group is its last operand, or the closing bracket if there is none. -/
theorem Group.lastElement_eq (group : Group) (closing : Excerpt) :
    group.operands = [] ∧ group.lastElement closing = closing ∨
      ∃ front e source, group.operands = front ++ [(e, source)] ∧
        group.lastElement closing = source := by
  unfold Group.lastElement
  split
  · rename_i e source last
    obtain ⟨front, front_eq⟩ := List.getLast?_eq_some_iff.mp last
    exact .inr ⟨front, e, source, front_eq, rfl⟩
  · rename_i none
    exact .inl ⟨List.getLast?_eq_none_iff.mp none, rfl⟩

/-- A group is refused at its closing bracket if it has no word or one that is no symbol, or if the
operation takes another number of operands. -/
theorem Group.close_eq_error {group : Group} {closing : Excerpt} {r : Rejection}
    (h : group.close mode closing = .error r) :
    (group.word = none ∧ r = .notAnOperation (group.lastElement closing)) ∨
    ∃ word, group.word = some word ∧
      (Op.ofSymbol? word.text = none ∧ r = .notAnOperation word ∨
      ∃ (op : Op) (expected : Nat), word.text = op.symbol ∧ op.arity = some expected ∧
        expected ≠ group.operands.length ∧
        r = .operandCount word.text (group.countOffset mode word) expected
          group.operands.length) := by
  unfold Group.close at h
  split at h
  · rename_i free
    exact .inl ⟨free, (Except.error.inj h).symm⟩
  · rename_i word hword
    refine .inr ⟨word, hword, ?_⟩
    split at h
    · rename_i no_symbol
      exact .inl ⟨no_symbol, (Except.error.inj h).symm⟩
    · rename_i op hop
      split at h
      · cases h
      · rename_i mismatch built
        obtain ⟨expected, arity, differ, rfl⟩ := Expr.build_eq_error built
        rw [List.length_map] at differ h
        exact .inr ⟨op, expected, Op.ofSymbol?_eq_some_iff.mp hop, arity, differ,
          (Except.error.inj h).symm⟩

theorem State.placed_eq_error {group : Group} {outer : List Group} {element : Element}
    {r : Rejection} (h : State.placed mode group outer element = .error r) :
    group.place mode element = .error r := by
  unfold State.placed at h
  cases hp : group.place mode element with
  | error r' =>
    rw [hp] at h
    exact congrArg Except.error (Except.error.inj h)
  | ok after =>
    rw [hp] at h
    cases h

/-! ## What the reader refuses -/

/-- The reader stops with a rejection. -/
inductive Stops (mode : Mode) (text : List Char) : Rejection → Prop where
  /-- The text begins with a lexeme that begins no expression. -/
  | first {l : Excerpt} {after : List Excerpt} (hl : lexemes text = l :: after)
      (opening : l.text ≠ ['(']) (raw : leaf? l.text = none) : Stops mode text (.strayToken l)
  /-- A lexeme follows the expression. -/
  | behind {l : Excerpt} {before after : List Excerpt} {e : Expr}
      (hl : lexemes text = before ++ l :: after)
      (spelled : Spells mode e (before.map Excerpt.text)) : Stops mode text (.trailing l)
  /-- A group refuses its next element. -/
  | place {group : Group} {element : Element} {before ls els after : List Excerpt} {r : Rejection}
      (hl : lexemes text = before ++ (ls ++ (els ++ after))) (inner : group.ReadFrom mode text ls)
      (next : element.ReadFrom mode text els) (error : group.place mode element = .error r) :
      Stops mode text r
  /-- A group refuses its closing bracket. -/
  | close {group : Group} {closing : Excerpt} {before ls after : List Excerpt} {r : Rejection}
      (hl : lexemes text = before ++ (ls ++ closing :: after)) (hclosing : closing.text = [')'])
      (inner : group.ReadFrom mode text ls) (error : group.close mode closing = .error r) :
      Stops mode text r
  /-- The text has no lexemes. -/
  | nothing (hl : lexemes text = []) : Stops mode text (.endOfText text.length .expression)
  /-- The text ends in a group. -/
  | unclosed {group : Group} {outer : List Group}
      (groups : GroupsReadFrom mode text (group :: outer) (lexemes text)) :
      Stops mode text (.endOfText text.length .closing)

/-- A rejection at a closing bracket stops where the text shows it. -/
theorem stops_of_closing_error {group : Group} {outer : List Group} {read after : List Excerpt}
    {l : Excerpt} {r : Rejection} (h : GroupsReadFrom mode text (group :: outer) read)
    (hl : lexemes text = read ++ l :: after) (closing : l.text = [')'])
    (error : step mode text (.within group outer) l = .error r) : Stops mode text r := by
  have opening : l.text ≠ ['('] := by rw [closing]; decide
  simp only [step, if_neg opening, if_pos closing] at error
  cases h with
  | @cons _ _ before ls around inner =>
    rw [List.append_assoc] at hl
    cases hc : group.close mode l with
    | error r' =>
      rw [hc] at error
      obtain rfl := Except.error.inj error
      exact .close hl closing inner hc
    | ok e =>
      rw [hc] at error
      cases around with
      | nil => cases error
      | @cons enclosing outer before gls around outside =>
        have place : lexemes text = before ++ (gls ++ ((ls ++ [l]) ++ after)) := by
          rw [hl]
          simp
        exact .place place outside (inner.operand closing hc) (State.placed_eq_error error)

/-- A rejection by one step stops where the text shows it. -/
theorem stops_of_step_error {state : State} {read after : List Excerpt} {l : Excerpt}
    {r : Rejection} (h : state.ReadFrom mode text read) (hl : lexemes text = read ++ l :: after)
    (error : step mode text state l = .error r) : Stops mode text r := by
  cases h with
  | start =>
    by_cases opening : l.text = ['(']
    · simp [step, opening] at error
    · cases leaf : leaf? l.text with
      | some e => simp [step, opening, leaf] at error
      | none =>
        simp only [step, opening, leaf, if_false, Except.error.injEq] at error
        exact error ▸ .first hl opening leaf
  | finished spelled =>
    obtain rfl := Except.error.inj error
    exact .behind hl spelled
  | @within group outer read groups =>
    by_cases opening : l.text = ['(']
    · simp [step, opening] at error
    by_cases closing : l.text = [')']
    · exact stops_of_closing_error groups hl closing error
    · rw [step_element opening closing] at error
      cases groups with
      | @cons _ _ before ls around inner =>
        have stands : l.StandsIn text := standsIn_of_mem_lexemes (by simp [hl])
        have place : lexemes text = before ++ (ls ++ ([l] ++ after)) := by
          rw [hl]
          simp
        exact .place place inner (.ofLexeme stands opening closing) (State.placed_eq_error error)

/-- A run that is rejected is rejected by one of its steps, after a run that was not. -/
theorem exists_step_of_run_error {state : State} {ls : List Excerpt} {r : Rejection}
    (h : run mode text state ls = .error r) :
    ∃ read l rest reached, ls = read ++ l :: rest ∧ run mode text state read = .ok reached ∧
      step mode text reached l = .error r := by
  induction ls generalizing state with
  | nil => cases h
  | cons l ls ih =>
    cases hs : step mode text state l with
    | error r' =>
      rw [run_cons, hs] at h
      obtain rfl := Except.error.inj h
      exact ⟨[], l, ls, state, rfl, rfl, hs⟩
    | ok next =>
      rw [run_cons_of_step hs] at h
      obtain ⟨read, m, rest, reached, rfl, ok, error⟩ := ih h
      exact ⟨l :: read, m, rest, reached, rfl, by rw [run_cons_of_step hs, ok], error⟩

end Bracketed

open Bracketed

/-- A rejected text is one at which the reader stops. -/
theorem stops_of_parseBracketed {r : Rejection} (h : parseBracketed mode text = .error r) :
    Stops mode text r := by
  rw [parseBracketed_eq] at h
  have stands : ∀ l ∈ lexemes text, l.StandsIn text := fun l hl => standsIn_of_mem_lexemes hl
  cases hr : run mode text .start (lexemes text) with
  | error r' =>
    rw [hr] at h
    obtain rfl := Except.error.inj h
    obtain ⟨read, l, after, reached, hl, ok, error⟩ := exists_step_of_run_error hr
    have before : ∀ m ∈ read, m.StandsIn text := fun m hm => stands m (by simp [hl, hm])
    exact stops_of_step_error (State.ReadFrom.start.run before ok) hl error
  | ok state =>
    have read := State.ReadFrom.start.run stands hr
    rw [hr] at h
    rw [List.nil_append] at read
    generalize hl : lexemes text = ls at read
    cases read with
    | start =>
      obtain rfl := Except.error.inj h
      exact .nothing hl
    | within groups =>
      obtain rfl := Except.error.inj h
      exact .unclosed (hl ▸ groups)
    | finished spelled => cases h

end ExprCalculus

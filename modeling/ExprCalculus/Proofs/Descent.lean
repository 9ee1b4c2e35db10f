import Mathlib
import ExprCalculus.Parse.Descent
import ExprCalculus.Proofs.Justification

/-!
# What a descent breaks off with

A descent keeps the elements of a group as they come, and at the closing bracket a look-up or the
construction of an operation may fail. None of this goes wrong. The elements that pass the checks
are those of a `Group`, where the word that is no operand is kept apart from the operands, so the
descent answers as the reader does, and all that it breaks off with are the reader's rejections.
-/

namespace ExprCalculus

namespace Bracketed

/-! ## What is checked of a group -/

variable {mode : Mode} {text : List Char}

/-- With the symbol in front, nothing is in the group before it. -/
def Group.SymbolFirst (mode : Mode) (group : Group) : Prop :=
  mode = .pre → group.word = none → group.operands = []

theorem Group.symbolFirst_opened (start : Nat) : (Group.opened start).SymbolFirst mode :=
  fun _ _ => rfl

@[simp] theorem Group.start_opened (start : Nat) : (Group.opened start).start = start := rfl

@[simp] theorem Group.elements_opened (start : Nat) : (Group.opened start).elements mode = [] := by
  cases mode <;> rfl

/-- Placing an element keeps the symbol first, and the group where it is. -/
theorem Group.SymbolFirst.place {group after : Group} {element : Element}
    (h : group.SymbolFirst mode) (placed : group.place mode element = .ok after) :
    after.SymbolFirst mode ∧ after.start = group.start := by
  rcases Group.place_eq_ok placed with ⟨l, -, -, -, rfl⟩ | ⟨e, source, -, takes, rfl⟩
  · exact ⟨nofun, rfl⟩
  · refine ⟨?_, rfl⟩
    rintro rfl free
    have some : group.word.isSome := takes
    rw [free] at some
    cases some

/-- The next element passes the check if the group takes it, and the descent rejects the text as the
group does if not. -/
theorem checkElement_elements {group : Group} (h : group.SymbolFirst mode) (element : Element) :
    checkElement mode (group.elements mode) element =
      ((group.place mode element).map fun _ => ()).mapError .rejected := by
  cases mode with
  | pre =>
    cases hw : group.word with
    | none =>
      have empty : group.elements .pre = [] := by simp [Group.elements, hw, h rfl hw]
      cases element with
      | word l =>
        by_cases symbol : isSymbol l = true
        · simp [checkElement, empty, Element.isOperation, Group.place, hw, symbol, Except.map,
            Except.mapError]
        · simp [checkElement, empty, Element.isOperation, Group.place, hw, symbol, Except.map,
            Except.mapError, Element.source]
      | operand e source =>
        simp [checkElement, empty, Element.isOperation, Group.place, hw, Except.map,
          Except.mapError, Element.source]
    | some word =>
      cases element <;> simp [checkElement, Group.elements, Group.place, hw, Element.isRaw,
        Element.source, Except.map, Except.mapError]
  | post =>
    cases hw : group.word with
    | none =>
      have placed : (group.place .post element).map (fun _ => ()) = .ok () := by
        cases element <;> simp [Group.place, hw, Except.map]
      rw [placed]
      rcases List.eq_nil_or_concat group.operands with none | ⟨front, ⟨e, source⟩, hops⟩
      · simp [checkElement, Group.elements, hw, none, Except.mapError]
      · simp [checkElement, Group.elements, hw, hops, taken, Element.isRaw, bind, Except.bind,
          Except.mapError]
    | some word =>
      simp [checkElement, Group.elements, Group.place, hw, taken, Element.isRaw, Element.source,
        bind, Except.bind, Except.map, Except.mapError]

/-- The element in the place of the symbol of a group with a word is the word. -/
theorem splitElements_of_word {group : Group} {word : Excerpt} (h : group.word = some word)
    (closing : Excerpt) : splitElements mode (group.elements mode) closing =
      if isSymbol word then
        .ok (.word word, group.operands.map fun operand => .operand operand.1 operand.2)
      else .error (.rejected (.notAnOperation word)) := by
  cases mode <;> simp [splitElements, Group.elements, h, taken, Element.isOperation, Element.source,
    bind, Except.bind]

/-- A group without a word is rejected for its last element. -/
theorem splitElements_of_free {group : Group} (h : group.SymbolFirst mode)
    (free : group.word = none) (closing : Excerpt) :
    splitElements mode (group.elements mode) closing =
      .error (.rejected (.notAnOperation (group.lastElement closing))) := by
  rcases group.lastElement_eq closing with ⟨none, last_eq⟩ | ⟨front, e, source, hops, last_eq⟩
  · have empty : group.elements mode = [] := by cases mode <;> simp [Group.elements, free, none]
    simp [splitElements, empty, last_eq]
  · cases mode with
    | pre => simp [h rfl free] at hops
    | post =>
      simp [splitElements, Group.elements, free, hops, last_eq, taken, Element.isOperation,
        Element.source, bind, Except.bind]

/-- The construction of an operation from a number of operands that it accepts succeeds. -/
theorem assemble_operands {op : Op} {operands : List (Expr × Excerpt)}
    (count : op.accepts operands.length = true) :
    (OpKey.code op.code).assemble
        ((operands.map fun operand => Element.operand operand.1 operand.2).map Element.built) =
      .ok (.inr (.app op (operands.map Prod.fst))) := by
  have built : (operands.map fun operand => Element.operand operand.1 operand.2).map
      Element.built = (operands.map Prod.fst).map .inr := by
    simp [Element.built]
  rw [built, OpKey.assemble_inr, List.length_map, if_pos count]

/-- At its closing bracket the descent does with the elements of a group what the group does. -/
theorem closeElements_elements {group : Group} (h : group.SymbolFirst mode) (closing : Excerpt) :
    closeElements mode group.start (group.elements mode) closing =
      (group.close mode closing).mapError .rejected := by
  cases hw : group.word with
  | none =>
    simp only [closeElements, splitElements_of_free h hw, Group.close, hw]
    rfl
  | some word =>
    simp only [closeElements, splitElements_of_word hw, Group.close, hw]
    cases hop : Op.ofSymbol? word.text with
    | none =>
      have raw : isSymbol word = false := by simp [isSymbol, hop]
      simp only [raw]
      rfl
    | some op =>
      have symbol : isSymbol word = true := by simp [isSymbol, hop]
      have found : (OpKey.symbol word.text).lookUp = .ok op := by simp [OpKey.lookUp, hop, orFault]
      simp only [symbol, if_true, Element.source, bind, Except.bind, found, Except.mapError,
        List.length_map]
      cases built : Expr.build op (group.operands.map Prod.fst) with
      | ok e =>
        obtain ⟨count, rfl⟩ := Expr.build_eq_ok_iff.mp built
        rw [List.length_map] at count
        simp only [count, if_true, assemble_operands count]
        rfl
      | error mismatch =>
        obtain ⟨expected, arity, differ, rfl⟩ := Expr.build_eq_error built
        rw [List.length_map] at differ
        have count : op.accepts group.operands.length = false := by
          simp [Op.accepts, arity, differ]
        simp only [count, Bool.false_eq_true, if_false, arity, Option.getD_some, List.length_map]
        rfl

/-- Elements that have not been checked do break the construction of an operation. -/
example : closeElements .pre 0 [.word ⟨['a', 'b', 's'], 1⟩, .word ⟨['a', 'b', 's'], 5⟩] ⟨[')'], 8⟩ =
    .error (.fault (.operandKind .abs .nothing)) := rfl

/-! ## The descent follows the reader -/

/-- The expression that the reader finds from a state on, in the text behind a cursor. -/
def answer (mode : Mode) (text : List Char) (state : State) (cursor : Cursor) :
    Except Breakdown Expr :=
  ((run mode text state cursor.lexemes).bind (finish text.length)).mapError .rejected

/-- The state of the reader behind a group: the expression of the group is the result or, with other
groups around it, an operand of the innermost of these. -/
def State.behind (mode : Mode) (text : List Char) (outer : List Group) (start stop : Nat)
    (e : Expr) : Except Rejection State :=
  match outer with
  | [] => .ok (.finished e)
  | around :: outer => State.placed mode around outer (.operand e (.between text start stop))

/-- At the end of the text the answer is what the end makes of the state. -/
theorem answer_of_next_none {cursor after : Cursor} (h : cursor.next = (none, after))
    (state : State) :
    answer mode text state cursor = (finish text.length state).mapError .rejected := by
  rw [answer, Cursor.lexemes_of_next_none h]
  rfl

/-- Before a lexeme the answer is that of the state after it. -/
theorem answer_of_next_some {cursor after : Cursor} {l : Excerpt}
    (h : cursor.next = (some l, after)) (state : State) : answer mode text state cursor =
      ((step mode text state l).mapError .rejected).bind fun next =>
        answer mode text next after := by
  rw [answer, Cursor.lexemes_of_next_some h, run_cons]
  cases step mode text state l <;> rfl

/-- The expression that the reader finds in the text behind a group and a cursor. -/
def answerBehind (mode : Mode) (text : List Char) (outer : List Group) (start : Nat) (e : Expr)
    (after : Cursor) : Except Breakdown Expr :=
  ((State.behind mode text outer start after.pos e).mapError .rejected).bind fun state =>
    answer mode text state after

/-- From the cursor on, the descent reads the rest of every group as the reader does. -/
def ReadsGroup (mode : Mode) (text : List Char) (cursor : Cursor) : Prop :=
  ∀ (group : Group) (outer : List Group), group.SymbolFirst mode →
    answer mode text (.within group outer) cursor =
      (readGroup mode text group.start (group.elements mode) cursor).bind fun found =>
        answerBehind mode text outer group.start found.1 found.2

/-- An element is checked and collected as it is put into the group. -/
theorem ReadsGroup.placed {cursor behind : Cursor} (h : ReadsGroup mode text behind)
    (follows : behind.Follows cursor) {group : Group} (first : group.SymbolFirst mode)
    (outer : List Group) (element : Element) :
    (((State.placed mode group outer element).mapError .rejected).bind fun state =>
        answer mode text state behind) =
      (do
        checkElement mode (group.elements mode) element
        let (e, final) ← readGroup mode text group.start (group.elements mode ++ [element]) behind
        .ok (e, ⟨final, final.2.trans follows⟩) :
          Except Breakdown (Expr × {after : Cursor // after.Follows cursor})).bind
        fun found => answerBehind mode text outer group.start found.1 found.2 := by
  rw [checkElement_elements first, State.placed]
  cases placed : group.place mode element with
  | error r => rfl
  | ok next =>
    obtain ⟨first', start_eq⟩ := first.place placed
    have read := h next outer first'
    rw [start_eq, Group.elements_of_place first placed] at read
    refine read.trans ?_
    cases readGroup mode text group.start (group.elements mode ++ [element]) behind <;> rfl

/-- At a closing bracket the reader goes on behind the group. -/
theorem step_closing {l : Excerpt} (h : l.text = [')']) (group : Group) (outer : List Group) :
    step mode text (.within group outer) l =
      (group.close mode l).bind (State.behind mode text outer group.start l.stop) := by
  have opening : l.text ≠ ['('] := by rw [h]; decide
  simp only [step, if_neg opening, if_pos h]
  cases group.close mode l with
  | error r => rfl
  | ok e => cases outer <;> rfl

/-- The descent reads the rest of a group as the reader does, by induction on what is left of the
text: a group inside it leaves less, and so does every element. -/
theorem readsGroup (cursor : Cursor) (hstop : cursor.pos + cursor.rest.length = text.length) :
    ReadsGroup mode text cursor := by
  induction hn : cursor.rest.length using Nat.strong_induction_on generalizing cursor with
  | _ n ih =>
    subst hn
    have further {after : Cursor} (follows : after.Follows cursor) : ReadsGroup mode text after :=
      ih _ follows.shorter after (follows.stop_eq.trans hstop) rfl
    intro group outer first
    rw [readGroup]
    split
    · rename_i after next
      rw [answer_of_next_none next, Cursor.pos_of_next_none next, hstop]
      rfl
    · rename_i l after next
      have follows := Cursor.follows_of_next next
      rw [answer_of_next_some next]
      by_cases closing : l.text = [')']
      · rw [if_pos closing, step_closing closing, closeElements_elements first,
          ← (Cursor.places_of_next_some next).2]
        cases group.close mode l <;> rfl
      rw [if_neg closing]
      by_cases opening : l.text = ['(']
      · rw [if_pos opening, step_opening opening]
        have opened : (Group.opened l.start).SymbolFirst mode := Group.symbolFirst_opened _
        have inside := further follows _ (group :: outer) opened
        rw [Group.start_opened, Group.elements_opened] at inside
        refine inside.trans ?_
        cases readGroup mode text l.start [] after with
        | error b => rfl
        | ok found =>
          obtain ⟨inner, behind, behind_follows⟩ := found
          have behind_cursor := behind_follows.trans follows
          exact (further behind_cursor).placed behind_cursor first outer (.operand inner _)
      · rw [if_neg opening, step_element opening closing]
        exact (further follows).placed follows first outer (.ofLexeme l)

/-- From the start the reader finds what the descent reads first, and goes on behind it. -/
theorem answer_start (cursor : Cursor) (hstop : cursor.pos + cursor.rest.length = text.length) :
    answer mode text .start cursor = (readExpression mode text cursor).bind fun found =>
      answer mode text (.finished found.1) found.2 := by
  rw [readExpression]
  split
  · rename_i after next
    rw [answer_of_next_none next, Cursor.pos_of_next_none next, hstop]
    rfl
  · rename_i l after next
    have follows := Cursor.follows_of_next next
    rw [answer_of_next_some next, step]
    by_cases opening : l.text = ['(']
    · rw [if_pos opening, if_pos opening]
      have opened : (Group.opened l.start).SymbolFirst mode := Group.symbolFirst_opened _
      have inside := readsGroup after (follows.stop_eq.trans hstop) _ [] opened
      rw [Group.start_opened, Group.elements_opened] at inside
      refine inside.trans ?_
      cases readGroup mode text l.start [] after <;> rfl
    · rw [if_neg opening, if_neg opening]
      cases leaf? l.text <;> rfl

/-- Behind an expression the descent and the reader look for the end of the text. -/
theorem answer_finished (e : Expr) (cursor : Cursor) : answer mode text (.finished e) cursor =
    match cursor.next.1 with
    | some l => .error (.rejected (.trailing l))
    | none => .ok e := by
  rcases next : cursor.next with ⟨l?, after⟩
  cases l? with
  | none => exact answer_of_next_none next _
  | some l => exact answer_of_next_some next _

/-- The descent answers as the reader does. -/
theorem descend_eq (mode : Mode) (text : List Char) :
    descend mode text = (parseBracketed mode text).mapError .rejected := by
  have whole : (parseBracketed mode text).mapError .rejected =
      answer mode text .start (.ofText text) := rfl
  have start : answer mode text .start (.ofText text) = _ :=
    answer_start (.ofText text) (Nat.zero_add _)
  rw [whole, start, descend]
  cases readExpression mode text (.ofText text) with
  | error b => rfl
  | ok found => exact (answer_finished found.1 found.2).symm

end Bracketed

open Bracketed

/-- Reading by descent ends with a well-formed expression or with a rejection that has its place in
the text, the same as the reader's: no look-up fails, no operation is put together from a wrong
number of operands or from what is none, and no element is taken from a group that has none. -/
theorem descend_ok_or_rejected (mode : Mode) (text : List Char) :
    (∃ e, descend mode text = .ok e ∧ parseBracketed mode text = .ok e ∧ e.WellFormed) ∨
      ∃ r, descend mode text = .error (.rejected r) ∧ parseBracketed mode text = .error r ∧
        r.position ≤ text.length + 1 := by
  rw [descend_eq]
  cases h : parseBracketed mode text with
  | ok e => exact .inl ⟨e, rfl, rfl, (spells_of_parseBracketed h).wellFormed⟩
  | error r =>
    have located := located_of_parseBracketed h
    exact .inr ⟨r, rfl, rfl, Nat.add_le_add_right located.offset_le 1⟩

end ExprCalculus

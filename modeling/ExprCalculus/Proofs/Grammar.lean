import Mathlib
import ExprCalculus.Parse.Bracketed
import ExprCalculus.Proofs.Lexing

/-!
# The grammar of bracketed texts

`Spells` relates an expression to the lists of tokens that stand for it: a number word for a
constant, its name for a variable, and for an operation a group with the symbol in front of the
operands or behind them. The reader accepts a text exactly when its tokens spell an expression, and
it answers with that expression.

That every spelling is read is an induction on the expression, in any state that may take an
operand. That nothing else is read follows from what a state says about the lexemes read so far:
every open group has read its bracket and then its word and spellings of its operands, in the order
of the mode.
-/

namespace ExprCalculus

mutual

/-- The tokens spell the expression. -/
inductive Spells (mode : Mode) : Expr → List (List Char) → Prop where
  | const {word : List Char} {value : Double} (number : number? word = some value) :
      Spells mode (.const value) [word]
  | var (v : Variable) : Spells mode (.var v) [v.name]
  | app {op : Op} {es : List Expr} {words : List (List Char)}
      (count : op.accepts es.length = true) (operands : SpellsAll mode es words) :
      Spells mode (.app op es) (['('] :: (mode.order op.symbol words ++ [[')']]))

/-- The tokens spell the expressions one after another. -/
inductive SpellsAll (mode : Mode) : List Expr → List (List Char) → Prop where
  | nil : SpellsAll mode [] []
  | cons {e : Expr} {es : List Expr} {words rest : List (List Char)} (head : Spells mode e words)
      (tail : SpellsAll mode es rest) : SpellsAll mode (e :: es) (words ++ rest)

end

variable {mode : Mode} {text : List Char}

theorem SpellsAll.concat {es : List Expr} {e : Expr} {words last : List (List Char)}
    (h : SpellsAll mode es words) (he : Spells mode e last) :
    SpellsAll mode (es ++ [e]) (words ++ last) := by
  induction es generalizing words with
  | nil =>
    cases h with
    | nil => simpa using SpellsAll.cons he .nil
  | cons f es ih =>
    cases h with
    | cons head tail =>
      rw [List.append_assoc]
      exact .cons head (ih tail)

/-- Each operand has its own part of the words that spell all of them. -/
theorem SpellsAll.exists_spells {es : List Expr} {words : List (List Char)}
    (h : SpellsAll mode es words) {e : Expr} (he : e ∈ es) : ∃ part, Spells mode e part := by
  induction es generalizing words with
  | nil => cases he
  | cons f es ih =>
    cases h with
    | cons head tail =>
      rcases List.mem_cons.mp he with rfl | he
      · exact ⟨_, head⟩
      · exact ih tail he

/-- Only well-formed expressions are spelled. -/
theorem Spells.wellFormed {e : Expr} {words : List (List Char)} (h : Spells mode e words) :
    e.WellFormed := by
  induction e generalizing words with
  | const value => exact .const value
  | var v => exact .var v
  | app op es ih =>
    cases h with
    | app count operands =>
      refine .app count fun e he => ?_
      obtain ⟨part, spelled⟩ := operands.exists_spells he
      exact ih e he spelled

/-! ## Leaves -/

theorem leaf?_symbol (op : Op) : leaf? op.symbol = none := by
  cases op <;> rfl

theorem leaf?_opening : leaf? ['('] = none := rfl

theorem leaf?_closing : leaf? [')'] = none := rfl

theorem leaf?_name (v : Variable) : leaf? v.name = some (.var v) := by
  cases v <;> rfl

theorem leaf?_of_number {word : List Char} {value : Double} (h : number? word = some value) :
    leaf? word = some (.const value) := by
  rw [leaf?, h]

/-- A word that is an operand by itself spells it. -/
theorem spells_of_leaf? {word : List Char} {e : Expr} (h : leaf? word = some e) :
    Spells mode e [word] := by
  unfold leaf? at h
  split at h
  · rename_i value number
    obtain rfl := Option.some.inj h
    exact .const number
  · obtain ⟨v, hv, rfl⟩ := Option.map_eq_some_iff.mp h
    obtain rfl := Variable.ofName?_eq_some_iff.mp hv
    exact .var v

/-- The lexemes of a group are its brackets and what stands between them. -/
theorem exists_lexemes_of_group {ls : List Excerpt} {words : List (List Char)}
    (h : ls.map Excerpt.text = ['('] :: (words ++ [[')']])) :
    ∃ opening body closing, ls = opening :: (body ++ [closing]) ∧ opening.text = ['('] ∧
      body.map Excerpt.text = words ∧ closing.text = [')'] := by
  obtain ⟨opening, rest, rfl, hopening, hrest⟩ := List.map_eq_cons_iff.mp h
  obtain ⟨body, last, rfl, hbody, hlast⟩ := List.map_eq_append_iff.mp hrest
  obtain ⟨closing, rfl, hclosing⟩ := List.map_eq_singleton_iff.mp hlast
  exact ⟨opening, body, closing, rfl, hopening, hbody, hclosing⟩

namespace Bracketed

/-- The state after some lexemes. -/
def run (mode : Mode) (text : List Char) (state : State) (lexemes : List Excerpt) :
    Except Rejection State :=
  lexemes.foldlM (step mode text) state

@[simp] theorem run_nil (state : State) : run mode text state [] = .ok state := rfl

theorem run_cons (state : State) (l : Excerpt) (ls : List Excerpt) :
    run mode text state (l :: ls) = (step mode text state l).bind fun s => run mode text s ls := rfl

theorem run_append (state : State) (as bs : List Excerpt) :
    run mode text state (as ++ bs) = (run mode text state as).bind fun s => run mode text s bs :=
  List.foldlM_append

theorem run_cons_of_step {state next : State} {l : Excerpt} (h : step mode text state l = .ok next)
    (ls : List Excerpt) : run mode text state (l :: ls) = run mode text next ls := by
  rw [run_cons, h]
  rfl

theorem run_append_of_run {state next : State} {as : List Excerpt}
    (h : run mode text state as = .ok next) (bs : List Excerpt) :
    run mode text state (as ++ bs) = run mode text next bs := by
  rw [run_append, h]
  rfl

theorem Element.ofLexeme_of_leaf {l : Excerpt} {e : Expr} (h : leaf? l.text = some e) :
    Element.ofLexeme l = .operand e l := by
  rw [Element.ofLexeme, h]

theorem Element.ofLexeme_of_raw {l : Excerpt} (h : leaf? l.text = none) :
    Element.ofLexeme l = .word l := by
  rw [Element.ofLexeme, h]

/-- A lexeme other than a bracket is an element of the innermost group. -/
theorem step_element {l : Excerpt} (opening : l.text ≠ ['(']) (closing : l.text ≠ [')'])
    (group : Group) (outer : List Group) : step mode text (.within group outer) l =
      State.placed mode group outer (.ofLexeme l) := by
  simp only [step, if_neg opening, if_neg closing]
  cases h : leaf? l.text with
  | some e => rw [Element.ofLexeme_of_leaf h]
  | none => rw [Element.ofLexeme_of_raw h]

theorem State.placed_of_place {group after : Group} {element : Element}
    (h : group.place mode element = .ok after) (outer : List Group) :
    State.placed mode group outer element = .ok (.within after outer) := by
  rw [State.placed, h]
  rfl

/-- An element is put into the innermost group, and the groups around it are left as they are. -/
theorem State.placed_eq_ok {group : Group} {outer : List Group} {element : Element} {next : State}
    (h : State.placed mode group outer element = .ok next) :
    ∃ after, group.place mode element = .ok after ∧ next = .within after outer := by
  unfold State.placed at h
  cases hp : group.place mode element with
  | error r =>
    rw [hp] at h
    cases h
  | ok after =>
    rw [hp] at h
    exact ⟨after, rfl, (Except.ok.inj h).symm⟩

/-! ## Every spelling is read -/

/-- The group may take an operand next. -/
def Group.TakesOperand (mode : Mode) (group : Group) : Prop :=
  match mode with
  | .pre => group.word.isSome
  | .post => group.word = none

theorem Group.place_operand {group : Group} (h : group.TakesOperand mode) (e : Expr)
    (source : Excerpt) : group.place mode (.operand e source) =
      .ok { group with operands := group.operands ++ [(e, source)] } := by
  cases mode with
  | pre =>
    obtain ⟨w, hw⟩ := Option.isSome_iff_exists.mp h
    simp [Group.place, hw]
  | post =>
    have hw : group.word = none := h
    simp [Group.place, hw]

/-- The spellings of an expression are read as an operand, wherever one may stand. -/
def ReadsOperand (mode : Mode) (text : List Char) (e : Expr) : Prop :=
  ∀ {ls : List Excerpt}, Spells mode e (ls.map Excerpt.text) →
    ∀ {group : Group}, group.TakesOperand mode → ∀ outer, ∃ source,
      run mode text (.within group outer) ls =
        .ok (.within { group with operands := group.operands ++ [(e, source)] } outer)

theorem run_leaf {l : Excerpt} {e : Expr} (h : leaf? l.text = some e) {group : Group}
    (takes : group.TakesOperand mode) (outer : List Group) :
    run mode text (.within group outer) [l] =
      .ok (.within { group with operands := group.operands ++ [(e, l)] } outer) := by
  have opening : l.text ≠ ['('] := fun he => by simp [he, leaf?_opening] at h
  have closing : l.text ≠ [')'] := fun he => by simp [he, leaf?_closing] at h
  have stepped : step mode text (.within group outer) l =
      .ok (.within { group with operands := group.operands ++ [(e, l)] } outer) := by
    rw [step_element opening closing, Element.ofLexeme_of_leaf h,
      State.placed_of_place (group.place_operand takes e l)]
  rw [run_cons_of_step stepped, run_nil]

/-- The words of several operands put these operands into the open group, one after the other. -/
theorem run_operands {es : List Expr} (each : ∀ e ∈ es, ReadsOperand mode text e)
    {ls : List Excerpt} (h : SpellsAll mode es (ls.map Excerpt.text)) (group : Group)
    (takes : group.TakesOperand mode) (outer : List Group) :
    ∃ operands, operands.map Prod.fst = es ∧ run mode text (.within group outer) ls =
      .ok (.within { group with operands := group.operands ++ operands } outer) := by
  induction es generalizing ls group with
  | nil =>
    generalize hw : ls.map Excerpt.text = words at h
    cases h
    obtain rfl := List.map_eq_nil_iff.mp hw
    exact ⟨[], rfl, by simp⟩
  | cons e es ih =>
    generalize hw : ls.map Excerpt.text = words at h
    cases h with
    | cons head tail =>
      obtain ⟨as, bs, rfl, rfl, rfl⟩ := List.map_eq_append_iff.mp hw
      obtain ⟨source, first⟩ := each e List.mem_cons_self head takes outer
      have takes' : Group.TakesOperand mode
          { group with operands := group.operands ++ [(e, source)] } := by
        cases mode <;> exact takes
      obtain ⟨operands, rfl, rest⟩ :=
        ih (fun f hf => each f (List.mem_cons_of_mem _ hf)) tail _ takes'
      refine ⟨(e, source) :: operands, rfl, ?_⟩
      rw [run_append_of_run first, rest]
      simp

/-- The symbol of an operation becomes the word of a group that has none yet. -/
theorem step_symbol (mode : Mode) (text : List Char) {l : Excerpt} {op : Op}
    (h : l.text = op.symbol) (group : Group) (free : group.word = none) (outer : List Group) :
    step mode text (.within group outer) l = .ok (.within { group with word := some l } outer) := by
  have opening : l.text ≠ ['('] := by rw [h]; cases op <;> decide
  have closing : l.text ≠ [')'] := by rw [h]; cases op <;> decide
  have raw : leaf? l.text = none := by rw [h, leaf?_symbol]
  have symbol : isSymbol l = true := by simp [isSymbol, h]
  have placed : group.place mode (.word l) = .ok { group with word := some l } := by
    cases mode <;> simp [Group.place, free, symbol]
  rw [step_element opening closing, Element.ofLexeme_of_raw raw, State.placed_of_place placed]

/-- What stands between the brackets of a group is read, and then the group may be closed. -/
theorem run_group {op : Op} {es : List Expr} (count : op.accepts es.length = true)
    (each : ∀ e ∈ es, ReadsOperand mode text e) {words : List (List Char)}
    (h : SpellsAll mode es words) {ls : List Excerpt}
    (hls : ls.map Excerpt.text = mode.order op.symbol words) (start : Nat) (outer : List Group) :
    ∃ group : Group, run mode text (.within (.opened start) outer) ls = .ok (.within group outer) ∧
      group.start = start ∧ ∀ closing, group.close mode closing = .ok (.app op es) := by
  have built : Expr.build op es = .ok (.app op es) := Expr.build_eq_ok_iff.mpr ⟨count, rfl⟩
  cases mode with
  | pre =>
    obtain ⟨symbol, ls, rfl, hsymbol, rfl⟩ := List.map_eq_cons_iff.mp hls
    have first := step_symbol .pre text hsymbol (.opened start) rfl outer
    obtain ⟨operands, rfl, rest⟩ := run_operands each h
      { Group.opened start with word := some symbol } rfl outer
    refine ⟨_, by rw [run_cons_of_step first, rest], rfl, fun closing => ?_⟩
    simp [Group.close, Group.opened, hsymbol, built]
  | post =>
    obtain ⟨as, bs, rfl, rfl, hbs⟩ := List.map_eq_append_iff.mp hls
    obtain ⟨symbol, rest, rfl, hsymbol, hrest⟩ := List.map_eq_cons_iff.mp hbs
    obtain rfl := List.map_eq_nil_iff.mp hrest
    obtain ⟨operands, rfl, first⟩ := run_operands each h (.opened start) rfl outer
    have last := step_symbol .post text hsymbol ⟨start, none, operands⟩ rfl outer
    refine ⟨⟨start, some symbol, operands⟩,
      (run_append_of_run first _).trans (run_cons_of_step last []), rfl, fun closing => ?_⟩
    simp [Group.close, hsymbol, built]

/-- An opening bracket opens a group inside the one that is open. -/
theorem step_opening {l : Excerpt} (h : l.text = ['(']) (group : Group) (outer : List Group) :
    step mode text (.within group outer) l = .ok (.within (.opened l.start) (group :: outer)) := by
  simp [step, h]

/-- An expression is read as an operand by way of its operands. -/
theorem readsOperand (e : Expr) : ReadsOperand mode text e := by
  intro ls h group takes outer
  generalize hw : ls.map Excerpt.text = words at h
  induction e generalizing ls words group outer with
  | const value =>
    cases h with
    | const number =>
      obtain ⟨l, rfl, rfl⟩ := List.map_eq_singleton_iff.mp hw
      exact ⟨l, run_leaf (leaf?_of_number number) takes outer⟩
  | var v =>
    cases h with
    | var =>
      obtain ⟨l, rfl, hl⟩ := List.map_eq_singleton_iff.mp hw
      exact ⟨l, run_leaf (hl ▸ leaf?_name v) takes outer⟩
  | app op es ih =>
    cases h with
    | app count operands =>
      obtain ⟨opening, body, closing, rfl, hopening, hbody, hclosing⟩ :=
        exists_lexemes_of_group hw
      have each : ∀ f ∈ es, ReadsOperand mode text f := fun f hf ls h group takes outer =>
        ih f hf takes outer _ rfl h
      obtain ⟨inner, read, start_eq, closes⟩ :=
        run_group count each operands hbody opening.start (group :: outer)
      refine ⟨.between text inner.start closing.stop, ?_⟩
      rw [run_cons_of_step (step_opening hopening group outer), run_append_of_run read]
      have closed : step mode text (.within inner (group :: outer)) closing =
          .ok (.within { group with operands := group.operands ++
            [(.app op es, .between text inner.start closing.stop)] } outer) := by
        simp [step, hclosing, closes, State.placed_of_place (group.place_operand takes _ _)]
      rw [run_cons_of_step closed, run_nil]

/-- Every spelling of an expression is read from the start to that expression. -/
theorem run_start {e : Expr} {ls : List Excerpt} (h : Spells mode e (ls.map Excerpt.text)) :
    run mode text .start ls = .ok (.finished e) := by
  generalize hw : ls.map Excerpt.text = words at h
  have leaf {l : Excerpt} (hl : leaf? l.text = some e) :
      run mode text .start [l] = .ok (.finished e) := by
    have opening : l.text ≠ ['('] := fun he => by simp [he, leaf?_opening] at hl
    have stepped : step mode text .start l = .ok (.finished e) := by simp [step, opening, hl]
    rw [run_cons_of_step stepped, run_nil]
  cases h with
  | const number =>
    obtain ⟨l, rfl, rfl⟩ := List.map_eq_singleton_iff.mp hw
    exact leaf (leaf?_of_number number)
  | var v =>
    obtain ⟨l, rfl, hl⟩ := List.map_eq_singleton_iff.mp hw
    exact leaf (hl ▸ leaf?_name v)
  | @app op es words count operands =>
    obtain ⟨opening, body, closing, rfl, hopening, hbody, hclosing⟩ := exists_lexemes_of_group hw
    obtain ⟨inner, read, -, closes⟩ :=
      run_group count (fun f _ => readsOperand f) operands hbody opening.start []
    have opened : step mode text .start opening = .ok (.within (.opened opening.start) []) := by
      simp [step, hopening]
    have closed : step mode text (.within inner []) closing = .ok (.finished (.app op es)) := by
      simp [step, hclosing, closes]
    rw [run_cons_of_step opened, run_append_of_run read, run_cons_of_step closed, run_nil]

/-! ## What a state has read -/

theorem Group.place_eq_ok {group after : Group} {element : Element}
    (h : group.place mode element = .ok after) :
    (∃ l, element = .word l ∧ group.word = none ∧ (mode = .pre → isSymbol l = true) ∧
      after = { group with word := some l }) ∨
    ∃ e source, element = .operand e source ∧ group.TakesOperand mode ∧
      after = { group with operands := group.operands ++ [(e, source)] } := by
  cases element with
  | word l =>
    refine .inl ⟨l, rfl, ?_⟩
    cases mode with
    | pre =>
      cases hw : group.word with
      | none =>
        by_cases symbol : isSymbol l = true
        · simp only [Group.place, hw, symbol, if_true, Except.ok.injEq] at h
          exact ⟨rfl, fun _ => symbol, h.symm⟩
        · simp [Group.place, hw, symbol] at h
      | some w => simp [Group.place, hw] at h
    | post =>
      cases hw : group.word with
      | none =>
        simp only [Group.place, hw, Except.ok.injEq] at h
        exact ⟨rfl, nofun, h.symm⟩
      | some w => simp [Group.place, hw] at h
  | operand e source =>
    refine .inr ⟨e, source, rfl, ?_⟩
    have takes : group.TakesOperand mode := by
      cases mode <;> cases hw : group.word <;> simp_all [Group.place, Group.TakesOperand]
    rw [Group.place_operand takes] at h
    exact ⟨takes, (Except.ok.inj h).symm⟩

/-- A group closes only with the symbol of an operation that accepts as many operands as it has. -/
theorem Group.close_eq_ok {group : Group} {closing : Excerpt} {e : Expr}
    (h : group.close mode closing = .ok e) :
    ∃ word op, group.word = some word ∧ word.text = op.symbol ∧
      op.accepts group.operands.length = true ∧ e = .app op (group.operands.map Prod.fst) := by
  unfold Group.close at h
  split at h
  · cases h
  · rename_i word hword
    split at h
    · cases h
    · rename_i op hop
      split at h
      · rename_i built
        cases h
        obtain ⟨count, rfl⟩ := Expr.build_eq_ok_iff.mp built
        rw [List.length_map] at count
        exact ⟨word, op, hword, Op.ofSymbol?_eq_some_iff.mp hop, count, rfl⟩
      · cases h

/-- The piece of the text from the first to the last of some lexemes. -/
def Spans (text : List Char) (source : Excerpt) (ls : List Excerpt) : Prop :=
  ∃ first last, ls.head? = some first ∧ ls.getLast? = some last ∧
    source = .between text first.start last.stop

/-- The element has been read from the lexemes. -/
inductive Element.ReadFrom (mode : Mode) (text : List Char) : Element → List Excerpt → Prop where
  | word {l : Excerpt} (opening : l.text ≠ ['(']) (closing : l.text ≠ [')'])
      (raw : leaf? l.text = none) : ReadFrom mode text (.word l) [l]
  | operand {e : Expr} {source : Excerpt} {ls : List Excerpt}
      (spelled : Spells mode e (ls.map Excerpt.text)) (spans : Spans text source ls) :
      ReadFrom mode text (.operand e source) ls

/-- The group has been read from the lexemes: its bracket and then its elements. -/
inductive Group.ReadFrom (mode : Mode) (text : List Char) : Group → List Excerpt → Prop where
  | opened {l : Excerpt} (h : l.text = ['(']) : ReadFrom mode text (.opened l.start) [l]
  | place {group after : Group} {element : Element} {ls els : List Excerpt}
      (before : ReadFrom mode text group ls) (read : element.ReadFrom mode text els)
      (placed : group.place mode element = .ok after) : ReadFrom mode text after (ls ++ els)

/-- The groups have been read from the lexemes, the outermost first. -/
inductive GroupsReadFrom (mode : Mode) (text : List Char) : List Group → List Excerpt → Prop where
  | nil : GroupsReadFrom mode text [] []
  | cons {group : Group} {outer : List Group} {before ls : List Excerpt}
      (around : GroupsReadFrom mode text outer before) (inner : group.ReadFrom mode text ls) :
      GroupsReadFrom mode text (group :: outer) (before ++ ls)

/-- The state has been reached by reading the lexemes. -/
inductive State.ReadFrom (mode : Mode) (text : List Char) : State → List Excerpt → Prop where
  | start : ReadFrom mode text .start []
  | within {group : Group} {outer : List Group} {ls : List Excerpt}
      (groups : GroupsReadFrom mode text (group :: outer) ls) :
      ReadFrom mode text (.within group outer) ls
  | finished {e : Expr} {ls : List Excerpt} (spelled : Spells mode e (ls.map Excerpt.text)) :
      ReadFrom mode text (.finished e) ls

/-- The tokens of a group behind its bracket, so far. -/
def Group.tokensOf (mode : Mode) (group : Group) (operands : List (List Char)) :
    List (List Char) :=
  match group.word with
  | none => operands
  | some word => mode.order word.text operands

/-- An open group has read its bracket, and then its word and its operands in the order of the mode;
with the symbol in front there is no operand before it. -/
theorem Group.ReadFrom.spells {group : Group} {ls : List Excerpt}
    (h : group.ReadFrom mode text ls) :
    ∃ words, SpellsAll mode (group.operands.map Prod.fst) words ∧
      ls.map Excerpt.text = ['('] :: group.tokensOf mode words ∧
      (mode = .pre → group.word = none → group.operands = []) := by
  induction h with
  | opened h => exact ⟨[], .nil, by simp [h, Group.tokensOf, Group.opened], fun _ _ => rfl⟩
  | @place group after element ls els before read placed ih =>
    obtain ⟨words, operands, tokens_eq, empty⟩ := ih
    rcases Group.place_eq_ok placed with ⟨l, rfl, free, -, rfl⟩ | ⟨e, source, rfl, takes, rfl⟩
    · cases read
      have words_eq : mode = .pre → words = [] := by
        intro hm
        rw [empty hm free] at operands
        cases operands
        rfl
      refine ⟨words, operands, ?_, fun _ hw => by cases hw⟩
      rw [List.map_append, tokens_eq]
      cases mode with
      | pre => simp [Group.tokensOf, Mode.order, free, words_eq rfl]
      | post => simp [Group.tokensOf, Mode.order, free]
    · cases read with
      | operand spelled spans =>
        refine ⟨words ++ els.map Excerpt.text, ?_, ?_, ?_⟩
        · rw [List.map_append]
          exact operands.concat spelled
        · rw [List.map_append, tokens_eq]
          cases mode with
          | pre =>
            obtain ⟨w, hw⟩ := Option.isSome_iff_exists.mp takes
            simp [Group.tokensOf, Mode.order, hw]
          | post =>
            have free : group.word = none := takes
            simp [Group.tokensOf, free]
        · rintro rfl free
          have some : group.word.isSome := takes
          rw [free] at some
          cases some

/-- The tokens of a group that may be closed spell its expression. -/
theorem Group.ReadFrom.spells_close {group : Group} {ls : List Excerpt} {closing : Excerpt}
    {e : Expr} (h : group.ReadFrom mode text ls) (hclosing : closing.text = [')'])
    (closed : group.close mode closing = .ok e) :
    Spells mode e ((ls ++ [closing]).map Excerpt.text) := by
  obtain ⟨word, op, hword, symbol, count, rfl⟩ := Group.close_eq_ok closed
  obtain ⟨words, operands, tokens_eq, -⟩ := h.spells
  have spelled : Spells mode (.app op (group.operands.map Prod.fst)) _ :=
    .app (by rwa [List.length_map]) operands
  rw [List.map_append, tokens_eq]
  simpa [Group.tokensOf, hword, symbol, hclosing] using spelled

/-- The words of an open group begin with the bracket at the place where it starts. -/
theorem Group.ReadFrom.head? {group : Group} {ls : List Excerpt}
    (h : group.ReadFrom mode text ls) :
    ∃ opening, ls.head? = some opening ∧ opening.text = ['('] ∧ opening.start = group.start := by
  induction h with
  | @opened l hl => exact ⟨l, rfl, hl, rfl⟩
  | @place group after element ls els before read placed ih =>
    obtain ⟨opening, head, hopening, start_eq⟩ := ih
    refine ⟨opening, by simp [List.head?_append, head], hopening, ?_⟩
    rcases Group.place_eq_ok placed with ⟨l, -, -, -, rfl⟩ | ⟨e, source, -, -, rfl⟩ <;>
      exact start_eq

/-- A group that may be closed is an operand of the group around it. -/
theorem Group.ReadFrom.operand {group : Group} {ls : List Excerpt} {closing : Excerpt} {e : Expr}
    (h : group.ReadFrom mode text ls) (hclosing : closing.text = [')'])
    (closed : group.close mode closing = .ok e) :
    Element.ReadFrom mode text (.operand e (.between text group.start closing.stop))
      (ls ++ [closing]) := by
  obtain ⟨bracket, head, -, start_eq⟩ := h.head?
  refine .operand (h.spells_close hclosing closed) ⟨bracket, closing, ?_, ?_, by rw [start_eq]⟩
  · simp [List.head?_append, head]
  · simp

theorem Element.ReadFrom.ofLexeme {l : Excerpt} (stands : l.StandsIn text)
    (opening : l.text ≠ ['(']) (closing : l.text ≠ [')']) :
    (Element.ofLexeme l).ReadFrom mode text [l] := by
  cases h : leaf? l.text with
  | some e =>
    rw [Element.ofLexeme_of_leaf h]
    exact .operand (spells_of_leaf? h) ⟨l, l, rfl, rfl, stands.eq_between⟩
  | none =>
    rw [Element.ofLexeme_of_raw h]
    exact .word opening closing h

/-- Putting an element into the innermost group adds its words to those read so far. -/
theorem GroupsReadFrom.placed {group after : Group} {outer : List Group} {element : Element}
    {ls els : List Excerpt} (h : GroupsReadFrom mode text (group :: outer) ls)
    (read : element.ReadFrom mode text els) (placed : group.place mode element = .ok after) :
    GroupsReadFrom mode text (after :: outer) (ls ++ els) := by
  cases h with
  | cons around inner =>
    rw [List.append_assoc]
    exact .cons around (.place inner read placed)

theorem State.ReadFrom.placed {group : Group} {outer : List Group} {element : Element}
    {ls els : List Excerpt} {next : State} (h : GroupsReadFrom mode text (group :: outer) ls)
    (read : element.ReadFrom mode text els)
    (ok : State.placed mode group outer element = .ok next) :
    next.ReadFrom mode text (ls ++ els) := by
  obtain ⟨after, placed, rfl⟩ := State.placed_eq_ok ok
  exact .within (h.placed read placed)

/-- When an expression is finished, the words read so far spell it. -/
theorem State.ReadFrom.spells {e : Expr} {ls : List Excerpt}
    (h : (State.finished e).ReadFrom mode text ls) : Spells mode e (ls.map Excerpt.text) := by
  cases h with
  | finished spelled => exact spelled

/-- One step keeps what is known of a state. -/
theorem State.ReadFrom.step {state next : State} {ls : List Excerpt} {l : Excerpt}
    (h : state.ReadFrom mode text ls) (stands : l.StandsIn text)
    (ok : Bracketed.step mode text state l = .ok next) : next.ReadFrom mode text (ls ++ [l]) := by
  cases h with
  | start =>
    by_cases opening : l.text = ['(']
    · simp only [Bracketed.step, if_pos opening, Except.ok.injEq] at ok
      exact ok ▸ .within (.cons .nil (.opened opening))
    · cases hl : leaf? l.text with
      | some e =>
        simp only [Bracketed.step, if_neg opening, hl, Except.ok.injEq] at ok
        exact ok ▸ .finished (spells_of_leaf? hl)
      | none => simp [Bracketed.step, opening, hl] at ok
  | finished spelled => simp [Bracketed.step] at ok
  | @within group outer ls groups =>
    by_cases opening : l.text = ['(']
    · simp only [Bracketed.step, if_pos opening, Except.ok.injEq] at ok
      exact ok ▸ .within (.cons groups (.opened opening))
    by_cases closing : l.text = [')']
    · simp only [Bracketed.step, if_neg opening, if_pos closing] at ok
      cases hc : group.close mode l with
      | error r => simp [hc] at ok
      | ok e =>
        cases groups with
        | @cons _ _ before gls around inner =>
          cases outer with
          | nil =>
            cases around
            simp only [hc, Except.ok.injEq] at ok
            exact ok ▸ .finished (by simpa using inner.spells_close closing hc)
          | cons enclosing outer =>
            simp only [hc] at ok
            rw [List.append_assoc]
            exact .placed around (inner.operand closing hc) ok
    · rw [step_element opening closing] at ok
      exact .placed groups (.ofLexeme stands opening closing) ok

/-- A run keeps the words that its state has been read from. -/
theorem State.ReadFrom.run {state next : State} {read ls : List Excerpt}
    (h : state.ReadFrom mode text read) (stands : ∀ l ∈ ls, l.StandsIn text)
    (ok : Bracketed.run mode text state ls = .ok next) : next.ReadFrom mode text (read ++ ls) := by
  induction ls generalizing state read with
  | nil =>
    cases ok
    simpa using h
  | cons l ls ih =>
    rw [run_cons] at ok
    cases hs : Bracketed.step mode text state l with
    | error r => simp [hs, Except.bind] at ok
    | ok middle =>
      rw [hs] at ok
      have rest := ih (h.step (stands l List.mem_cons_self) hs)
        (fun m hm => stands m (List.mem_cons_of_mem _ hm)) ok
      rwa [List.append_assoc] at rest

end Bracketed

open Bracketed

theorem parseBracketed_eq (mode : Mode) (text : List Char) :
    parseBracketed mode text =
      (run mode text .start (lexemes text)).bind (finish text.length) := rfl

/-- A text whose tokens spell an expression is read as this expression. -/
theorem parseBracketed_of_spells {e : Expr} (h : Spells mode e (tokens text)) :
    parseBracketed mode text = .ok e := by
  rw [parseBracketed_eq, run_start h]
  rfl

/-- The tokens of a text spell the expression that the text is read as. -/
theorem spells_of_parseBracketed {e : Expr} (h : parseBracketed mode text = .ok e) :
    Spells mode e (tokens text) := by
  rw [parseBracketed_eq] at h
  cases hr : run mode text .start (lexemes text) with
  | error r => simp [hr, Except.bind] at h
  | ok state =>
    have read := State.ReadFrom.start.run (fun l hl => standsIn_of_mem_lexemes hl) hr
    rw [hr] at h
    obtain rfl : state = .finished e := by
      cases state with
      | start => cases h
      | within group outer => cases h
      | finished f =>
        cases h
        rfl
    exact read.spells

/-- Tokens spell at most one expression: the reader finds it. -/
theorem Spells.unique {e f : Expr} {words : List (List Char)} (he : Spells mode e words)
    (hf : Spells mode f words) : e = f := by
  let ls : List Excerpt := words.map fun w => ⟨w, 0⟩
  have hls : ls.map Excerpt.text = words := by simp [ls, Function.comp_def]
  have read : run mode [] .start ls = .ok (.finished e) := run_start (hls ▸ he)
  rw [run_start (hls ▸ hf)] at read
  cases read
  rfl

/-- A text is accepted exactly when its tokens spell an expression, which is the answer; and no
tokens spell two expressions. -/
theorem parseBracketed_eq_ok_iff (mode : Mode) :
    (∀ (text : List Char) (e : Expr),
      parseBracketed mode text = .ok e ↔ Spells mode e (tokens text)) ∧
    ∀ words : List (List Char), {e | Spells mode e words}.Subsingleton :=
  ⟨fun _ _ => ⟨spells_of_parseBracketed, parseBracketed_of_spells⟩,
    fun _ _ he _ hf => Spells.unique he hf⟩

end ExprCalculus

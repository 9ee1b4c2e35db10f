import ExprCalculus.Parse.CheckedStack
import ExprCalculus.Proofs.TokenStream

/-!
# A counter decides what a stack does

Whether a bracket-free text is read, and where it goes wrong if not, does not depend on the
expressions that are put on the stack, but on how many there are. A counter of them is run over the
words: an operand adds one, an operation with a fixed number of operands needs that many and leaves
one in their place, and an operation that takes the whole stack leaves one. The first word that is
unknown, or that needs more than the counter shows, decides how the text is rejected.

Nothing else goes wrong: reading with every check that is made on the way has the same outcome.
-/

namespace ExprCalculus

/-! ## The counter -/

/-- The word is a variable, the symbol of an operation or a number. -/
def Known (word : List Char) : Prop :=
  (∃ v : Variable, word = v.name) ∨ (∃ op : Op, word = op.symbol) ∨
    ∃ value, number? word = some value

/-- The counter after a word. -/
def depthAfter (depth : Nat) (word : List Char) : Nat :=
  match Op.ofSymbol? word with
  | none => depth + 1
  | some op =>
    match op.arity with
    | none => 1
    | some n => depth - n + 1

/-- The counter after words, from zero. -/
def stackDepth (words : List (List Char)) : Nat := words.foldl depthAfter 0

/-- How a word goes wrong at a depth: it is unknown, or it is the symbol of an operation with a
fixed number of operands, and there are fewer. -/
inductive Offends (depth : Nat) : List Char → StackFault → Prop where
  | unknown {word : List Char} (unknown : ¬ Known word) : Offends depth word (.unknownWord word)
  | few {op : Op} {n : Nat} (arity : op.arity = some n) (few : depth < n) :
      Offends depth op.symbol .underflow

/-- No word goes wrong at the depth that the words before it lead to. -/
def NoneOffends (words : List (List Char)) : Prop :=
  ∀ before word after, words = before ++ word :: after →
    ∀ fault, ¬ Offends (stackDepth before) word fault

/-- At a symbol the counter makes the operands one expression. -/
theorem depthAfter_symbol (depth : Nat) (op : Op) :
    depthAfter depth op.symbol = match op.arity with
      | none => 1
      | some n => depth - n + 1 := by
  rw [depthAfter, Op.ofSymbol?_symbol]

/-- No word goes wrong if all are known and every operation with a fixed number of operands finds
them. -/
theorem noneOffends_iff_known_and_enough {words : List (List Char)} :
    NoneOffends words ↔ (∀ word ∈ words, Known word) ∧
      ∀ before (op : Op) after n, words = before ++ op.symbol :: after → op.arity = some n →
        n ≤ stackDepth before := by
  constructor
  · intro h
    constructor
    · intro word mem
      obtain ⟨before, after, split⟩ := List.append_of_mem mem
      by_contra unknown
      exact h before word after split _ (.unknown unknown)
    · intro before op after n split arity
      by_contra few
      exact h before op.symbol after split _ (.few arity (not_le.mp few))
  · rintro ⟨known, enough⟩ before word after split fault offends
    cases offends with
    | unknown unknown => exact unknown (known word (by simp [split]))
    | few arity few => exact absurd (enough before _ after _ split arity) (not_le.mpr few)

/-! ## One word -/

/-- The counter counts what is on the stack. -/
theorem Pushed.length_eq {stack after : List Expr} {word : List Char}
    (h : Pushed stack word after) : after.length = depthAfter stack.length word := by
  cases h with
  | var v => rw [depthAfter, ofSymbol?_name, List.length_cons]
  | const number => rw [depthAfter, ofSymbol?_of_number? number, List.length_cons]
  | @app op operands below count whole =>
    rw [depthAfter_symbol]
    unfold Op.accepts at count
    unfold Op.isVariadic at whole
    cases arity : op.arity with
    | none =>
      rw [arity] at whole
      rw [whole rfl]
      rfl
    | some n =>
      rw [arity] at count
      have exact : n = operands.length := by simpa using count
      simp [exact]

/-- An operation underflows exactly on a stack that is shorter than its arity. -/
theorem applyToStack_eq_error_iff {op : Op} {stack : List Expr} {fault : StackFault} :
    applyToStack op stack = .error fault ↔
      fault = .underflow ∧ ∃ n, op.arity = some n ∧ stack.length < n := by
  simp only [applyToStack]
  cases op.arity with
  | none => simp
  | some n =>
    simp only [Option.getD_some, Option.some.injEq, exists_eq_left']
    split
    · rename_i enough
      exact iff_of_false (by simp) fun few => absurd few.2 (not_lt.mpr enough)
    · rename_i few
      rw [Except.error.injEq, eq_comm]
      exact (and_iff_left (not_le.mp few)).symm

/-- A word is refused by a stack exactly when it goes wrong at its depth. -/
theorem pushWord_eq_error_iff {stack : List Expr} {word : List Char} {fault : StackFault} :
    pushWord stack word = .error fault ↔ Offends stack.length word fault := by
  constructor
  · intro h
    unfold pushWord at h
    split at h
    · cases h
    · rename_i op _ symbol
      obtain ⟨rfl, n, arity, few⟩ := applyToStack_eq_error_iff.mp h
      rw [Op.ofSymbol?_eq_some_iff.mp symbol]
      exact .few arity few
    · cases h
    · rename_i no_name no_symbol no_number
      cases h
      refine .unknown ?_
      rintro (⟨v, rfl⟩ | ⟨op, rfl⟩ | ⟨value, number⟩)
      · rw [Variable.ofName?_name] at no_name
        cases no_name
      · rw [Op.ofSymbol?_symbol] at no_symbol
        cases no_symbol
      · rw [no_number] at number
        cases number
  · intro h
    cases h with
    | unknown unknown =>
      cases pushed : pushWord stack word with
      | ok after =>
        refine absurd ?_ unknown
        cases pushWord_eq_ok_iff.mp pushed with
        | var v => exact .inl ⟨v, rfl⟩
        | const number => exact .inr (.inr ⟨_, number⟩)
        | @app op => exact .inr (.inl ⟨op, rfl⟩)
      | error fault =>
        unfold pushWord at pushed
        split at pushed
        · cases pushed
        · rename_i op _ symbol
          exact absurd (.inr (.inl ⟨op, Op.ofSymbol?_eq_some_iff.mp symbol⟩)) unknown
        · cases pushed
        · exact pushed.symm
    | @few op n arity few =>
      rw [pushWord_symbol]
      exact applyToStack_eq_error_iff.mpr ⟨rfl, n, arity, few⟩

/-! ## Many words -/

/-- A run over words breaks off at the first one that the stack refuses. -/
theorem pushWords_eq_error_iff_refused {stack : List Expr} {words : List (List Char)}
    {fault : StackFault} : pushWords stack words = .error fault ↔
      ∃ before word after middle, words = before ++ word :: after ∧
        pushWords stack before = .ok middle ∧ pushWord middle word = .error fault := by
  constructor
  · intro h
    induction words generalizing stack with
    | nil => cases h
    | cons word words ih =>
      rw [pushWords, List.foldlM_cons] at h
      cases pushed : pushWord stack word with
      | error refused =>
        rw [pushed] at h
        cases h
        exact ⟨[], word, words, stack, rfl, rfl, pushed⟩
      | ok next =>
        rw [pushed] at h
        obtain ⟨before, w, after, middle, rfl, run, refused⟩ := ih h
        refine ⟨word :: before, w, after, middle, rfl, ?_, refused⟩
        rw [pushWords, List.foldlM_cons, pushed]
        exact run
  · rintro ⟨before, word, after, middle, rfl, run, refused⟩
    have split : pushWords stack (before ++ word :: after) =
        (pushWords stack before).bind fun middle => pushWords middle (word :: after) :=
      List.foldlM_append
    rw [split, run]
    simp only [Except.bind, pushWords, List.foldlM_cons, refused]
    rfl

/-- The counter counts what is on the stack after words, too. -/
theorem length_of_pushWords {stack after : List Expr} {words : List (List Char)}
    (h : pushWords stack words = .ok after) :
    after.length = words.foldl depthAfter stack.length := by
  induction words generalizing stack with
  | nil =>
    cases h
    rfl
  | cons word words ih =>
    rw [pushWords, List.foldlM_cons] at h
    obtain ⟨next, pushed, rest⟩ := exists_ok_of_bind_eq_ok h
    rw [ih rest, (pushWord_eq_ok_iff.mp pushed).length_eq, List.foldl_cons]

/-- Words are all taken exactly when none of them goes wrong. -/
theorem exists_pushWords_iff {words : List (List Char)} :
    (∃ stack, pushWords [] words = .ok stack) ↔ NoneOffends words := by
  constructor
  · rintro ⟨stack, run⟩ before word after rfl fault offends
    obtain ⟨middle, first, rest⟩ := pushWords_append_eq_ok_iff.mp run
    rw [pushWords, List.foldlM_cons] at rest
    obtain ⟨next, pushed, -⟩ := exists_ok_of_bind_eq_ok rest
    have depth : middle.length = stackDepth before := length_of_pushWords first
    rw [← depth, ← pushWord_eq_error_iff, pushed] at offends
    cases offends
  · intro none
    cases run : pushWords [] words with
    | ok stack => exact ⟨stack, rfl⟩
    | error fault =>
      obtain ⟨before, word, after, middle, split, first, refused⟩ :=
        pushWords_eq_error_iff_refused.mp run
      have depth : middle.length = stackDepth before := length_of_pushWords first
      rw [pushWord_eq_error_iff, depth] at refused
      exact absurd refused (none before word after split fault)

/-- The first word that goes wrong decides how. -/
theorem pushWords_eq_error_iff {words : List (List Char)} {fault : StackFault} :
    pushWords [] words = .error fault ↔
      ∃ before word after, words = before ++ word :: after ∧ NoneOffends before ∧
        Offends (stackDepth before) word fault := by
  rw [pushWords_eq_error_iff_refused]
  constructor
  · rintro ⟨before, word, after, middle, split, run, refused⟩
    have depth : middle.length = stackDepth before := length_of_pushWords run
    rw [pushWord_eq_error_iff, depth] at refused
    exact ⟨before, word, after, split, exists_pushWords_iff.mp ⟨middle, run⟩, refused⟩
  · rintro ⟨before, word, after, split, none, offends⟩
    obtain ⟨middle, run⟩ := exists_pushWords_iff.mpr none
    have depth : middle.length = stackDepth before := length_of_pushWords run
    rw [← depth, ← pushWord_eq_error_iff] at offends
    exact ⟨before, word, after, middle, split, run, offends⟩

/-- A text is rejected if a word is refused, or if nothing is left on the stack. -/
theorem parseStack_eq_error_iff {text : List Char} {fault : StackFault} :
    parseStack text = .error fault ↔
      pushWords [] (words text) = .error fault ∨
        pushWords [] (words text) = .ok [] ∧ fault = .underflow := by
  have run : parseStack text = (pushWords [] (words text)).bind topOfStack := rfl
  rw [run]
  cases pushWords [] (words text) with
  | error refused => simp [Except.bind]
  | ok stack => cases stack <;> simp [Except.bind, topOfStack, eq_comm]

/-- Words that have been taken leave nothing on the stack only if there are none. -/
theorem eq_nil_of_pushWords_eq_nil {words : List (List Char)}
    (h : pushWords [] words = .ok []) : words = [] := by
  have spelled := spellsFlatAll_of_pushWords h .nil
  exact spelled.eq_nil_iff.mp rfl

/-! ## With every check -/

/-- Taking expressions one by one takes the first so many, if there are so many. -/
theorem pop_eq (count : Nat) (stack : List Expr) : pop count stack =
    if count ≤ stack.length then .ok (stack.take count, stack.drop count)
    else .error (.stack .underflow) := by
  induction count generalizing stack with
  | zero => rw [if_pos (Nat.zero_le _)]; rfl
  | succ count ih =>
    cases stack with
    | nil => rfl
    | cons top below =>
      rw [pop, ih]
      by_cases enough : count ≤ below.length
      · have more : count + 1 ≤ (top :: below).length := Nat.succ_le_succ enough
        rw [if_pos enough, if_pos more]
        rfl
      · have fewer : ¬ count + 1 ≤ (top :: below).length := fun h =>
          enough (Nat.le_of_succ_le_succ h)
        rw [if_neg enough, if_neg fewer]
        rfl

/-- On an accepted number of operands none of the checks of a construction fails. -/
theorem construct_of_accepts {op : Op} {es : List Expr} (count : op.accepts es.length = true) :
    construct op es = .ok (.app op es) := by
  rw [construct, OpKey.assemble_inr, if_pos count]
  rfl

/-- The operands that are taken for an operation are as many as it accepts, so it is constructed. -/
theorem operate_eq (op : Op) (stack : List Expr) :
    operate op stack = (applyToStack op stack).mapError .stack := by
  simp only [operate, applyToStack, pop_eq]
  by_cases enough : op.arity.getD stack.length ≤ stack.length
  · have constructed := construct_of_accepts (Op.accepts_taken enough)
    simp only [if_pos enough, bind, Except.bind, constructed]
    rfl
  · rw [if_neg enough, if_neg enough]
    rfl

/-- With the checks a word does the same. -/
theorem takeWord_eq (stack : List Expr) (word : List Char) :
    takeWord stack word = (pushWord stack word).mapError .stack := by
  unfold takeWord pushWord
  cases Variable.ofName? word with
  | some v => rfl
  | none =>
    cases Op.ofSymbol? word with
    | some op => exact operate_eq op stack
    | none => cases number? word <;> rfl

/-- So do words one after another. -/
theorem foldlM_takeWord (stack : List Expr) (words : List (List Char)) :
    words.foldlM takeWord stack = (pushWords stack words).mapError .stack := by
  induction words generalizing stack with
  | nil => rfl
  | cons word words ih =>
    rw [List.foldlM_cons, takeWord_eq, pushWords, List.foldlM_cons]
    cases pushWord stack word with
    | error fault => rfl
    | ok next => exact ih next

/-- A text is read with the checks as it is without them. -/
theorem readStack_eq (text : List Char) :
    readStack text = (parseStack text).mapError .stack := by
  have run : parseStack text = (pushWords [] (words text)).bind topOfStack := rfl
  rw [readStack, foldlM_takeWord, run]
  cases pushWords [] (words text) with
  | error fault => rfl
  | ok stack => cases stack <;> rfl

/-! ## Whole texts -/

/-- A text is read exactly when it has words, all of them are known, and every operation with a
fixed number of operands has them by the counter; then the counter tells how many expressions there
are. It is rejected when it has no words, and else as the first word that goes wrong decides. With
every check that is made on the way the outcome is the same. -/
theorem parseStack_decided_by_depth (text : List Char) :
    ((∃ result, parseStack text = .ok result) ↔
      words text ≠ [] ∧ (∀ word ∈ words text, Known word) ∧
        ∀ before (op : Op) after n, words text = before ++ op.symbol :: after → op.arity = some n →
          n ≤ stackDepth before) ∧
    (∀ result, parseStack text = .ok result →
      result.unused.length + 1 = stackDepth (words text)) ∧
    (∀ fault, parseStack text = .error fault ↔
      words text = [] ∧ fault = .underflow ∨
        ∃ before word after, words text = before ++ word :: after ∧ NoneOffends before ∧
          Offends (stackDepth before) word fault) ∧
    readStack text = (parseStack text).mapError .stack := by
  refine ⟨?_, ?_, ?_, readStack_eq text⟩
  · rw [← noneOffends_iff_known_and_enough, ← exists_pushWords_iff]
    constructor
    · rintro ⟨⟨e, unused⟩, read⟩
      have run := parseStack_eq_ok_iff.mp read
      refine ⟨fun none => ?_, _, run⟩
      rw [none] at run
      cases run
    · rintro ⟨some, stack, run⟩
      cases stack with
      | nil => exact absurd (eq_nil_of_pushWords_eq_nil run) some
      | cons e unused => exact ⟨⟨e, unused⟩, parseStack_eq_ok_iff.mpr run⟩
  · rintro ⟨e, unused⟩ read
    exact length_of_pushWords (parseStack_eq_ok_iff.mp read)
  · intro fault
    rw [parseStack_eq_error_iff, pushWords_eq_error_iff, or_comm]
    refine or_congr_left (and_congr_left fun _ => ⟨eq_nil_of_pushWords_eq_nil, fun none => ?_⟩)
    rw [none, pushWords_nil]

/-- A bell curve that lacks operands comes before a word that is unknown, and decides; and a mean
takes all that is there, so that only what comes after it is left over. -/
theorem parseStack_decided_by_gauss_and_mean :
    let short := ['x', ' ', '1', ' ', 'g', 'a', 'u', 's', 's', ' ', 'u']
    let whole := ['x', ' ', '1', ' ', 'm', 'e', 'a', 'n', ' ', 'z']
    let mean : Expr := .app .mean [.var .x, .const (.ofDecimal false ⟨1, 0⟩)]
    parseStack short = .error .underflow ∧ readStack short = .error (.stack .underflow) ∧
      parseStack whole = .ok ⟨.var .z, [mean]⟩ ∧ stackDepth (words whole) = 2 ∧
      [mean].length + 1 = stackDepth (words whole) := by
  intro short whole mean
  have cut_short : words short = [['x'], ['1']] ++ Op.gauss.symbol :: [['u']] :=
    words_of_spaced rfl rfl
  have cut_whole : words whole = [['x'], ['1'], ['m', 'e', 'a', 'n'], ['z']] :=
    words_of_spaced rfl rfl
  have before : NoneOffends [['x'], ['1']] := exists_pushWords_iff.mp ⟨_, rfl⟩
  have decided := parseStack_decided_by_depth short
  have rejected : parseStack short = .error .underflow :=
    (decided.2.2.1 _).mpr (.inr ⟨_, _, _, cut_short, before, .few rfl (by decide)⟩)
  have checked := decided.2.2.2
  rw [rejected] at checked
  have read : parseStack whole = .ok ⟨.var .z, [mean]⟩ := by
    rw [parseStack_eq_ok_iff, cut_whole]
    rfl
  refine ⟨rejected, checked, read, ?_, (parseStack_decided_by_depth whole).2.1 _ read⟩
  rw [cut_whole]
  decide

end ExprCalculus

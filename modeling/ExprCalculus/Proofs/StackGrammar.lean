import Mathlib
import ExprCalculus.Expr.Render
import ExprCalculus.Parse.Stack
import ExprCalculus.Proofs.Literal
import ExprCalculus.Proofs.Wording

/-!
# What a stack reads

Words without brackets spell an expression when they name its operands one after another and then
its operation. An operation with a fixed number of operands finds them on top of the stack, whatever
lies below; one that takes the whole stack finds more than its operands as soon as something lies
below them. So the words of an expression put it on a stack exactly when the operations of the
second kind stand on its left spine, where nothing lies below, and on an empty stack.

The converse is the same induction read backwards: a run that ends with an expression on top has
ended with its operands on top one word earlier, so what lies below has been there from the start.
-/

namespace ExprCalculus

/-! ## The left spine -/

namespace Expr

/-- The part of an expression that a path of operand numbers leads to. -/
def at? : List Nat → Expr → Option Expr
  | [], e => some e
  | i :: path, e => e.operands[i]?.bind (at? path)

/-- No operation in the expression takes any number of operands. -/
def VariadicFree (e : Expr) : Prop :=
  ∀ path op es, at? path e = some (app op es) → op.isVariadic = false

/-- Every operation that takes any number of operands is reached from the root through first
operands alone. -/
def VariadicOnLeftSpine (e : Expr) : Prop :=
  ∀ path op es, at? path e = some (app op es) → op.isVariadic = true → ∀ i ∈ path, i = 0

theorem at?_of_operands_eq_nil {e : Expr} (h : e.operands = []) {path : List Nat} {f : Expr}
    (reached : at? path e = some f) : path = [] ∧ e = f := by
  cases path with
  | nil => exact ⟨rfl, Option.some.inj reached⟩
  | cons i path => simp [at?, h] at reached

theorem variadicFree_const (value : Double) : (const value).VariadicFree := by
  intro path op es reached
  cases (at?_of_operands_eq_nil rfl reached).2

theorem variadicFree_var (v : Variable) : (var v).VariadicFree := by
  intro path op es reached
  cases (at?_of_operands_eq_nil rfl reached).2

theorem VariadicFree.onLeftSpine {e : Expr} (h : e.VariadicFree) : e.VariadicOnLeftSpine := by
  intro path op es reached variadic
  rw [h path op es reached] at variadic
  cases variadic

theorem variadicFree_app {op : Op} {es : List Expr} :
    (app op es).VariadicFree ↔ op.isVariadic = false ∧ ∀ e ∈ es, e.VariadicFree := by
  constructor
  · intro h
    refine ⟨h [] op es rfl, fun e he path op' es' reached => ?_⟩
    obtain ⟨i, hi⟩ := List.mem_iff_getElem?.mp he
    exact h (i :: path) op' es' (by simp [at?, hi, reached])
  · rintro ⟨fixed, each⟩ path op' es' reached
    cases path with
    | nil =>
      cases reached
      exact fixed
    | cons i path =>
      obtain ⟨e, he, inner⟩ := Option.bind_eq_some_iff.mp reached
      exact each e (List.mem_of_getElem? he) path op' es' inner

theorem variadicOnLeftSpine_app_nil (op : Op) : (app op []).VariadicOnLeftSpine := by
  intro path op' es' reached variadic
  rw [(at?_of_operands_eq_nil rfl reached).1]
  exact nofun

/-- The left spine goes on into the first operand, and into no other. -/
theorem variadicOnLeftSpine_app_cons {op : Op} {e : Expr} {es : List Expr} :
    (app op (e :: es)).VariadicOnLeftSpine ↔ e.VariadicOnLeftSpine ∧ ∀ f ∈ es, f.VariadicFree := by
  constructor
  · intro h
    constructor
    · intro path op' es' reached variadic i hi
      exact h (0 :: path) op' es' reached variadic i (List.mem_cons_of_mem _ hi)
    · intro f hf path op' es' reached
      obtain ⟨i, hi⟩ := List.mem_iff_getElem?.mp hf
      by_contra variadic
      have inner : at? ((i + 1) :: path) (app op (e :: es)) = some (app op' es') := by
        simp [at?, hi, reached]
      have zero := h _ op' es' inner (by simpa using variadic) (i + 1) List.mem_cons_self
      omega
  · rintro ⟨first, others⟩ path op' es' reached variadic i hi
    cases path with
    | nil => cases hi
    | cons j path =>
      obtain ⟨f, hf, inner⟩ := Option.bind_eq_some_iff.mp reached
      cases j with
      | zero =>
        obtain rfl : e = f := Option.some.inj hf
        rcases List.mem_cons.mp hi with rfl | hi
        · rfl
        · exact first path op' es' inner variadic i hi
      | succ j =>
        have free := others f (List.mem_of_getElem? hf) path op' es' inner
        rw [free] at variadic
        cases variadic

/-- The expression may be put on the stack: where something lies below, no operation of it may take
the whole stack. -/
def FitsOn (e : Expr) (stack : List Expr) : Prop :=
  match stack with
  | [] => e.VariadicOnLeftSpine
  | _ :: _ => e.VariadicFree

/-- The expressions may be put on the stack, one on top of the other. -/
def AllFitOn : List Expr → List Expr → Prop
  | [], _ => True
  | e :: es, stack => e.FitsOn stack ∧ AllFitOn es (e :: stack)

theorem VariadicFree.fitsOn {e : Expr} (h : e.VariadicFree) (stack : List Expr) :
    e.FitsOn stack := by
  cases stack with
  | nil => exact h.onLeftSpine
  | cons top below => exact h

/-- On a stack that is not empty operands fit exactly if they are free of variadic operations. -/
theorem allFitOn_cons {es : List Expr} {top : Expr} {below : List Expr} :
    AllFitOn es (top :: below) ↔ ∀ e ∈ es, e.VariadicFree := by
  induction es generalizing top below with
  | nil => simp [AllFitOn]
  | cons e es ih => simp [AllFitOn, FitsOn, ih]

/-- An operation fits where its operands do, and on nothing if it takes the whole stack. -/
theorem fitsOn_app {op : Op} {es stack : List Expr} :
    (app op es).FitsOn stack ↔ AllFitOn es stack ∧ (op.isVariadic = true → stack = []) := by
  cases stack with
  | nil =>
    cases es with
    | nil => simp [FitsOn, AllFitOn, variadicOnLeftSpine_app_nil]
    | cons e es => simp [FitsOn, AllFitOn, variadicOnLeftSpine_app_cons, allFitOn_cons]
  | cons top below =>
    rw [allFitOn_cons, FitsOn, variadicFree_app, and_comm]
    simp

end Expr

/-! ## Spellings without brackets -/

mutual

/-- The words spell the expression without brackets: operands, then symbol. -/
inductive SpellsFlat : Expr → List (List Char) → Prop where
  | const {word : List Char} {value : Double} (number : number? word = some value) :
      SpellsFlat (.const value) [word]
  | var (v : Variable) : SpellsFlat (.var v) [v.name]
  | app {op : Op} {es : List Expr} {words : List (List Char)}
      (count : op.accepts es.length = true) (operands : SpellsFlatAll es words) :
      SpellsFlat (.app op es) (words ++ [op.symbol])

/-- The words spell the expressions one after another. -/
inductive SpellsFlatAll : List Expr → List (List Char) → Prop where
  | nil : SpellsFlatAll [] []
  | cons {e : Expr} {es : List Expr} {words rest : List (List Char)} (head : SpellsFlat e words)
      (tail : SpellsFlatAll es rest) : SpellsFlatAll (e :: es) (words ++ rest)

end

/-! ## One word -/

theorem number?_symbol (op : Op) : number? op.symbol = none := by
  cases op <;> rfl

theorem number?_name (v : Variable) : number? v.name = none := by
  cases v <;> rfl

theorem ofName?_symbol (op : Op) : Variable.ofName? op.symbol = none := by
  cases op <;> rfl

theorem ofSymbol?_name (v : Variable) : Op.ofSymbol? v.name = none := by
  cases v <;> rfl

/-- No word is both a number and a name. -/
theorem ofName?_of_number? {word : List Char} {value : Double} (h : number? word = some value) :
    Variable.ofName? word = none := by
  rw [Option.eq_none_iff_forall_ne_some]
  intro v hv
  rw [Variable.ofName?_eq_some_iff.mp hv, number?_name] at h
  cases h

theorem ofSymbol?_of_number? {word : List Char} {value : Double} (h : number? word = some value) :
    Op.ofSymbol? word = none := by
  rw [Option.eq_none_iff_forall_ne_some]
  intro op hop
  rw [Op.ofSymbol?_eq_some_iff.mp hop, number?_symbol] at h
  cases h

theorem pushWord_name (stack : List Expr) (v : Variable) :
    pushWord stack v.name = .ok (.var v :: stack) := by
  rw [pushWord, Variable.ofName?_name]

theorem pushWord_symbol (stack : List Expr) (op : Op) :
    pushWord stack op.symbol = applyToStack op stack := by
  rw [pushWord, ofName?_symbol, Op.ofSymbol?_symbol]

/-- A number word is neither a name nor a symbol, so it is read as a number. -/
theorem pushWord_number {word : List Char} {value : Double} (h : number? word = some value)
    (stack : List Expr) : pushWord stack word = .ok (.const value :: stack) := by
  rw [pushWord, ofName?_of_number? h, ofSymbol?_of_number? h, h]

/-- An operation ends on top of a stack exactly when its operands were on top and, if it takes the
whole stack, nothing below them. -/
theorem applyToStack_eq_ok_iff {op : Op} {es : List Expr} (count : op.accepts es.length = true)
    {before below : List Expr} : applyToStack op before = .ok (.app op es :: below) ↔
      before = es.reverse ++ below ∧ (op.isVariadic = true → below = []) := by
  unfold applyToStack Op.isVariadic
  unfold Op.accepts at count
  cases arity : op.arity with
  | none =>
    simp only [Option.getD_none, Nat.le_refl, if_true, List.take_length, List.drop_length,
      Except.ok.injEq, List.cons.injEq, Expr.app.injEq, true_and, Option.isNone_none, true_implies]
    constructor
    · rintro ⟨rfl, rfl⟩
      simp
    · rintro ⟨rfl, rfl⟩
      simp
  | some n =>
    rw [arity] at count
    obtain rfl : n = es.length := by simpa using count
    simp only [Option.getD_some, Option.isNone_some, Bool.false_eq_true, false_implies, and_true]
    constructor
    · intro h
      split at h
      · simp only [Except.ok.injEq, List.cons.injEq, Expr.app.injEq, true_and] at h
        rw [← h.1, ← h.2, List.reverse_reverse, List.take_append_drop]
      · cases h
    · rintro rfl
      simp

/-! ## Many words -/

/-- The stack after some words. -/
def pushWords (stack : List Expr) (words : List (List Char)) : Except StackFault (List Expr) :=
  words.foldlM pushWord stack

@[simp] theorem pushWords_nil (stack : List Expr) : pushWords stack [] = .ok stack := rfl

theorem pushWords_singleton (stack : List Expr) (word : List Char) :
    pushWords stack [word] = pushWord stack word := by
  cases h : pushWord stack word <;> simp [pushWords, h, bind, Except.bind, pure, Except.pure]

theorem pushWords_append_eq_ok_iff {stack after : List Expr} {as bs : List (List Char)} :
    pushWords stack (as ++ bs) = .ok after ↔
      ∃ middle, pushWords stack as = .ok middle ∧ pushWords middle bs = .ok after := by
  have split : pushWords stack (as ++ bs) =
      (pushWords stack as).bind fun middle => pushWords middle bs := List.foldlM_append
  rw [split]
  cases pushWords stack as <;> simp [Except.bind]

/-- The words leave the expression on top of a stack exactly when that stack was there before and
the expression fits on it. -/
def PushedOnlyWhereItFits (e : Expr) : Prop :=
  ∀ {words : List (List Char)}, SpellsFlat e words → ∀ {before below : List Expr},
    pushWords before words = .ok (e :: below) ↔ before = below ∧ e.FitsOn below

/-- The words of operands push these operands exactly where each of them fits. -/
theorem pushWords_spellsFlatAll {es : List Expr} (each : ∀ e ∈ es, PushedOnlyWhereItFits e)
    {words : List (List Char)} (h : SpellsFlatAll es words) {before below : List Expr} :
    pushWords before words = .ok (es.reverse ++ below) ↔
      before = below ∧ Expr.AllFitOn es below := by
  induction es generalizing words before below with
  | nil =>
    cases h
    simp [Expr.AllFitOn]
  | cons e es ih =>
    cases h with
    | @cons _ _ words rest head tail =>
      have others : ∀ f ∈ es, PushedOnlyWhereItFits f := fun f hf =>
        each f (List.mem_cons_of_mem _ hf)
      have order : (e :: es).reverse ++ below = es.reverse ++ e :: below := by simp
      rw [pushWords_append_eq_ok_iff, order]
      constructor
      · rintro ⟨middle, first, last⟩
        obtain ⟨rfl, fit⟩ := (ih others tail).mp last
        obtain ⟨rfl, fits⟩ := (each e List.mem_cons_self head).mp first
        exact ⟨rfl, fits, fit⟩
      · rintro ⟨rfl, fits, fit⟩
        exact ⟨e :: before, (each e List.mem_cons_self head).mpr ⟨rfl, fits⟩,
          (ih others tail).mpr ⟨rfl, fit⟩⟩

/-- The words of an expression push it exactly on the stacks where it fits. -/
theorem pushedOnlyWhereItFits (e : Expr) : PushedOnlyWhereItFits e := by
  induction e with
  | const value =>
    intro words h before below
    cases h with
    | const number =>
      rw [pushWords_singleton, pushWord_number number]
      simpa using fun _ => (Expr.variadicFree_const value).fitsOn below
  | var v =>
    intro words h before below
    cases h
    rw [pushWords_singleton, pushWord_name]
    simpa using fun _ => (Expr.variadicFree_var v).fitsOn below
  | app op es ih =>
    intro words h before below
    cases h with
    | @app _ _ words count operands =>
      have read {before below : List Expr} : pushWords before words = .ok (es.reverse ++ below) ↔
          before = below ∧ Expr.AllFitOn es below := pushWords_spellsFlatAll ih operands
      rw [pushWords_append_eq_ok_iff, Expr.fitsOn_app]
      simp only [pushWords_singleton, pushWord_symbol, applyToStack_eq_ok_iff count]
      constructor
      · rintro ⟨middle, found, rfl, whole⟩
        obtain ⟨rfl, fit⟩ := read.mp found
        exact ⟨rfl, fit, whole⟩
      · rintro ⟨rfl, fit, whole⟩
        exact ⟨_, read.mpr ⟨rfl, fit⟩, rfl, whole⟩

/-! ## Whole texts -/

/-- The stack parser returns the top of the stack that its words leave behind. -/
theorem parseStack_eq_ok_iff {text : List Char} {e : Expr} {unused : List Expr} :
    parseStack text = .ok ⟨e, unused⟩ ↔ pushWords [] (words text) = .ok (e :: unused) := by
  have run : parseStack text = (pushWords [] (words text)).bind topOfStack := rfl
  rw [run]
  cases pushWords [] (words text) with
  | error fault => simp [Except.bind]
  | ok stack => cases stack <;> simp [Except.bind, topOfStack]

/-- A text whose words spell an expression is read as that expression exactly when its variadic
operations stand on the left spine, and then nothing else is left on the stack. -/
theorem parseStack_of_spellsFlat {text : List Char} {e : Expr} (h : SpellsFlat e (words text))
    {unused : List Expr} :
    parseStack text = .ok ⟨e, unused⟩ ↔ unused = [] ∧ e.VariadicOnLeftSpine := by
  rw [parseStack_eq_ok_iff, pushedOnlyWhereItFits e h]
  constructor
  · rintro ⟨rfl, fits⟩
    exact ⟨rfl, fits⟩
  · rintro ⟨rfl, spine⟩
    exact ⟨rfl, spine⟩

/-! ## Flat texts -/

theorem words_spaced (texts : List (List Char)) : words (spaced texts) = texts.flatMap words := by
  refine apply_spaced words_nil (fun w cs => ?_) texts
  have space : ∀ c ∈ (' ' :: cs).head?, isInk c = false := by
    rintro c ⟨⟩
    rfl
  rw [words_append space, words_blank rfl]

theorem isInk_of_isLiteralChar {c : Char} (h : isLiteralChar c = true) : isInk c = true := by
  obtain ⟨low, high, -⟩ := literalChar_bounds h
  exact isInk_of_bounds low (by omega)

theorem words_literal (value : Double) : words value.literal = [value.literal] :=
  words_of_word value.literal_ne_nil fun c hc =>
    isInk_of_isLiteralChar (value.isLiteralChar_of_mem_literal c hc)

theorem words_name (v : Variable) : words v.name = [v.name] := by
  cases v <;> exact words_of_word (List.cons_ne_nil _ _) (List.all_eq_true.mp rfl)

theorem words_symbol (op : Op) : words op.symbol = [op.symbol] := by
  cases op <;> exact words_of_word (List.cons_ne_nil _ _) (List.all_eq_true.mp rfl)

namespace Expr

theorem spellsFlatAll_map_flat {es : List Expr} (each : ∀ e ∈ es, SpellsFlat e (words e.flat)) :
    SpellsFlatAll es ((es.map flat).flatMap words) := by
  induction es with
  | nil => exact .nil
  | cons e es ih =>
    rw [List.map_cons, List.flatMap_cons]
    exact .cons (each e List.mem_cons_self) (ih fun f hf => each f (List.mem_cons_of_mem _ hf))

/-- The words of the flat text of a well-formed expression spell it. -/
theorem spellsFlat_flat {e : Expr} (h : e.WellFormed) : SpellsFlat e (words e.flat) := by
  induction e with
  | const value =>
    rw [flat_const, words_literal]
    exact .const value.number?_literal
  | var v =>
    rw [flat_var, words_name]
    exact .var v
  | app op es ih =>
    obtain ⟨count, each⟩ := wellFormed_app.mp h
    rw [flat_app, words_spaced, List.flatMap_append, List.flatMap_singleton, words_symbol]
    exact .app count (spellsFlatAll_map_flat fun f hf => ih f hf (each f hf))

end Expr

/-- The flat text of an expression is read back exactly when its variadic operations stand on the
left spine; so without such operations it always is, and no two expressions that have them on the
left spine share a flat text. -/
theorem parseStack_flat_eq_ok_iff :
    (∀ e : Expr, e.WellFormed →
      ((∃ unused, parseStack e.flat = .ok ⟨e, unused⟩) ↔ e.VariadicOnLeftSpine)) ∧
    (∀ e : Expr, e.WellFormed → e.VariadicFree → parseStack e.flat = .ok ⟨e, []⟩) ∧
    Set.InjOn Expr.flat {e | e.WellFormed ∧ e.VariadicOnLeftSpine} := by
  have reads {e : Expr} (h : e.WellFormed) {unused : List Expr} :
      parseStack e.flat = .ok ⟨e, unused⟩ ↔ unused = [] ∧ e.VariadicOnLeftSpine :=
    parseStack_of_spellsFlat (Expr.spellsFlat_flat h)
  refine ⟨fun e h => ?_, fun e h free => ?_, ?_⟩
  · constructor
    · rintro ⟨unused, read⟩
      exact ((reads h).mp read).2
    · intro spine
      exact ⟨[], (reads h).mpr ⟨rfl, spine⟩⟩
  · exact (reads h).mpr ⟨rfl, free.onLeftSpine⟩
  · rintro e ⟨he, spine_e⟩ f ⟨hf, spine_f⟩ same
    have read_e := (reads he).mpr ⟨rfl, spine_e⟩
    have read_f := (reads hf).mpr ⟨rfl, spine_f⟩
    rw [same, read_f] at read_e
    cases read_e
    rfl

/-- An empty mean in front of another operand is read back, and behind it is not. -/
theorem parseStack_flat_of_means :
    (∃ unused, parseStack (Expr.app .add [.app .mean [], .var .x]).flat =
      .ok ⟨.app .add [.app .mean [], .var .x], unused⟩) ∧
    ¬ ∃ unused, parseStack (Expr.app .add [.var .x, .app .mean []]).flat =
      .ok ⟨.app .add [.var .x, .app .mean []], unused⟩ := by
  have mean : (Expr.app .mean []).WellFormed := .app rfl nofun
  have front : (Expr.app .add [.app .mean [], .var .x]).WellFormed :=
    .app rfl (List.forall_mem_cons.mpr ⟨mean, by simpa using .var .x⟩)
  have behind : (Expr.app .add [.var .x, .app .mean []]).WellFormed :=
    .app rfl (List.forall_mem_cons.mpr ⟨.var .x, by simpa using mean⟩)
  refine ⟨(parseStack_flat_eq_ok_iff.1 _ front).mpr ?_, fun read => ?_⟩
  · rw [Expr.variadicOnLeftSpine_app_cons]
    exact ⟨Expr.variadicOnLeftSpine_app_nil .mean, by simpa using Expr.variadicFree_var .x⟩
  · have spine := (parseStack_flat_eq_ok_iff.1 _ behind).mp read
    have free := (Expr.variadicOnLeftSpine_app_cons.mp spine).2 _ List.mem_cons_self
    cases (Expr.variadicFree_app.mp free).1

end ExprCalculus

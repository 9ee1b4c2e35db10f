import ExprCalculus.Blueprint
import ExprCalculus.Proofs.Grammar
import ExprCalculus.Proofs.StackGrammar

/-!
# What is built is well-formed

An expression comes from a bracketed text, from a bracket-free text or from a node constructor, and
each of the three counts the operands of an operation before it makes a node. A bracketed text
spells the expression, and only well-formed ones are spelled. A stack that holds well-formed
expressions holds such after every word. A constructor takes what has been built before it.
-/

namespace ExprCalculus

/-- A computation in two steps succeeds only if both do. -/
theorem exists_ok_of_bind_eq_ok {ε α β : Type} {x : Except ε α} {f : α → Except ε β} {b : β}
    (h : (x >>= f) = .ok b) : ∃ a, x = .ok a ∧ f a = .ok b := by
  cases x with
  | error fault => cases h
  | ok a => exact ⟨a, rfl, h⟩

/-! ## Texts -/

/-- What a bracketed text denotes is spelled by its tokens, and only well-formed expressions are. -/
theorem wellFormed_of_parseBracketed {mode : Mode} {text : List Char} {e : Expr}
    (h : parseBracketed mode text = .ok e) : e.WellFormed :=
  (spells_of_parseBracketed h).wellFormed

/-- An operation accepts as many operands as are taken from the stack for it. -/
theorem Op.accepts_arity_getD (op : Op) (n : Nat) : op.accepts (op.arity.getD n) = true := by
  cases op <;> simp [Op.accepts, Op.arity]

/-- The operands that an operation finds on a stack are as many as it accepts. -/
theorem Op.accepts_taken {α : Type} {op : Op} {stack : List α}
    (enough : op.arity.getD stack.length ≤ stack.length) :
    op.accepts (stack.take (op.arity.getD stack.length)).reverse.length = true := by
  rw [List.length_reverse, List.length_take, Nat.min_eq_left enough]
  exact op.accepts_arity_getD _

/-- An operation takes operands of an accepted number, and leaves the rest of the stack alone. -/
theorem wellFormed_of_applyToStack {op : Op} {stack after : List Expr}
    (formed : ∀ e ∈ stack, e.WellFormed) (h : applyToStack op stack = .ok after) :
    ∀ e ∈ after, e.WellFormed := by
  simp only [applyToStack] at h
  split at h
  · rename_i enough
    cases h
    intro e he
    rcases List.mem_cons.mp he with rfl | below
    · exact .app (Op.accepts_taken enough) fun f hf =>
        formed f (List.mem_of_mem_take (List.mem_reverse.mp hf))
    · exact formed e (List.mem_of_mem_drop below)
  · cases h

/-- A word pushes a well-formed expression on a stack of well-formed ones. -/
theorem wellFormed_of_pushWord {word : List Char} {stack after : List Expr}
    (formed : ∀ e ∈ stack, e.WellFormed) (h : pushWord stack word = .ok after) :
    ∀ e ∈ after, e.WellFormed := by
  unfold pushWord at h
  split at h
  · cases h
    exact List.forall_mem_cons.mpr ⟨.var _, formed⟩
  · exact wellFormed_of_applyToStack formed h
  · cases h
    exact List.forall_mem_cons.mpr ⟨.const _, formed⟩
  · cases h

/-- So does one word after another. -/
theorem wellFormed_of_pushWords {words : List (List Char)} {stack after : List Expr}
    (formed : ∀ e ∈ stack, e.WellFormed) (h : pushWords stack words = .ok after) :
    ∀ e ∈ after, e.WellFormed := by
  induction words generalizing stack with
  | nil =>
    cases h
    exact formed
  | cons word words ih =>
    rw [pushWords, List.foldlM_cons] at h
    obtain ⟨middle, first, rest⟩ := exists_ok_of_bind_eq_ok h
    exact ih (wellFormed_of_pushWord formed first) rest

/-- What a bracket-free text denotes is well-formed. -/
theorem wellFormed_of_parseStack {text : List Char} {result : StackResult}
    (h : parseStack text = .ok result) : result.expr.WellFormed :=
  wellFormed_of_pushWords (by simp) (parseStack_eq_ok_iff.mp h) _ List.mem_cons_self

/-! ## Blueprints -/

/-- What is built is a well-formed expression, if it is an expression. -/
def Built.WellFormed (built : Built) : Prop := ∀ e, built = .inr e → e.WellFormed

/-- Built values that pass as operands are expressions, all of them. -/
theorem Built.eq_map_inr_of_mapM_operand {op : Op} {operands : List Built} {es : List Expr}
    (h : operands.mapM (Built.operand op) = .ok es) : operands = es.map .inr := by
  induction operands generalizing es with
  | nil =>
    cases h
    rfl
  | cons first rest ih =>
    rw [List.mapM_cons] at h
    obtain ⟨e, he, h⟩ := exists_ok_of_bind_eq_ok h
    obtain ⟨es', hes, h⟩ := exists_ok_of_bind_eq_ok h
    cases h
    cases first with
    | inl kind => cases he
    | inr e' =>
      cases he
      rw [ih hes, List.map_cons]

/-- An operation is assembled only from an accepted number of expressions. -/
theorem OpKey.wellFormed_of_assemble {key : OpKey} {operands : List Built} {built : Built}
    (each : ∀ operand ∈ operands, operand.WellFormed) (h : key.assemble operands = .ok built) :
    built.WellFormed := by
  obtain ⟨op, -, h⟩ := exists_ok_of_bind_eq_ok h
  split at h
  · rename_i count
    obtain ⟨es, hes, h⟩ := exists_ok_of_bind_eq_ok h
    cases h
    rintro e ⟨⟩
    rw [Built.eq_map_inr_of_mapM_operand hes] at each count
    refine .app (by rwa [List.length_map] at count) fun f hf => ?_
    exact each (.inr f) (List.mem_map_of_mem hf) f rfl
  · cases h

namespace Blueprint

variable {bound? : List Char → Option Expr}

mutual

/-- A blueprint is built into a well-formed expression if it is built into one, along the blueprint
and the list of its parts. -/
theorem wellFormed_of_build (named : ∀ word e, bound? word = some e → e.WellFormed) :
    ∀ {blueprint : Blueprint} {built : Built},
      blueprint.build bound? = .ok built → built.WellFormed
  | .bracketed mode text, built, h => by
    unfold build at h
    split at h
    · rename_i e read
      cases h
      rintro e ⟨⟩
      exact wellFormed_of_parseBracketed read
    · cases h
  | .flat text, built, h => by
    unfold build at h
    split at h
    · rename_i result read
      cases h
      rintro e ⟨⟩
      exact wellFormed_of_parseStack read
    · cases h
  | .const value, built, h => by
    cases h
    rintro e ⟨⟩
    exact .const value
  | .var word, built, h => by
    unfold build at h
    cases leaf : Variable.leaf word with
    | error fault =>
      rw [leaf] at h
      cases h
    | ok v =>
      rw [leaf] at h
      cases h
      rintro e ⟨⟩
      exact .var v
  | .app key operands, built, h => by
    unfold build at h
    obtain ⟨built, all, assembled⟩ := exists_ok_of_bind_eq_ok h
    exact OpKey.wellFormed_of_assemble (wellFormed_of_buildAll named all) assembled
  | .foreign kind, built, h => by
    cases h
    exact nofun
  | .ref word, built, h => by
    unfold build at h
    cases bound : bound? word with
    | none =>
      rw [bound] at h
      cases h
    | some f =>
      rw [bound] at h
      cases h
      rintro e ⟨⟩
      exact named word f bound

/-- The same of every part of a list of blueprints. -/
theorem wellFormed_of_buildAll (named : ∀ word e, bound? word = some e → e.WellFormed) :
    ∀ {blueprints : List Blueprint} {operands : List Built},
      buildAll bound? blueprints = .ok operands → ∀ built ∈ operands, built.WellFormed
  | [], operands, h => by
    cases h
    simp
  | blueprint :: blueprints, operands, h => by
    unfold buildAll at h
    obtain ⟨first, head, h⟩ := exists_ok_of_bind_eq_ok h
    obtain ⟨rest, tail, h⟩ := exists_ok_of_bind_eq_ok h
    cases h
    exact List.forall_mem_cons.mpr ⟨wellFormed_of_build named head, wellFormed_of_buildAll named tail⟩

end

/-- The expression that a blueprint describes is well-formed if the named ones are. -/
theorem wellFormed_of_expr (named : ∀ word e, bound? word = some e → e.WellFormed)
    {blueprint : Blueprint} {e : Expr} (h : blueprint.expr bound? = .ok e) : e.WellFormed := by
  obtain ⟨built, made, h⟩ := exists_ok_of_bind_eq_ok h
  cases built with
  | inl kind => cases h
  | inr f =>
    cases h
    exact wellFormed_of_build named made e rfl

end Blueprint

end ExprCalculus

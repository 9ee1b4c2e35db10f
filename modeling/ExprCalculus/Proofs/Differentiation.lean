import ExprCalculus.Differentiate
import ExprCalculus.Proofs.Construction
import ExprCalculus.Proofs.WellFormedness

/-!
# Differentiation with checked nodes does not fail

A tangent is computed when its value is differentiated without a fault and the result is its slope.
Each rule of `Tangent` keeps this: the nodes that the checked rule makes have as many operands as
their operations accept, and what it differentiates besides its operands is again the value of a
tangent made by these rules. So the square of a deviation and the exponent of a bell curve need no
argument of their own.
-/

namespace ExprCalculus

/-! ## Nodes -/

namespace Expr

/-- A node can be made of expressions whose number the operation accepts. -/
theorem node_of_accepts {op : Op} {es : List Expr} (h : op.accepts es.length = true) :
    node op es = pure ⟨.app op es, rfl⟩ := by
  have made : (OpKey.code op.code).assemble (es.map .inr) = .ok (.inr (.app op es)) := by
    rw [OpKey.assemble_inr, if_pos h]
  unfold node
  split <;> rename_i found <;> rw [made] at found <;> cases found
  rfl

theorem node_mean (es : List Expr) : node .mean es = pure ⟨.app .mean es, rfl⟩ :=
  node_of_accepts rfl

/-- Computations that all succeed succeed together. -/
theorem mapM_eq_pure {α β : Type} {f : α → Except Fault β} {g : α → β} {as : List α}
    (h : ∀ a ∈ as, f a = pure (g a)) : as.mapM f = pure (as.map g) := by
  induction as with
  | nil => rfl
  | cons a as ih =>
    have rest := ih fun b hb => h b (List.mem_cons_of_mem a hb)
    rw [List.mapM_cons, h a List.mem_cons_self, rest]
    rfl

/-- Knowing that the operands are operands does not change what is computed from them. -/
theorem mapM_attach {β : Type} (f : Expr → Except Fault β) (es : List Expr) :
    (es.attach.mapM fun e => f e.1) = es.mapM f := by
  conv_rhs => rw [← List.attach_map_subtype_val es, List.mapM_map]
  rfl

/-- The rule of the mean, without the proofs that keep it terminating. -/
theorem differentiate_mean (name : List Char) (es : List Expr) :
    (app .mean es).differentiate name =
      (do return ← node .mean (← es.mapM (differentiate name))) := by
  rw [differentiate, mapM_attach]

/-- The derivative of the square of an operand's deviation. -/
def squareSlope (name : List Char) (es : List Expr) (e : Expr) : Except Fault Expr := do
  let ⟨mean, _⟩ ← node .mean es
  let ⟨deviation, _⟩ ← node .subtract [e, mean]
  let ⟨square, _⟩ ← node .multiply [deviation, deviation]
  differentiate name square

/-- The rule of the variance, likewise. -/
theorem differentiate_var (name : List Char) (es : List Expr) :
    (app .var es).differentiate name =
      (do return ← node .mean (← es.mapM (squareSlope name es))) := by
  rw [differentiate, ← mapM_attach (squareSlope name es)]
  rfl

end Expr

/-! ## Rules -/

namespace Tangent

/-- Differentiating the value gives the slope. -/
def Computed (name : List Char) (t : Tangent) : Prop :=
  t.value.differentiate name = pure t.slope

namespace Computed

open ExprCalculus.Expr (differentiate node_of_accepts node_mean)

/- How many operands an operation accepts is computed. -/
attribute [local simp] Op.accepts Op.arity

variable {name : List Char} {f g : Tangent}

theorem const (value : Double) : (Tangent.const value).Computed name := by
  rw [Computed, Tangent.const, differentiate]

theorem var (v : Variable) : (Tangent.var name v).Computed name := by
  rw [Computed, Tangent.var, differentiate]

section rules

/- The rule of an operation is that of differentiation. -/
attribute [local simp] differentiate

theorem add (hf : f.Computed name) (hg : g.Computed name) : (Tangent.add f g).Computed name := by
  unfold Computed at *
  simp [Tangent.add, hf, hg, node_of_accepts]

theorem sub (hf : f.Computed name) (hg : g.Computed name) : (Tangent.sub f g).Computed name := by
  unfold Computed at *
  simp [Tangent.sub, hf, hg, node_of_accepts]

theorem mul (hf : f.Computed name) (hg : g.Computed name) : (Tangent.mul f g).Computed name := by
  unfold Computed at *
  simp [Tangent.mul, hf, hg, node_of_accepts]

theorem div (hf : f.Computed name) (hg : g.Computed name) : (Tangent.div f g).Computed name := by
  unfold Computed at *
  simp [Tangent.div, hf, hg, node_of_accepts]

theorem neg (hf : f.Computed name) : (Tangent.neg f).Computed name := by
  unfold Computed at *
  simp [Tangent.neg, hf, node_of_accepts]

theorem abs (hf : f.Computed name) : (Tangent.abs f).Computed name := by
  unfold Computed at *
  simp [Tangent.abs, hf, node_of_accepts]

theorem choose (c : Tangent) (hf : f.Computed name) (hg : g.Computed name) :
    (Tangent.choose c f g).Computed name := by
  unfold Computed at *
  simp [Tangent.choose, hf, hg, node_of_accepts]

end rules

theorem mean {fs : List Tangent} (each : ∀ f ∈ fs, f.Computed name) :
    (Tangent.mean fs).Computed name := by
  rw [Computed, Tangent.mean, Expr.differentiate_mean, List.mapM_map]
  have slopes : fs.mapM (differentiate name ∘ value) = pure (fs.map slope) :=
    Expr.mapM_eq_pure each
  rw [slopes, pure_bind, node_mean, pure_bind]

theorem squaredDeviation {fs : List Tangent} (each : ∀ f ∈ fs, f.Computed name)
    (hf : f.Computed name) : (Tangent.squaredDeviation fs f).Computed name :=
  (hf.sub (mean each)).mul (hf.sub (mean each))

/-- The square that the rule of variance makes of an operand is the value of a computed tangent. -/
theorem squareSlope {fs : List Tangent} (each : ∀ f ∈ fs, f.Computed name) (hf : f.Computed name) :
    Expr.squareSlope name (fs.map value) f.value = pure (Tangent.squaredDeviation fs f).slope := by
  refine Eq.trans ?_ (squaredDeviation each hf)
  simp [Expr.squareSlope, node_of_accepts, node_mean]
  rfl

theorem variance {fs : List Tangent} (each : ∀ f ∈ fs, f.Computed name) :
    (Tangent.variance fs).Computed name := by
  rw [Computed, Tangent.variance, Expr.differentiate_var, List.mapM_map]
  have slopes : fs.mapM (Expr.squareSlope name (fs.map value) ∘ value) =
      pure ((fs.map (Tangent.squaredDeviation fs)).map slope) := by
    rw [List.map_map]
    exact Expr.mapM_eq_pure fun f hf => squareSlope each (each f hf)
  rw [slopes, pure_bind, node_mean, pure_bind]
  rfl

theorem exponent {b c x : Tangent} (hb : b.Computed name) (hc : c.Computed name)
    (hx : x.Computed name) : (Tangent.exponent b c x).Computed name :=
  (((hx.sub hb).mul (hx.sub hb)).div ((hc.mul hc).mul (const _))).neg

theorem gauss {a b c x : Tangent} (ha : a.Computed name) (hb : b.Computed name)
    (hc : c.Computed name) (hx : x.Computed name) : (Tangent.gauss a b c x).Computed name := by
  have exponent : differentiate name (.app .negate [.app .divide [
      .app .multiply [.app .subtract [x.value, b.value], .app .subtract [x.value, b.value]],
      .app .multiply [.app .multiply [c.value, c.value], number 2]]]) =
        pure (Tangent.exponent b c x).slope := exponent hb hc hx
  unfold Computed at ha
  rw [Computed, Tangent.gauss, differentiate]
  simp [node_of_accepts, ha, exponent]

/-- The rule of an operation that accepts its operands applies, and the checked rule computes it. -/
theorem exists_ofOp? {op : Op} {fs : List Tangent} (count : op.accepts fs.length = true)
    (each : ∀ f ∈ fs, f.Computed name) : ∃ t, ofOp? op fs = some t ∧ t.Computed name := by
  cases Op.applied_of_accepts count with
  | add f g => exact ⟨_, rfl, .add (each f (by simp)) (each g (by simp))⟩
  | subtract f g => exact ⟨_, rfl, .sub (each f (by simp)) (each g (by simp))⟩
  | multiply f g => exact ⟨_, rfl, .mul (each f (by simp)) (each g (by simp))⟩
  | divide f g => exact ⟨_, rfl, .div (each f (by simp)) (each g (by simp))⟩
  | negate f => exact ⟨_, rfl, .neg (each f (by simp))⟩
  | abs f => exact ⟨_, rfl, .abs (each f (by simp))⟩
  | iff c f g => exact ⟨_, rfl, .choose c (each f (by simp)) (each g (by simp))⟩
  | mean => exact ⟨_, rfl, .mean each⟩
  | var => exact ⟨_, rfl, .variance each⟩
  | gauss a b c x =>
    exact ⟨_, rfl, .gauss (each a (by simp)) (each b (by simp)) (each c (by simp))
      (each x (by simp))⟩

end Computed

/-- A well-formed expression is differentiated with all checks as it is without. -/
theorem exists_ofExpr?_computed (name : List Char) {e : Expr} (h : e.WellFormed) :
    ∃ t, ofExpr? name e = some t ∧ t.Computed name :=
  exists_ofExpr?_of_rules .const .var Computed.exists_ofOp? h

end Tangent

/-! ## Derivatives -/

namespace Expr

namespace WellFormed

variable {e : Expr}

/-- One differentiation of a well-formed expression. -/
theorem differentiate (h : e.WellFormed) (name : List Char) :
    ∃ d, e.differentiate name = .ok d ∧ e.diff? name = some d ∧ d.WellFormed := by
  obtain ⟨t, ht, computed⟩ := Tangent.exists_ofExpr?_computed name h
  have derivative : e.diff? name = some t.slope := by rw [diff?, ht, Option.map_some]
  refine ⟨t.slope, ?_, derivative, h.of_diff? derivative⟩
  rw [← Tangent.value_of_ofExpr? ht]
  exact computed

/-- Any number of differentiations of a well-formed expression: none of them fails. -/
theorem differentiateAll (h : e.WellFormed) (names : List (List Char)) :
    ∃ d, e.differentiateAll names = .ok d ∧ e.diffAll? names = some d ∧ d.WellFormed := by
  induction names generalizing e with
  | nil => exact ⟨e, rfl, rfl, h⟩
  | cons name names ih =>
    obtain ⟨d, hd, hd', formed⟩ := h.differentiate name
    obtain ⟨d', rest, rest', formed'⟩ := ih formed
    refine ⟨d', ?_, ?_, formed'⟩
    · rw [Expr.differentiateAll, List.foldlM_cons, hd]
      exact rest
    · rwa [diffAll?, List.foldlM_cons, hd', Option.bind_eq_bind, Option.bind_some]

end WellFormed

end Expr

/-- What is read or constructed is well-formed. A well-formed expression has a derivative with
respect to any names one after another: every node on the way is made and every rule finds its
operands, and what comes out is well-formed again. -/
theorem wellFormed_of_construction_and_differentiateAll :
    (∀ mode text e, parseBracketed mode text = .ok e → e.WellFormed) ∧
    (∀ text result, parseStack text = .ok result → result.expr.WellFormed) ∧
    (∀ (bound? : List Char → Option Expr) (blueprint : Blueprint) (e : Expr),
      (∀ word f, bound? word = some f → f.WellFormed) →
        blueprint.expr bound? = .ok e → e.WellFormed) ∧
    ∀ (e : Expr) (names : List (List Char)), e.WellFormed →
      ∃ d, e.differentiateAll names = .ok d ∧ e.diffAll? names = some d ∧ d.WellFormed :=
  ⟨fun _ _ _ => wellFormed_of_parseBracketed, fun _ _ => wellFormed_of_parseStack,
    fun _ _ _ named => Blueprint.wellFormed_of_expr named, fun _ names h => h.differentiateAll names⟩

/-- The mean of `x` in brackets, `x` alone, and a bell curve whose second derivative is taken, once
with respect to a name of no variable. -/
theorem wellFormed_of_construction_and_differentiateAll_gauss :
    (Expr.app .mean [.var .x]).WellFormed ∧ (Expr.var .x).WellFormed ∧
    ∃ d, (Expr.app .gauss [.var .x, .var .y, .var .z, .var .x]).differentiateAll [['x'], ['w']] =
      .ok d ∧ d.WellFormed := by
  obtain ⟨bracketed, flat, built, derived⟩ := wellFormed_of_construction_and_differentiateAll
  have tokens : tokens ['(', 'm', 'e', 'a', 'n', ' ', 'x', ')'] =
      [['('], ['m', 'e', 'a', 'n'], ['x'], [')']] := by
    have applied : lexemes ['(', 'm', 'e', 'a', 'n', ' ', 'x', ')'] =
        [⟨['('], 0⟩, ⟨['m', 'e', 'a', 'n'], 1⟩, ⟨['x'], 6⟩, ⟨[')'], 7⟩] :=
      Cursor.lexemes_eq_cons rfl <| Cursor.lexemes_eq_cons rfl <| Cursor.lexemes_eq_cons rfl <|
        Cursor.lexemes_eq_cons rfl <| Cursor.lexemes_of_next_none rfl
    rw [ExprCalculus.tokens, applied]
    rfl
  have mean : parseBracketed .pre ['(', 'm', 'e', 'a', 'n', ' ', 'x', ')'] =
      .ok (.app .mean [.var .x]) := by
    refine parseBracketed_of_spells ?_
    rw [tokens]
    exact .app rfl (.cons (.var .x) .nil)
  have alone : parseStack Variable.x.name = .ok ⟨.var .x, []⟩ := by
    have spelled : SpellsFlat (.var .x) (words Variable.x.name) := by
      rw [words_name]
      exact .var .x
    exact (parseStack_of_spellsFlat spelled).mpr
      ⟨rfl, (Expr.variadicFree_var .x).onLeftSpine⟩
  have bell : (Blueprint.app (.symbol Op.gauss.symbol)
      [.var ['x'], .ref ['b'], .var ['z'], .var ['x']]).expr
        (fun word => if word = ['b'] then some (.var .y) else none) =
      .ok (.app .gauss [.var .x, .var .y, .var .z, .var .x]) := rfl
  have named : ∀ (word : List Char) (f : Expr),
      (if word = ['b'] then some (.var .y) else none) = some f → f.WellFormed := by
    intro word f h
    split at h
    · cases h
      exact .var .y
    · cases h
  obtain ⟨d, hd, -, formed⟩ := derived _ [['x'], ['w']] (built _ _ _ named bell)
  exact ⟨bracketed _ _ _ mean, flat _ _ alone, d, hd, formed⟩

end ExprCalculus

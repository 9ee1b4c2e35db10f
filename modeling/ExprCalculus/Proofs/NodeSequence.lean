import Mathlib
import ExprCalculus.Proofs.BitPattern
import ExprCalculus.Proofs.Traversal

/-!
# The texts name the nodes in order

Every node of an expression has a label: its literal, its name or its symbol. A label stands alone
in every text, and a text puts labels together with spaces and brackets only. So the tokens of a
text that are no brackets are the labels of all nodes, in the order in which the text takes them: a
node before its operands or behind them. The two orders differ in where operations stand and not in
the order of the leaves.
-/

namespace ExprCalculus

/- Sums start from the core library's zero. -/
attribute [local instance (20000)] Zero.ofOfNat0

/-! ## Texts that are put together -/

/-- The tokens of a text that are no brackets. -/
def plainTokens (text : List Char) : List (List Char) :=
  (tokens text).filter fun w => !(w == ['('] || w == [')'])

/-- The tokens of a spaced text that are no brackets are those of its words. -/
theorem plainTokens_spaced (words : List (List Char)) :
    plainTokens (spaced words) = words.flatMap plainTokens := by
  rw [plainTokens, tokens_spaced, List.filter_flatMap]
  rfl

/-- The brackets around a group do not count among its plain tokens. -/
theorem plainTokens_group (body : List Char) :
    plainTokens ('(' :: (body ++ [')'])) = plainTokens body := by
  rw [plainTokens, tokens_group]
  simp [plainTokens]

/-- Deleting characters other than the space keeps a text spaced. -/
theorem filter_spaced {p : Char → Bool} (space : p ' ' = true) (words : List (List Char)) :
    (spaced words).filter p = spaced (words.map (List.filter p)) := by
  induction words with
  | nil => rfl
  | cons w ws ih =>
    cases ws with
    | nil => simp [spaced, List.intercalate_singleton]
    | cons v vs =>
      simp only [spaced, List.map_cons, List.intercalate_cons_cons, List.filter_append] at ih ⊢
      rw [ih, List.filter_singleton, space]
      rfl

/-- A character other than the space occurs as often as in the words. -/
theorem count_spaced {c : Char} (space : c ≠ ' ') (words : List (List Char)) :
    (spaced words).count c = (words.map (List.count c)).sum := by
  have each := apply_spaced (f := List.filter (· == c)) rfl
    (fun w cs => by simp [space.symm]) words
  rw [List.count_eq_length_filter, each, List.length_flatMap]
  exact congrArg List.sum (List.map_congr_left fun w _ => List.count_eq_length_filter.symm)

namespace Expr

/-! ## Labels -/

/-- What a node is called in a text. -/
def label : Expr → List Char
  | const value => value.literal
  | var v => v.name
  | app op _ => op.symbol

/-- The label of a node is one token of a bracketed text. -/
theorem tokens_label (e : Expr) : tokens e.label = [e.label] := by
  cases e with
  | const value => exact tokens_literal value
  | var v => exact tokens_name v
  | app op es => exact tokens_symbol op

/-- The label of a node is one word of a text without brackets. -/
theorem words_label (e : Expr) : words e.label = [e.label] := by
  cases e with
  | const value => exact words_literal value
  | var v => exact words_name v
  | app op es => exact words_symbol op

/-- No bracket stands in a label. -/
theorem isBracket_of_mem_label (e : Expr) : ∀ c ∈ e.label, isBracket c = false := by
  intro c hc
  cases e with
  | const value => exact (value.standsAlone_literal.plain c hc).2.1
  | var v =>
    have none : v.name.all (fun c => !isBracket c) = true := by cases v <;> rfl
    simpa using List.all_eq_true.mp none c hc
  | app op es =>
    have none : op.symbol.all (fun c => !isBracket c) = true := by cases op <;> rfl
    simpa using List.all_eq_true.mp none c hc

/-- A label is the only token in itself, and no bracket. -/
theorem plainTokens_label (e : Expr) : plainTokens e.label = [e.label] := by
  have differ {c : Char} (h : isBracket c = true) : e.label ≠ [c] := by
    intro same
    have := e.isBracket_of_mem_label c (by rw [same]; exact List.mem_singleton_self c)
    rw [h] at this
    cases this
  have opening : e.label ≠ ['('] := differ rfl
  have closing : e.label ≠ [')'] := differ rfl
  rw [plainTokens, tokens_label]
  simp [opening, closing]

theorem count_label {c : Char} (h : isBracket c = true) (e : Expr) : e.label.count c = 0 := by
  refine List.count_eq_zero.mpr fun hc => ?_
  rw [e.isBracket_of_mem_label c hc] at h
  cases h

/-- Read by itself, the label of a leaf is the leaf, and that of an operation is nothing. -/
theorem leaf?_label (e : Expr) : leaf? e.label = if e.op?.isNone then some e else none := by
  cases e with
  | const value => exact leaf?_of_number value.number?_literal
  | var v => exact leaf?_name v
  | app op es => exact leaf?_symbol op

/-! ## The nodes behind their operands -/

mutual

/-- The nodes of an expression, each behind its operands, from left to right. -/
def postorder : Expr → List Expr
  | .const value => [.const value]
  | .var v => [.var v]
  | .app op operands => postorderAll operands ++ [.app op operands]

/-- The nodes of several expressions, one expression after another. -/
def postorderAll : List Expr → List Expr
  | [] => []
  | e :: es => postorder e ++ postorderAll es

end

/-- The nodes of several expressions, operands first, are those of one after another. -/
theorem postorderAll_eq_flatMap (es : List Expr) : postorderAll es = es.flatMap postorder := by
  induction es with
  | nil => rfl
  | cons e es ih => rw [postorderAll, ih, List.flatMap_cons]

/-- A node comes behind everything below it. -/
theorem postorder_app (op : Op) (es : List Expr) :
    (app op es).postorder = es.flatMap postorder ++ [app op es] := by
  rw [postorder, postorderAll_eq_flatMap]

theorem preorder_app (op : Op) (es : List Expr) :
    (app op es).preorder = app op es :: es.flatMap preorder :=
  preorder_eq (app op es)

/-- The leaves, from left to right. -/
def leaves (e : Expr) : List Expr := e.preorder.filter fun f => f.op?.isNone

/-- Leaves come in the same order whether operands come first or last. -/
theorem filter_postorder (e : Expr) : (e.postorder.filter fun f => f.op?.isNone) = e.leaves := by
  induction e with
  | const value => rfl
  | var v => rfl
  | app op es ih =>
    have each := List.flatMap_congr ih
    have operation : [app op es].filter (fun f => f.op?.isNone) = [] := rfl
    rw [postorder_app, List.filter_append, List.filter_flatMap, each, operation, List.append_nil,
      leaves, preorder_app, List.filter_cons_of_neg Bool.false_ne_true, List.filter_flatMap]
    rfl

/-- Both orders have the same nodes. -/
theorem postorder_perm_preorder (e : Expr) : e.postorder.Perm e.preorder := by
  induction e with
  | const value => exact .refl _
  | var v => exact .refl _
  | app op es ih =>
    rw [postorder_app, preorder_app]
    have each : (es.flatMap postorder).Perm (es.flatMap preorder) := .flatMap_left es ih
    exact (List.perm_append_singleton _ _).trans (each.cons _)

/-! ## The labels of a text -/

variable {split : List Char → List (List Char)}

/-- However a text is cut, if a space cuts it and a label is one piece, the pieces of the flat text
are the labels of the nodes behind their operands. -/
theorem split_flat (spaces : ∀ words, split (spaced words) = words.flatMap split)
    (single : ∀ e : Expr, split e.label = [e.label]) (e : Expr) :
    split e.flat = e.postorder.map label := by
  induction e with
  | const value => exact single (.const value)
  | var v => exact single (.var v)
  | app op es ih =>
    have symbol : split op.symbol = [op.symbol] := single (.app op es)
    have each := List.flatMap_congr ih
    rw [flat_app, spaces, List.flatMap_append, List.flatMap_map, each, List.flatMap_singleton,
      symbol, postorder_app, List.map_append, List.map_flatMap]
    rfl

/-- The plain tokens of an operation are its symbol and those of its operands, in the order of the
mode. -/
theorem plainTokens_bracketed_app (mode : Mode) (op : Op) (es : List Expr) :
    plainTokens ((app op es).bracketed mode) =
      mode.order op.symbol (es.flatMap fun e => plainTokens (e.bracketed mode)) := by
  have symbol : plainTokens op.symbol = [op.symbol] := plainTokens_label (.app op es)
  rw [bracketed_app, plainTokens_group, plainTokens_spaced]
  cases mode with
  | pre => simp [Mode.order, symbol, List.flatMap_map]
  | post => simp [Mode.order, symbol, List.flatMap_map]

/-- With symbols in front the plain tokens label the nodes, each before its operands. -/
theorem plainTokens_bracketed_pre (e : Expr) :
    plainTokens (e.bracketed .pre) = e.preorder.map label := by
  induction e with
  | const value => exact plainTokens_label (.const value)
  | var v => exact plainTokens_label (.var v)
  | app op es ih =>
    rw [plainTokens_bracketed_app, List.flatMap_congr ih, preorder_app, List.map_cons,
      List.map_flatMap]
    rfl

/-- With symbols behind they label the nodes, operands first. -/
theorem plainTokens_bracketed_post (e : Expr) :
    plainTokens (e.bracketed .post) = e.postorder.map label := by
  induction e with
  | const value => exact plainTokens_label (.const value)
  | var v => exact plainTokens_label (.var v)
  | app op es ih =>
    rw [plainTokens_bracketed_app, List.flatMap_congr ih, postorder_app, List.map_append,
      List.map_flatMap]
    rfl

/-- The bracketed text without its brackets is the flat text. -/
theorem filter_bracketed_post (e : Expr) :
    ((e.bracketed .post).filter fun c => !isBracket c) = e.flat := by
  have whole (f : Expr) : (f.label.filter fun c => !isBracket c) = f.label := by
    refine List.filter_eq_self.mpr fun c hc => ?_
    rw [f.isBracket_of_mem_label c hc]
    rfl
  induction e with
  | const value => exact whole (.const value)
  | var v => exact whole (.var v)
  | app op es ih =>
    have symbol : (op.symbol.filter fun c => !isBracket c) = op.symbol := whole (.app op es)
    have each := List.map_congr_left ih
    have group (body : List Char) : (('(' :: (body ++ [')'])).filter fun c => !isBracket c) =
        body.filter fun c => !isBracket c := by
      simp [isBracket]
    rw [bracketed_app, group, filter_spaced rfl, Mode.order, List.map_append, List.map_map,
      List.map_singleton, symbol, flat_app]
    exact congrArg (fun texts => spaced (texts ++ [op.symbol])) each

/-! ## Brackets -/

/-- A bracketed text has a pair of brackets for each operation. -/
theorem count_bracketed {c : Char} (h : isBracket c = true) (mode : Mode) (e : Expr) :
    (e.bracketed mode).count c = (e.ofKind .app).length := by
  have space : c ≠ ' ' := by
    rintro rfl
    cases h
  have leaf (f : Expr) : f.label.count c = 0 := f.count_label h
  induction e with
  | const value => exact leaf (.const value)
  | var v => exact leaf (.var v)
  | app op es ih =>
    have symbol : op.symbol.count c = 0 := leaf (.app op es)
    have group (body : List Char) : ('(' :: (body ++ [')'])).count c = body.count c + 1 := by
      rcases isBracket_eq_true_iff.mp h with rfl | rfl
      · simp
      · simp
    have each : es.map (fun e => (e.bracketed mode).count c) =
        es.map fun e => (e.ofKind .app).length := List.map_congr_left ih
    have nodes : (app op es).ofKind .app = app op es :: es.flatMap (ofKind .app) := by
      rw [ofKind, preorder_app, List.filter_cons_of_pos rfl, List.filter_flatMap]
      rfl
    rw [bracketed_app, group, count_spaced space, nodes, List.length_cons, List.length_flatMap,
      ← each]
    cases mode with
    | pre => simp [Mode.order, symbol, Function.comp_def]
    | post => simp [Mode.order, symbol, Function.comp_def]

/-- The text has a token for every node besides its brackets, and the tokens that can be read by
themselves are the leaves from left to right. -/
structure Covers (e : Expr) (text : List Char) : Prop where
  length_eq : (plainTokens text).length = e.size
  leaves_eq : (plainTokens text).filterMap leaf? = e.leaves

/-- The labels that are expressions by themselves are those of leaves. -/
theorem filterMap_leaf?_label (es : List Expr) :
    (es.map label).filterMap leaf? = es.filter fun f => f.op?.isNone := by
  rw [List.filterMap_map, ← List.filterMap_eq_filter]
  refine List.filterMap_congr fun f _ => ?_
  rw [Function.comp_apply, leaf?_label]
  rfl

/-- The text with the symbols behind is the flat text with brackets. The bracketed text with the
symbols in front names the nodes in depth-first order, and the flat text names them behind their
operands, whichever way it is cut. A bracketed text of either kind has an opening and a closing
bracket for every operation and no others. Each of the three texts has as many other tokens as there
are nodes, and the leaves among them stand in one order in all three. -/
theorem texts_name_nodes (e : Expr) :
    (e.bracketed .post).filter (fun c => !isBracket c) = e.flat ∧
    plainTokens (e.bracketed .pre) = (e.nodes .depthFirst).map label ∧
    tokens e.flat = e.postorder.map label ∧ words e.flat = e.postorder.map label ∧
    (∀ mode, (e.bracketed mode).count '(' = (e.ofKind .app).length ∧
      (e.bracketed mode).count ')' = (e.ofKind .app).length) ∧
    e.Covers (e.bracketed .pre) ∧ e.Covers (e.bracketed .post) ∧ e.Covers e.flat := by
  have covers {text : List Char} {es : List Expr} (named : plainTokens text = es.map label)
      (all : es.Perm e.preorder) (order : (es.filter fun f => f.op?.isNone) = e.leaves) :
      e.Covers text := by
    constructor
    · rw [named, List.length_map, all.length_eq, length_preorder]
    · rw [named, filterMap_leaf?_label, order]
  have flat : plainTokens e.flat = e.postorder.map label :=
    split_flat plainTokens_spaced plainTokens_label e
  refine ⟨e.filter_bracketed_post, e.plainTokens_bracketed_pre, ?_, ?_, fun mode => ?_, ?_, ?_, ?_⟩
  · exact split_flat tokens_spaced tokens_label e
  · exact split_flat words_spaced words_label e
  · exact ⟨count_bracketed rfl mode e, count_bracketed rfl mode e⟩
  · exact covers e.plainTokens_bracketed_pre (.refl _) rfl
  · exact covers e.plainTokens_bracketed_post e.postorder_perm_preorder e.filter_postorder
  · exact covers flat e.postorder_perm_preorder e.filter_postorder

end Expr

end ExprCalculus

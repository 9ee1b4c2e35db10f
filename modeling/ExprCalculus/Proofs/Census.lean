import Mathlib
import ExprCalculus.Proofs.Dependence
import ExprCalculus.Proofs.NodeSequence

/-!
# A census of the nodes

Every node of an expression is a constant, a variable or an operation, and which of them it is can
be read off its label. So the finders divide the nodes among them: what they find adds up to all
nodes, and since a text consists of labels and brackets, each of them finds what stands in the text.
-/

namespace ExprCalculus

/- Sums start from the core library's zero. -/
attribute [local instance (20000)] Zero.ofOfNat0

/-- Among operations each is counted once. -/
theorem Op.sum_count (ops : List Op) : (all.map fun op => ops.count op).sum = ops.length := by
  induction ops with
  | nil => rfl
  | cons a ops ih =>
    have once : (all.map fun op => if a == op then 1 else 0).sum = 1 := by
      cases a <;> rfl
    simp only [List.count_cons, List.sum_map_add, ih, once, List.length_cons]

/-! ## Reading a list

What is read from an element determines the element. -/

section Reading

variable {α β : Type} [BEq α] [LawfulBEq α] [DecidableEq β] {read : α → Option β} {write : β → α}

/-- What is read from a list occurs there as often as it is written in the list. -/
theorem count_filterMap (inverse : ∀ a b, read a = some b ↔ a = write b) (as : List α) (b : β) :
    (as.filterMap read).count b = as.count (write b) := by
  rw [List.count, List.count, List.countP_filterMap]
  refine List.countP_congr fun a _ => ?_
  have written : a = write b ↔ read a = some b := (inverse a b).symm
  cases h : read a <;> simp [written, h]

/-- Both occur in the list, and the first occurrence of `a` comes before that of `b`. -/
def FirstBefore (as : List α) (a b : α) : Prop := a ∈ as ∧ b ∈ as ∧ as.idxOf a < as.idxOf b

variable {as : List α} {a b : α}

/-- What follows does not change which of two members comes first. -/
theorem FirstBefore.append (h : FirstBefore as a b) (bs : List α) :
    FirstBefore (as ++ bs) a b := by
  obtain ⟨ha, hb, lt⟩ := h
  refine ⟨List.mem_append_left _ ha, List.mem_append_left _ hb, ?_⟩
  rwa [List.idxOf_append_of_mem ha, List.idxOf_append_of_mem hb]

/-- What is new at the end comes after every member. -/
theorem firstBefore_concat (ha : a ∈ as) (hb : b ∉ as) : FirstBefore (as ++ [b]) a b := by
  refine ⟨List.mem_append_left _ ha, List.mem_concat_self, ?_⟩
  rw [List.idxOf_append_of_mem ha, List.idxOf_append_of_notMem hb]
  exact Nat.lt_add_right _ (List.idxOf_lt_length_of_mem ha)

/-- What is read from a list, without repetition, stands in the order of first occurrence. -/
theorem pairwise_firstBefore (inverse : ∀ a b, read a = some b ↔ a = write b) (as : List α) :
    (as.filterMap read).eraseDups.Pairwise fun b c => FirstBefore as (write b) (write c) := by
  induction as using List.reverseRecOn with
  | nil => exact .nil
  | append_singleton as a ih =>
    have old := ih.imp fun before => before.append [a]
    have mem {b : β} : b ∈ as.filterMap read ↔ write b ∈ as := by
      simp [List.mem_filterMap, inverse]
    rw [List.filterMap_append]
    cases h : read a with
    | none => simpa [h] using old
    | some c =>
      obtain rfl := (inverse a c).mp h
      have last : [write c].filterMap read = [c] := by simp [h]
      rw [last, eraseDups_concat]
      -- Either the same was read before, or the last element has not occurred before.
      by_cases known : c ∈ as.filterMap read
      · rwa [if_pos known]
      · rw [if_neg known]
        refine List.pairwise_append.mpr ⟨old, List.pairwise_singleton _ _, fun b hb d hd => ?_⟩
        obtain rfl := List.mem_singleton.mp hd
        exact firstBefore_concat (mem.mp (List.mem_eraseDups.mp hb)) fun h => known (mem.mpr h)

end Reading

namespace Expr

/-! ## Kinds of nodes -/

/-- The counts of a tally add up to the length of the list. -/
theorem sum_foldl_tally (vs : List Variable) :
    ((vs.foldl tally []).map Prod.snd).sum = vs.length := by
  induction vs using List.reverseRecOn with
  | nil => rfl
  | append_singleton vs v ih =>
    rw [List.foldl_append, List.foldl_cons, List.foldl_nil, sum_tally, ih, List.length_append,
      List.length_singleton]

/-- Every node is of one of three kinds. -/
theorem length_eq_add_add (es : List Expr) :
    es.length = (es.filterMap const?).length + (es.filterMap var?).length +
      (es.filterMap op?).length := by
  induction es with
  | nil => rfl
  | cons e es ih =>
    simp only [List.filterMap_cons, List.length_cons, ih]
    cases e with
    | const value =>
      simp only [const?, var?, op?, List.length_cons]
      omega
    | var v =>
      simp only [const?, var?, op?, List.length_cons]
      omega
    | app op operands => rfl

/-- The nodes of an operation are as many as its occurrences among the operations. -/
theorem length_ofOp (op : Op) (e : Expr) :
    (e.ofOp op).length = (e.preorder.filterMap op?).count op := by
  rw [ofOp, ← List.countP_eq_length_filter, List.count, List.countP_filterMap]
  refine List.countP_congr fun f _ => ?_
  cases f <;> simp [op?]

/-- The nodes of a kind are made of the parts that nodes of this kind have. -/
theorem ofKind_eq_map {β : Type} {kind : Kind} {part : Expr → Option β} {whole : β → Expr}
    (made : ∀ e, (part e).map whole = if isKind kind e then some e else none) (e : Expr) :
    e.ofKind kind = (e.preorder.filterMap part).map whole := by
  rw [ofKind, List.map_filterMap, ← List.filterMap_eq_filter]
  refine List.filterMap_congr fun f _ => ?_
  rw [made]
  rfl

/-- The size is the number of constants, of variables with their counts, and of the nodes of each
operation. -/
theorem size_eq_add_add (e : Expr) :
    e.size = e.constants.length + (e.usage.map Prod.snd).sum +
      (Op.all.map fun op => (e.ofOp op).length).sum := by
  have operations : (Op.all.map fun op => (e.ofOp op).length).sum =
      (e.preorder.filterMap op?).length := by
    simp only [length_ofOp, Op.sum_count]
  rw [usage, sum_foldl_tally, operations, ← length_preorder]
  exact length_eq_add_add e.preorder

/-! ## Reading the labels -/

/-- The label of a node is a number if the node is a constant, and then that number. -/
theorem number?_label (e : Expr) : number? e.label = e.const? := by
  cases e with
  | const value => exact value.number?_literal
  | var v => exact number?_name v
  | app op es => exact number?_symbol op

/-- The label of a node is a name if the node is a variable, and then its name. -/
theorem ofName?_label (e : Expr) : Variable.ofName? e.label = e.var? := by
  cases e with
  | const value => exact ofName?_of_number? value.number?_literal
  | var v => exact Variable.ofName?_name v
  | app op es => exact ofName?_symbol op

/-- The label of a node is a symbol if the node is an operation, and then its symbol. -/
theorem ofSymbol?_label (e : Expr) : Op.ofSymbol? e.label = e.op? := by
  cases e with
  | const value => exact ofSymbol?_of_number? value.number?_literal
  | var v => exact ofSymbol?_name v
  | app op es => exact Op.ofSymbol?_symbol op

section Labels

variable {β : Type} {read : List Char → Option β} {part : Expr → Option β}

/-- A text whose tokens besides brackets are labels tells of the nodes what their labels do. -/
theorem filterMap_tokens {text : List Char} {es : List Expr}
    (labels : plainTokens text = es.map label) (opening : read ['('] = none)
    (closing : read [')'] = none) (tells : ∀ e : Expr, read e.label = part e) :
    (tokens text).filterMap read = es.filterMap part := by
  have plain : (plainTokens text).filterMap read = (tokens text).filterMap read := by
    rw [plainTokens, List.filterMap_filter]
    refine List.filterMap_congr fun w _ => ?_
    by_cases bracket : w = ['('] ∨ w = [')']
    · rcases bracket with rfl | rfl
      · exact opening.symm
      · exact closing.symm
    · rw [not_or] at bracket
      simp [bracket]
  rw [← plain, labels, List.filterMap_map]
  exact List.filterMap_congr fun e _ => tells e

/-- What only leaves have is met in the same order behind the operands as in front of them. -/
theorem filterMap_postorder (leaf : ∀ op es, part (app op es) = none) (e : Expr) :
    e.postorder.filterMap part = e.preorder.filterMap part := by
  have leaves (es : List Expr) :
      (es.filter fun f => f.op?.isNone).filterMap part = es.filterMap part := by
    rw [List.filterMap_filter]
    refine List.filterMap_congr fun f _ => ?_
    cases f with
    | const value => rfl
    | var v => rfl
    | app op es => exact (leaf op es).symm
  rw [← leaves, filter_postorder, ← leaves e.preorder]
  rfl

end Labels

/-! ## What stands in the texts -/

/-- The numbers among the tokens of a bracketed text are the constants, in order. -/
theorem filterMap_number?_bracketed (mode : Mode) (e : Expr) :
    (tokens (e.bracketed mode)).filterMap number? = e.constants := by
  cases mode with
  | pre => exact filterMap_tokens e.plainTokens_bracketed_pre rfl rfl number?_label
  | post =>
    rw [filterMap_tokens e.plainTokens_bracketed_post rfl rfl number?_label]
    exact filterMap_postorder (fun _ _ => rfl) e

/-- So are those of the flat text, however it is cut into the labels. -/
theorem filterMap_number?_flat {split : List Char → List (List Char)} {e : Expr}
    (labels : split e.flat = e.postorder.map label) :
    (split e.flat).filterMap number? = e.constants := by
  have told (f : Expr) : (number? ∘ label) f = f.const? := number?_label f
  rw [labels, List.filterMap_map, funext told]
  exact filterMap_postorder (fun _ _ => rfl) e

/-- The names among the tokens are the occurrences of variables, in order. -/
theorem filterMap_ofName?_bracketed (e : Expr) :
    (tokens (e.bracketed .pre)).filterMap Variable.ofName? = e.occurrences :=
  filterMap_tokens e.plainTokens_bracketed_pre rfl rfl ofName?_label

/-- A symbol stands in the text as often as its operation has nodes. -/
theorem count_symbol_bracketed (op : Op) (e : Expr) :
    (tokens (e.bracketed .pre)).count op.symbol = (e.ofOp op).length := by
  have operations : (tokens (e.bracketed .pre)).filterMap Op.ofSymbol? =
      e.preorder.filterMap op? :=
    filterMap_tokens e.plainTokens_bracketed_pre rfl rfl ofSymbol?_label
  rw [length_ofOp, ← operations, count_filterMap fun _ _ => Op.ofSymbol?_eq_some_iff]

/-- The usage lists each variable with the number of tokens that are its name. -/
theorem usage_eq_map (e : Expr) : e.usage =
    e.distinctVariables.map fun v => (v, (tokens (e.bracketed .pre)).count v.name) := by
  rw [usage, foldl_tally_eq, ← distinctVariables]
  refine List.map_congr_left fun v _ => ?_
  rw [← filterMap_ofName?_bracketed, count_filterMap fun _ _ => Variable.ofName?_eq_some_iff]

/-- The constants, the tallied variables and the operations by symbol add up to the size, and each
of the finders answers with a subsequence of the nodes in depth-first order. In the text with the
symbols in front there is a token for every operation found by its symbol and for every occurrence
that is tallied. The numbers among the tokens of any text are the constants in order. The names of
the variables are the names among the tokens, in the order in which they first occur. -/
theorem finders_divide_nodes (e : Expr) :
    e.size = e.constants.length + (e.usage.map Prod.snd).sum +
      (Op.all.map fun op => (e.ofOp op).length).sum ∧
    (e.ofKind .const = e.constants.map const ∧ e.ofKind .var = e.occurrences.map var ∧
      (∀ kind, (e.ofKind kind).Sublist (e.nodes .depthFirst)) ∧
      ∀ op, (e.ofOp op).Sublist (e.nodes .depthFirst)) ∧
    (∀ op : Op, (e.ofOp op).length = (tokens (e.bracketed .pre)).count op.symbol) ∧
    (e.usage =
      e.distinctVariables.map fun v => (v, (tokens (e.bracketed .pre)).count v.name)) ∧
    ((∀ mode, (tokens (e.bracketed mode)).filterMap number? = e.constants) ∧
      (tokens e.flat).filterMap number? = e.constants ∧
      (words e.flat).filterMap number? = e.constants) ∧
    (∀ w, w ∈ e.distinctVariables.map Variable.name ↔
      w ∈ tokens (e.bracketed .pre) ∧ ∃ v : Variable, w = v.name) ∧
    (e.distinctVariables.map Variable.name).Pairwise
      (FirstBefore (tokens (e.bracketed .pre))) := by
  have occurs {v : Variable} : v ∈ e.distinctVariables ↔ v.name ∈ tokens (e.bracketed .pre) := by
    rw [distinctVariables, List.mem_eraseDups, ← filterMap_ofName?_bracketed, List.mem_filterMap]
    simp [Variable.ofName?_eq_some_iff]
  refine ⟨e.size_eq_add_add, ⟨?_, ?_, fun _ => List.filter_sublist, fun _ => List.filter_sublist⟩,
    fun op => (count_symbol_bracketed op e).symm, e.usage_eq_map,
    ⟨fun mode => filterMap_number?_bracketed mode e,
      filterMap_number?_flat (split_flat tokens_spaced tokens_label e),
      filterMap_number?_flat (split_flat words_spaced words_label e)⟩, fun w => ?_, ?_⟩
  · exact ofKind_eq_map (fun e => by cases e <;> rfl) e
  · exact ofKind_eq_map (fun e => by cases e <;> rfl) e
  · constructor
    · intro h
      obtain ⟨v, hv, rfl⟩ := List.mem_map.mp h
      exact ⟨occurs.mp hv, v, rfl⟩
    · rintro ⟨h, v, rfl⟩
      exact List.mem_map_of_mem (occurs.mpr h)
  · rw [List.pairwise_map, distinctVariables, ← filterMap_ofName?_bracketed]
    exact pairwise_firstBefore (fun _ _ => Variable.ofName?_eq_some_iff) _

end Expr

end ExprCalculus

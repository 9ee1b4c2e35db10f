import Mathlib
import ExprCalculus.Expr.Inspect

/-!
# A queue visits level by level

The nodes in level order come out of a loop over a queue. Two quantities describe a run of it: the
number of nodes at or below what is queued falls by one in every round, and what has been visited
together with what the queue will hand out never changes. So the loop ends after as many rounds as
there are nodes.

A queue straddles two levels only while the loop runs. What it hands out in the end is the queue
itself and then everything one level below it, and so a level follows a level.
-/

namespace ExprCalculus.Expr

/- Sums start from the core library's zero. -/
attribute [local instance (20000)] Zero.ofOfNat0

/-- An expression has a node. -/
theorem size_pos (e : Expr) : 0 < e.size := by
  have := e.size_eq
  omega

/-! ## The loop -/

namespace Visit

/-- The number of nodes at or below what is queued. -/
def pending (v : Visit) : Nat := (v.queue.map size).sum

/-- The queue is empty exactly when no node is pending. -/
theorem queue_eq_nil_iff (v : Visit) : v.queue = [] ↔ v.pending = 0 := by
  obtain ⟨queue, visited⟩ := v
  cases queue with
  | nil => simp [pending]
  | cons e queue =>
    have := e.size_pos
    simp only [pending, List.map_cons, List.sum_cons]
    constructor
    · intro h
      cases h
    · intro h
      omega

/-- A round takes one node from those that are pending. -/
theorem pending_round (v : Visit) : v.round.pending = v.pending - 1 := by
  obtain ⟨queue, visited⟩ := v
  cases queue with
  | nil => rfl
  | cons e queue =>
    have := e.size_eq
    simp only [round, pending, List.map_append, List.sum_append, List.map_cons, List.sum_cons]
    omega

/-- A round does not change what will have been visited in the end. -/
theorem visited_round (v : Visit) :
    v.round.visited ++ fromQueue v.round.queue = v.visited ++ fromQueue v.queue := by
  obtain ⟨queue, visited⟩ := v
  cases queue with
  | nil => rfl
  | cons e queue =>
    show (visited ++ [e]) ++ fromQueue (queue ++ e.operands) = visited ++ fromQueue (e :: queue)
    rw [fromQueue, List.append_assoc, List.singleton_append]

/-- Rounds take one pending node each, while there are any. -/
theorem pending_rounds (n : Nat) (v : Visit) : (round^[n] v).pending = v.pending - n := by
  induction n with
  | zero => rfl
  | succ n ih =>
    rw [Function.iterate_succ_apply', pending_round, ih]
    omega

/-- Nor do rounds one after another change what will have been visited. -/
theorem visited_rounds (n : Nat) (v : Visit) :
    (round^[n] v).visited ++ fromQueue (round^[n] v).queue = v.visited ++ fromQueue v.queue := by
  induction n with
  | zero => rfl
  | succ n ih => rw [Function.iterate_succ_apply', visited_round, ih]

/-- The loop is at its end exactly when there have been as many rounds as nodes. -/
theorem queue_rounds_eq_nil_iff (n : Nat) (v : Visit) :
    (round^[n] v).queue = [] ↔ v.pending ≤ n := by
  rw [queue_eq_nil_iff, pending_rounds]
  omega

/-- After as many rounds as there were pending nodes, the loop has ended. -/
theorem rounds_pending (v : Visit) :
    round^[v.pending] v = ⟨[], v.visited ++ fromQueue v.queue⟩ := by
  have ended := (queue_rounds_eq_nil_iff v.pending v).mpr le_rfl
  have visited := visited_rounds v.pending v
  rw [ended, fromQueue, List.append_nil] at visited
  rw [← visited, ← ended]

end Visit

/-! ## Levels -/

/-- The nodes a number of steps below the root, from left to right. -/
def level : Nat → Expr → List Expr
  | 0, e => [e]
  | k + 1, e => e.operands.flatMap (level k)

/-- A queue is handed out as it stands, and then what it has put at its end. -/
theorem fromQueue_append (es fs : List Expr) :
    fromQueue (es ++ fs) = es ++ fromQueue (fs ++ es.flatMap operands) := by
  induction es generalizing fs with
  | nil => simp
  | cons e es ih =>
    rw [List.cons_append, fromQueue, List.append_assoc, ih, List.append_assoc, List.flatMap_cons,
      List.cons_append]

/-- A number is below the greatest depth exactly when it is below some depth. -/
theorem lt_max?_getD_iff {depths : List Nat} {k : Nat} :
    k < depths.max?.getD 0 ↔ ∃ d ∈ depths, k < d := by
  cases h : depths.max? with
  | none =>
    rw [List.max?_eq_none_iff] at h
    simp [h]
  | some greatest =>
    obtain ⟨mem, le⟩ := List.max?_eq_some_iff.mp h
    show k < greatest ↔ _
    constructor
    · intro lt
      exact ⟨greatest, mem, lt⟩
    · rintro ⟨d, hd, lt⟩
      exact lt_of_lt_of_le lt (le d hd)

/-- The levels that have nodes are those above the depth. -/
theorem level_ne_nil_iff (e : Expr) (k : Nat) : e.level k ≠ [] ↔ k < e.depth := by
  induction k generalizing e with
  | zero =>
    have : 0 < e.depth := by
      cases e with
      | const value => exact Nat.one_pos
      | var v => exact Nat.one_pos
      | app op es =>
        rw [depth_app]
        omega
    simp [level, this]
  | succ k ih =>
    have below : e.level (k + 1) ≠ [] ↔ ∃ f ∈ e.operands, k < f.depth := by
      simp only [level, ne_eq, List.flatMap_eq_nil_iff, not_forall, ← ih, exists_prop]
    have deeper : k + 1 < e.depth ↔ ∃ f ∈ e.operands, k < f.depth := by
      cases e with
      | const value => simp
      | var v => simp
      | app op es =>
        have step : k + 1 < 1 + (es.map depth).max?.getD 0 ↔ k < (es.map depth).max?.getD 0 := by
          omega
        rw [depth_app, step, lt_max?_getD_iff, operands_app]
        simp only [List.mem_map, exists_exists_and_eq_and]
    rw [below, deeper]

/-- A queue hands out level by level what is queued and what lies below it, by induction on a bound
of the depths. -/
theorem fromQueue_eq_levels {n : Nat} {es : List Expr} (h : ∀ e ∈ es, e.depth ≤ n) :
    fromQueue es = (List.range n).flatMap fun k => es.flatMap (level k) := by
  induction n generalizing es with
  | zero =>
    have none : es = [] := by
      refine List.eq_nil_iff_forall_not_mem.mpr fun e he => ?_
      have := (level_ne_nil_iff e 0).mp (List.cons_ne_nil _ _)
      have := h e he
      omega
    rw [none, fromQueue]
    rfl
  | succ n ih =>
    have next : ∀ f ∈ es.flatMap operands, f.depth ≤ n := by
      intro f hf
      obtain ⟨e, he, below⟩ := List.mem_flatMap.mp hf
      by_contra deep
      have nonempty : e.level (n + 1) ≠ [] := by
        intro none
        have := List.flatMap_eq_nil_iff.mp none f below
        exact (level_ne_nil_iff f n).mpr (by omega) this
      have := (level_ne_nil_iff e (n + 1)).mp nonempty
      have := h e he
      omega
    have here : es.flatMap (level 0) = es := List.flatMap_singleton' es
    have below : fromQueue es = es ++ fromQueue (es.flatMap operands) := by
      have := fromQueue_append es []
      rwa [List.append_nil, List.nil_append] at this
    rw [below, ih next, List.range_succ_eq_map, List.flatMap_cons, here, List.flatMap_map]
    simp only [List.flatMap_assoc]
    rfl

/-! ## The same nodes in both orders -/

/-- A queue hands out each node at or below what is queued, and none twice. -/
theorem fromQueue_perm_preorder (es : List Expr) : (fromQueue es).Perm (es.flatMap preorder) := by
  fun_induction fromQueue es with
  | case1 => exact .refl _
  | case2 e queue ih =>
    rw [List.flatMap_append] at ih
    rw [List.flatMap_cons, preorder_eq, List.cons_append]
    exact (ih.trans List.perm_append_comm).cons e

/-- An expression has as many nodes as its size says. -/
theorem length_preorder (e : Expr) : e.preorder.length = e.size := by
  induction e with
  | const value => rfl
  | var v => rfl
  | app op es ih =>
    have each : es.map (fun f => f.preorder.length) = es.map size := List.map_congr_left ih
    rw [preorder_eq, List.length_cons, operands_app, List.length_flatMap, each, size_app]
    exact Nat.add_comm _ _

/-- The level order is a rearrangement of the nodes. -/
theorem levelOrder_perm_preorder (e : Expr) : e.levelOrder.Perm e.preorder := by
  have := fromQueue_perm_preorder [e]
  rwa [List.flatMap_singleton] at this

/-- The nodes in level order are the levels one after another. -/
theorem levelOrder_eq_levels (e : Expr) :
    e.levelOrder = (List.range e.depth).flatMap fun k => e.level k := by
  have alone : ∀ f ∈ [e], f.depth ≤ e.depth := by simp
  rw [levelOrder, fromQueue_eq_levels alone]
  simp only [List.flatMap_singleton]

/-- Every level above the depth has a node of its own. -/
theorem depth_le_size (e : Expr) : e.depth ≤ e.size := by
  have nodes := e.levelOrder_perm_preorder.length_eq
  rw [levelOrder_eq_levels, List.length_flatMap, length_preorder] at nodes
  have one : ∀ k ∈ List.range e.depth, 1 ≤ (e.level k).length := by
    intro k hk
    exact List.length_pos_iff.mpr ((level_ne_nil_iff e k).mpr (List.mem_range.mp hk))
  have many := List.card_nsmul_le_sum ((List.range e.depth).map fun k => (e.level k).length) 1
    (by simpa using one)
  rw [nodes] at many
  simpa using many

/-- The loop over the queue is at its end exactly from the round on whose number is the size, and
what it has visited then are the levels, one after another. These are the nodes of the depth-first
order in another arrangement, as many as the size says in both. There are nodes on as many levels as
the depth says, which is at most the size. -/
theorem breadthFirst_level_by_level (e : Expr) :
    (∀ n, (Visit.round^[n] ⟨[e], []⟩).queue = [] ↔ e.size ≤ n) ∧
    Visit.round^[e.size] ⟨[e], []⟩ = ⟨[], e.nodes .breadthFirst⟩ ∧
    e.nodes .breadthFirst = (List.range e.depth).flatMap (fun k => e.level k) ∧
    (e.nodes .breadthFirst).Perm (e.nodes .depthFirst) ∧
    (e.nodes .breadthFirst).length = e.size ∧ (e.nodes .depthFirst).length = e.size ∧
    (∀ k, e.level k ≠ [] ↔ k < e.depth) ∧ {k | e.level k ≠ []}.ncard = e.depth ∧
    e.depth ≤ e.size := by
  have pending : Visit.pending ⟨[e], []⟩ = e.size := by simp [Visit.pending]
  have perm := e.levelOrder_perm_preorder
  have occupied : {k | e.level k ≠ []} = (Finset.range e.depth : Set Nat) := by
    ext k
    simp [level_ne_nil_iff]
  refine ⟨fun n => ?_, ?_, e.levelOrder_eq_levels, perm, ?_, e.length_preorder,
    e.level_ne_nil_iff, ?_, e.depth_le_size⟩
  · rw [Visit.queue_rounds_eq_nil_iff, pending]
  · rw [← pending]
    exact Visit.rounds_pending ⟨[e], []⟩
  · exact perm.length_eq.trans e.length_preorder
  · rw [occupied, Set.ncard_coe_finset, Finset.card_range]

end ExprCalculus.Expr

import Mathlib
import ExprCalculus.Expr.Evaluation
import ExprCalculus.Proofs.Material

/-!
# What a value depends on

Evaluation looks at a point only where a variable occurs, so the values at two points that agree on
the variables of an expression are the same. A derivative has no variables that its expression does
not have, and so the same holds of the derivatives of any order.

The variables are listed in the order in which they first occur. A tally of their occurrences meets
them in the same order, one entry for each.
-/

namespace ExprCalculus

/-! ## Lists without repetition -/

/-- One more element at the end is new, or it is there already. -/
theorem eraseDups_concat {α : Type} [DecidableEq α] (as : List α) (a : α) :
    (as ++ [a]).eraseDups = if a ∈ as then as.eraseDups else as.eraseDups ++ [a] := by
  rw [List.eraseDups_append]
  by_cases h : a ∈ as
  · have none : [a].removeAll as = [] := by simp [List.removeAll, h]
    rw [if_pos h, none, List.eraseDups_nil, List.append_nil]
  · have all : [a].removeAll as = [a] := by simp [List.removeAll, h]
    rw [if_neg h, all]
    rfl

theorem nodup_eraseDups {α : Type} [DecidableEq α] (as : List α) : as.eraseDups.Nodup := by
  induction as using List.reverseRecOn with
  | nil => exact List.nodup_nil
  | append_singleton as a ih =>
    rw [eraseDups_concat]
    split
    · exact ih
    · rename_i new
      rw [← List.concat_eq_append]
      refine List.Nodup.concat ?_ ih
      rwa [List.mem_eraseDups]

namespace Expr

/-! ## The tally -/

/-- One more occurrence is counted where the variable has its entry, or in a new one. -/
theorem tally_map {ws : List Variable} (nodup : ws.Nodup) (count : Variable → Nat) (v : Variable) :
    tally (ws.map fun w => (w, count w)) v =
      if v ∈ ws then ws.map fun w => (w, count w + if v = w then 1 else 0)
      else ws.map (fun w => (w, count w)) ++ [(v, 1)] := by
  induction ws with
  | nil => rfl
  | cons w ws ih =>
    obtain ⟨fresh, rest⟩ := List.nodup_cons.mp nodup
    by_cases h : v = w
    · subst h
      have others : ws.map (fun w => (w, count w + if v = w then 1 else 0)) =
          ws.map fun w => (w, count w) := by
        refine List.map_congr_left fun w hw => ?_
        have differ : v ≠ w := fun same => fresh (same ▸ hw)
        rw [if_neg differ, Nat.add_zero]
      simp [tally, others]
    · have h' : ¬ w = v := fun same => h same.symm
      simp only [List.map_cons, tally, if_neg h', ih rest, List.mem_cons, h, false_or, if_false,
        Nat.add_zero]
      split
      · rfl
      · rfl

/-- The tally has an entry for each variable, in the order in which they first occur, and counts
its occurrences. -/
theorem foldl_tally_eq (vs : List Variable) :
    vs.foldl tally [] = vs.eraseDups.map fun v => (v, vs.count v) := by
  induction vs using List.reverseRecOn with
  | nil => rfl
  | append_singleton vs v ih =>
    rw [List.foldl_append, List.foldl_cons, List.foldl_nil, ih, tally_map (nodup_eraseDups vs),
      eraseDups_concat]
    simp only [List.mem_eraseDups, List.count_append, List.count_singleton, beq_iff_eq]
    by_cases known : v ∈ vs
    · rw [if_pos known, if_pos known]
    · rw [if_neg known, if_neg known, List.map_append, List.map_singleton, if_pos rfl,
        List.count_eq_zero.mpr known]
      refine congrArg (· ++ _) (List.map_congr_left fun w hw => ?_)
      have differ : v ≠ w := fun same => known (same ▸ List.mem_eraseDups.mp hw)
      rw [if_neg differ, Nat.add_zero]

/-- A tally has the variables of the list, each once, in the order of their first occurrences. -/
theorem keys_foldl_tally (vs : List Variable) :
    (vs.foldl tally []).map Prod.fst = vs.eraseDups := by
  rw [foldl_tally_eq, List.map_map]
  exact List.map_id _

/-! ## Values -/

/-- The distinct variables are those that stand at a node. -/
theorem mem_distinctVariables {v : Variable} {e : Expr} :
    v ∈ e.distinctVariables ↔ var v ∈ e.preorder := by
  rw [distinctVariables, List.mem_eraseDups, occurrences, List.mem_filterMap]
  constructor
  · rintro ⟨f, hf, h⟩
    cases f with
    | var w =>
      cases h
      exact hf
    | const value => cases h
    | app op es => cases h
  · intro h
    exact ⟨var v, h, rfl⟩

/-- All constants and operations, and the variables of an expression. -/
def reach (e : Expr) : Material := ⟨Set.univ, {v | v ∈ e.distinctVariables}, Set.univ⟩

/-- What an expression reaches is closed under the rules: only its variables are restricted. -/
theorem closed_reach (e : Expr) : e.reach.Closed := by
  constructor <;> simp [reach]

theorem madeOf_reach (e : Expr) : e.MadeOf e.reach := by
  intro f hf
  cases f with
  | const value => exact Set.mem_univ value
  | var v => exact mem_distinctVariables.mpr hf
  | app op es => exact Set.mem_univ op

/-- Points that agree on the variables of a material give the same value to what is made of it. -/
theorem MadeOf.eval_congr {α : Type} {A : Arithmetic α} {M : Material} {e : Expr}
    (made : e.MadeOf M) {p q : Variable → α} (agree : ∀ v ∈ M.var, p v = q v) :
    e.eval A p = e.eval A q := by
  induction e with
  | const value => rfl
  | var v => exact agree v (madeOf_var.mp made)
  | app op es ih =>
    obtain ⟨-, operands⟩ := madeOf_app.mp made
    rw [eval_app, eval_app, List.map_congr_left fun f hf => ih f hf (operands f hf)]

/-- Coordinates that agree on the variables of a material give what is made of it the same value. -/
theorem MadeOf.evaluate_congr {M : Material} {e : Expr} (made : e.MadeOf M) {p q : List Double}
    (agree : ∀ v ∈ M.var, point (.zero false) p v = point (.zero false) q v) :
    e.evaluate p = e.evaluate q := by
  have floats (r : List Double) (v : Variable) :
      point (Arithmetic.float.ofNat 0) (r.map Double.toFloat) v =
        (point (.zero false) r v).toFloat :=
    List.getD_map r (.zero false) Double.toFloat
  refine congrArg Double.ofFloat (made.eval_congr fun v hv => ?_)
  rw [floats, floats, agree v hv]

/-- At two points that agree on the variables of an expression it has one value, and so has each of
its derivatives. Its variables are listed once each, and they are the ones that are tallied. -/
theorem evaluate_eq_of_agree {e : Expr} (h : e.WellFormed) :
    (∀ p q : List Double,
      (∀ v ∈ e.distinctVariables, point (.zero false) p v = point (.zero false) q v) →
      e.evaluate p = e.evaluate q ∧
        ∀ names, ∃ d, e.diffAll? names = some d ∧ d.evaluate p = d.evaluate q) ∧
    e.distinctVariables.Nodup ∧ e.usage.map Prod.fst = e.distinctVariables := by
  refine ⟨fun p q agree => ⟨?_, fun names => ?_⟩, nodup_eraseDups _, keys_foldl_tally _⟩
  · exact e.madeOf_reach.evaluate_congr agree
  · obtain ⟨d, hd, made⟩ := e.madeOf_reach.exists_diffAll? e.closed_reach h names
    exact ⟨d, hd, made.evaluate_congr agree⟩

/-- An infinity and not-a-number where the expression has no variable. -/
theorem evaluate_eq_of_agree_beside_infinity_and_nan :
    let e : Expr := .app .gauss [.var .x, .app .mean [], .app .var [.var .z, .var .x], .var .z]
    let p : List Double := [.ofNat 3, .infinite true, .ofNat 2]
    let q : List Double := [.ofNat 3, .nan, .ofNat 2]
    e.evaluate p = e.evaluate q ∧
      (∃ d, e.diffAll? [['z'], ['y'], ['x']] = some d ∧ d.evaluate p = d.evaluate q) ∧
      e.usage.map Prod.fst = [.x, .z] := by
  intro e p q
  have empty : (app .mean []).WellFormed := .app rfl nofun
  have spread : (app .var [.var .z, .var .x]).WellFormed := .app rfl (by simp [WellFormed.var])
  have formed : e.WellFormed := .app rfl (by simp [WellFormed.var, empty, spread])
  have listed : e.distinctVariables = [.x, .z] := rfl
  have agree : ∀ v ∈ e.distinctVariables, point (.zero false) p v = point (.zero false) q v := by
    rw [listed]
    exact List.forall_mem_cons.mpr ⟨rfl, List.forall_mem_singleton.mpr rfl⟩
  obtain ⟨values, -, keys⟩ := evaluate_eq_of_agree formed
  obtain ⟨value, derivatives⟩ := values p q agree
  exact ⟨value, derivatives _, keys.trans listed⟩

end Expr

end ExprCalculus

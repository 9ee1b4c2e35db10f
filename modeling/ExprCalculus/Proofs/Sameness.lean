import Mathlib
import ExprCalculus.Expr.Evaluation
import ExprCalculus.Proofs.BitPattern
import ExprCalculus.Proofs.WellFormedness

/-!
# Expressions that are the same

The comparison of expressions looks at the literals of constants and not at their values, under
which not-a-number would differ from itself and the two zeros would agree. Different doubles have
different literals, so what it decides is equality: an equivalence, under which nothing that is
computed from an expression can be told apart. The bracketed texts decide the same, as each of them
is read back as the expression that it was written for.
-/

namespace ExprCalculus.Expr

/-! ## The comparison decides equality -/

theorem sameAll_iff_eq {es fs : List Expr} (each : ∀ e ∈ es, ∀ f, same e f = true ↔ e = f) :
    sameAll es fs = true ↔ es = fs := by
  induction es generalizing fs with
  | nil => cases fs <;> simp [sameAll]
  | cons e es ih =>
    cases fs with
    | nil => simp [sameAll]
    | cons f fs =>
      have head := each e List.mem_cons_self f
      have tail : sameAll es fs = true ↔ es = fs :=
        ih fun e he => each e (List.mem_cons_of_mem _ he)
      rw [sameAll, Bool.and_eq_true, head, tail, List.cons.injEq]

/-- The comparison of trees by their literals is equality of trees. -/
theorem same_iff_eq (s t : Expr) : same s t = true ↔ s = t := by
  induction s generalizing t with
  | const value =>
    cases t with
    | const value' => rw [same, beq_iff_eq, Double.literal_injective.eq_iff, const.injEq]
    | var v => simp [same]
    | app op fs => simp [same]
  | var v =>
    cases t with
    | const value => simp [same]
    | var w => rw [same, beq_iff_eq, var.injEq]
    | app op fs => simp [same]
  | app op es ih =>
    cases t with
    | const value => simp [same]
    | var v => simp [same]
    | app op' fs => rw [same, Bool.and_eq_true, beq_iff_eq, sameAll_iff_eq ih, app.injEq]

instance : LawfulBEq Expr where
  rfl := (same_iff_eq _ _).mpr rfl
  eq_of_beq := (same_iff_eq _ _).mp

theorem equivalence_beq : Equivalence fun s t : Expr => (s == t) = true where
  refl _ := beq_iff_eq.mpr rfl
  symm h := beq_iff_eq.mpr (beq_iff_eq.mp h).symm
  trans h h' := beq_iff_eq.mpr ((beq_iff_eq.mp h).trans (beq_iff_eq.mp h'))

/-! ## The bracketed texts decide equality -/

/-- Both expressions are spelled by the tokens of one text, which spell one expression only. -/
theorem bracketed_inj (mode : Mode) {s t : Expr} (hs : s.WellFormed) (ht : t.WellFormed) :
    s.bracketed mode = t.bracketed mode ↔ s = t := by
  constructor
  · intro texts
    have spells := spells_bracketed mode hs
    rw [texts] at spells
    exact spells.unique (spells_bracketed mode ht)
  · rintro rfl
    rfl

/-! ## Congruence -/

/-- Nothing that is computed from two expressions tells them apart: their hashes and sizes agree,
they have one value at every point, where not-a-number counts as one value, and they have the same
derivatives. -/
structure Interchangeable (s t : Expr) : Prop where
  hash_eq : hash s = hash t
  size_eq : s.size = t.size
  evaluate_eq (coordinates : List Double) : s.evaluate coordinates = t.evaluate coordinates
  diff?_beq (name : List Char) :
    ∃ d d', s.diff? name = some d ∧ t.diff? name = some d' ∧ (d == d') = true

/-- Trees that compare equal cannot be told apart by what is computed of them. -/
theorem interchangeable_of_beq {s t : Expr} (hs : s.WellFormed) (h : (s == t) = true) :
    s.Interchangeable t := by
  obtain rfl := beq_iff_eq.mp h
  refine ⟨rfl, rfl, fun _ => rfl, fun name => ?_⟩
  obtain ⟨d, hd, -⟩ := hs.exists_diff? name
  exact ⟨d, d, hd, hd, equivalence_beq.refl d⟩

/-- Well-formed expressions are the same exactly when their bracketed texts are, of either mode;
then they are interchangeable. Being the same is an equivalence, whatever constants occur. -/
theorem beq_iff_bracketed_eq {s t : Expr} (hs : s.WellFormed) (ht : t.WellFormed) :
    ((s == t) = true ↔ s.bracketed .pre = t.bracketed .pre) ∧
    ((s == t) = true ↔ s.bracketed .post = t.bracketed .post) ∧
    ((s == t) = true → s.Interchangeable t) ∧
    Equivalence fun a b : Expr => (a == b) = true := by
  refine ⟨?_, ?_, interchangeable_of_beq hs, equivalence_beq⟩
  · rw [bracketed_inj .pre hs ht, beq_iff_eq]
  · rw [bracketed_inj .post hs ht, beq_iff_eq]

/-- Not-a-number is the same as itself, and minus zero is not the same as zero. -/
theorem beq_iff_bracketed_eq_nan_and_zeros :
    ((app .mean [const .nan, const (.zero true)] ==
      app .mean [const .nan, const (.zero true)]) = true) ∧
    ¬ (app .mean [const .nan, const (.zero true)] ==
      app .mean [const .nan, const (.zero false)]) = true := by
  have wellFormed (negative : Bool) :
      (app .mean [const .nan, const (.zero negative)]).WellFormed :=
    .app rfl (List.forall_mem_cons.mpr ⟨.const _, by simpa using .const _⟩)
  constructor
  · exact (beq_iff_bracketed_eq (wellFormed true) (wellFormed true)).1.mpr rfl
  · intro same
    have texts := (beq_iff_bracketed_eq (wellFormed true) (wellFormed false)).1.mp same
    exact absurd texts (by decide +kernel)

end ExprCalculus.Expr

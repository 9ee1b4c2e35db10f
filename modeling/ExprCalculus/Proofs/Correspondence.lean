import Mathlib
import ExprCalculus.Expr.Arithmetic
import ExprCalculus.Proofs.WellFormedness

/-!
# Corresponding arithmetics

Evaluation is put together from the elementary operations of an arithmetic and looks at its values
in no other way. So a relation between the values of two arithmetics that their elementary
operations keep is kept by evaluation: this is shown once for means and variances, which look at a
list of values, then for the ten operations, and then by induction for expressions.
-/

namespace ExprCalculus

variable {α β : Type}

/-- The elementary operations of two arithmetics keep a relation between their values. -/
structure Arithmetic.Corresponds (A : Arithmetic α) (B : Arithmetic β) (R : α → β → Prop) :
    Prop where
  ofDouble (value : Double) : R (A.ofDouble value) (B.ofDouble value)
  ofNat (n : Nat) : R (A.ofNat n) (B.ofNat n)
  undefined : R A.undefined B.undefined
  add {a c : α} {b d : β} (first : R a b) (second : R c d) : R (A.add a c) (B.add b d)
  sub {a c : α} {b d : β} (first : R a b) (second : R c d) : R (A.sub a c) (B.sub b d)
  mul {a c : α} {b d : β} (first : R a b) (second : R c d) : R (A.mul a c) (B.mul b d)
  div {a c : α} {b d : β} (first : R a b) (second : R c d) : R (A.div a c) (B.div b d)
  neg {a : α} {b : β} (first : R a b) : R (A.neg a) (B.neg b)
  abs {a : α} {b : β} (first : R a b) : R (A.abs a) (B.abs b)
  exp {a : α} {b : β} (first : R a b) : R (A.exp a) (B.exp b)
  select {a c e : α} {b d f : β} (first : R a b) (second : R c d) (third : R e f) :
    R (A.select a c e) (B.select b d f)

/-- What means and variances are put together from keeps a relation between the values of two
arithmetics. -/
structure Arithmetic.Averages (A : Arithmetic α) (B : Arithmetic β) (R : α → β → Prop) :
    Prop where
  zero : R (A.ofNat 0) (B.ofNat 0)
  add {a c : α} {b d : β} (first : R a b) (second : R c d) : R (A.add a c) (B.add b d)
  sub {a c : α} {b d : β} (first : R a b) (second : R c d) : R (A.sub a c) (B.sub b d)
  mul {a c : α} {b d : β} (first : R a b) (second : R c d) : R (A.mul a c) (B.mul b d)
  divCount {a : α} {b : β} (n : Nat) (first : R a b) :
    R (A.div a (A.ofNat (n + 1))) (B.div b (B.ofNat (n + 1)))

namespace Arithmetic.Averages

variable {A : Arithmetic α} {B : Arithmetic β} {R : α → β → Prop} (h : A.Averages B R)

include h

theorem foldl_add {as : List α} {bs : List β} (values : List.Forall₂ R as bs) {a : α} {b : β}
    (start : R a b) : R (as.foldl A.add a) (bs.foldl B.add b) := by
  induction values generalizing a b with
  | nil => exact start
  | cons head tail ih => exact ih (h.add start head)

theorem mean {as : List α} {bs : List β} (values : List.Forall₂ R as bs) :
    R (A.mean as) (B.mean bs) := by
  cases values with
  | nil => exact h.zero
  | cons head tail =>
    rw [Arithmetic.mean, Arithmetic.mean, tail.length_eq]
    exact h.divCount _ (h.foldl_add tail head)

theorem squaredDeviations {as : List α} {bs : List β} (values : List.Forall₂ R as bs) :
    List.Forall₂ R (A.squaredDeviations as) (B.squaredDeviations bs) := by
  have mean := h.mean values
  rw [Arithmetic.squaredDeviations, Arithmetic.squaredDeviations, List.forall₂_map_left_iff,
    List.forall₂_map_right_iff]
  exact values.imp fun _ _ value => h.mul (h.sub value mean) (h.sub value mean)

theorem variance {as : List α} {bs : List β} (values : List.Forall₂ R as bs) :
    R (A.variance as) (B.variance bs) :=
  h.mean (h.squaredDeviations values)

end Arithmetic.Averages

namespace Arithmetic.Corresponds

variable {A : Arithmetic α} {B : Arithmetic β} {R : α → β → Prop} (h : A.Corresponds B R)

include h

theorem averages : A.Averages B R where
  zero := h.ofNat 0
  add := h.add
  sub := h.sub
  mul := h.mul
  divCount n first := h.div first (h.ofNat (n + 1))

theorem gauss {a b c x : α} {a' b' c' x' : β} (ha : R a a') (hb : R b b') (hc : R c c')
    (hx : R x x') : R (A.gauss a b c x) (B.gauss a' b' c' x') := by
  have t := h.div (h.sub hx hb) hc
  exact h.mul ha (h.exp (h.div (h.mul (h.neg t) t) (h.ofNat 2)))

/-- The operations keep the relation. -/
theorem apply (op : Op) {as : List α} {bs : List β} (values : List.Forall₂ R as bs) :
    R (A.apply op as) (B.apply op bs) := by
  by_cases count : op.accepts as.length = true
  · cases Op.applied_of_accepts count with
    | add =>
      obtain _ | ⟨ha, _ | ⟨hb, ⟨⟩⟩⟩ := values
      exact h.add ha hb
    | subtract =>
      obtain _ | ⟨ha, _ | ⟨hb, ⟨⟩⟩⟩ := values
      exact h.sub ha hb
    | multiply =>
      obtain _ | ⟨ha, _ | ⟨hb, ⟨⟩⟩⟩ := values
      exact h.mul ha hb
    | divide =>
      obtain _ | ⟨ha, _ | ⟨hb, ⟨⟩⟩⟩ := values
      exact h.div ha hb
    | negate =>
      obtain _ | ⟨ha, ⟨⟩⟩ := values
      exact h.neg ha
    | abs =>
      obtain _ | ⟨ha, ⟨⟩⟩ := values
      exact h.abs ha
    | iff =>
      obtain _ | ⟨hc, _ | ⟨ha, _ | ⟨hb, ⟨⟩⟩⟩⟩ := values
      exact h.select hc ha hb
    | mean => exact h.averages.mean values
    | var => exact h.averages.variance values
    | gauss =>
      obtain _ | ⟨ha, _ | ⟨hb, _ | ⟨hc, _ | ⟨hx, ⟨⟩⟩⟩⟩⟩ := values
      exact h.gauss ha hb hc hx
  · have count' : ¬ op.accepts bs.length = true := by rwa [← values.length_eq]
    rw [apply_of_not_accepts A count, apply_of_not_accepts B count']
    exact h.undefined

/-- Evaluation keeps the relation. -/
theorem eval {p : Variable → α} {q : Variable → β} (points : ∀ v, R (p v) (q v)) (e : Expr) :
    R (e.eval A p) (e.eval B q) := by
  induction e with
  | const value => exact h.ofDouble value
  | var v => exact points v
  | app op es ih =>
    rw [Expr.eval_app, Expr.eval_app]
    refine h.apply op ?_
    rw [List.forall₂_map_left_iff, List.forall₂_map_right_iff]
    exact List.forall₂_same.mpr ih

end Arithmetic.Corresponds

end ExprCalculus

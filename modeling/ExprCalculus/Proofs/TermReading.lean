import Mathlib
import ExprCalculus.Algebra.Form
import ExprCalculus.Proofs.ExactArithmetic

/-!
# Reading terms in a field

A reading gives some terms an element of a field, and lists of such terms a list of elements. What
is asked of it is what it does with integers, sums, products, powers with integers, and with a
number and its opposite; not-a-number has no reading, and zero has no negative power.

That is enough for the shortcuts by which terms are written. A change of sign goes into a number or
into the front of a product, one is left out of a quotient, a single factor is its own product:
under every reading each of these has the value of the operation that it stands for, and so have the
terms of the operations of a field, of means and of variances.
-/

namespace ExprCalculus.Form

variable {K : Type} [Field K] [DecidableEq K]

/-- Integers, sums, products and powers are read as those of the field. -/
structure Reading (read : Form → Option K) (readAll : List Form → Option (List K)) : Prop where
  integer (n : Int) : read (.integer n) = some (n : K)
  nan : read .nan = none
  opposite {f g : Form} {a : K} (number : f.opposite? = some g) (hf : read f = some a) :
    read g = some (-a)
  all_nil : readAll [] = some []
  all_cons (f : Form) (fs : List Form) :
    readAll (f :: fs) = (read f).bind fun a => (readAll fs).map (a :: ·)
  sum (fs : List Form) : read (.sum fs) = (readAll fs).map List.sum
  product (fs : List Form) : read (.product fs) = (readAll fs).map List.prod
  power (f : Form) (n : Int) : read (.power f (.integer n)) =
    (read f).bind fun a => if a = 0 ∧ n < 0 then none else some (a ^ n)

namespace Reading

variable {read : Form → Option K} {readAll : List Form → Option (List K)}
  (h : Reading read readAll)

include h

/-! ## Sums, products and powers -/

theorem all_cons_iff {f : Form} {fs : List Form} {as : List K} : readAll (f :: fs) = some as ↔
    ∃ a bs, read f = some a ∧ readAll fs = some bs ∧ a :: bs = as := by
  simp only [h.all_cons, Option.bind_eq_some_iff, Option.map_eq_some_iff, exists_and_left]

theorem sum_nil : read (.sum []) = some 0 := by
  rw [h.sum, h.all_nil, Option.map_some, List.sum_nil]

theorem sum_cons {f : Form} {fs : List Form} {a b : K} (hf : read f = some a)
    (hfs : read (.sum fs) = some b) : read (.sum (f :: fs)) = some (a + b) := by
  rw [h.sum, Option.map_eq_some_iff] at hfs ⊢
  obtain ⟨bs, hbs, rfl⟩ := hfs
  exact ⟨a :: bs, h.all_cons_iff.mpr ⟨a, bs, hf, hbs, rfl⟩, List.sum_cons⟩

theorem product_nil : read (.product []) = some 1 := by
  rw [h.product, h.all_nil, Option.map_some, List.prod_nil]

theorem product_cons {f : Form} {fs : List Form} {x : K} : read (.product (f :: fs)) = some x ↔
    ∃ a b, read f = some a ∧ read (.product fs) = some b ∧ a * b = x := by
  simp only [h.product, Option.map_eq_some_iff]
  constructor
  · rintro ⟨as, has, rfl⟩
    obtain ⟨a, bs, ha, hbs, rfl⟩ := h.all_cons_iff.mp has
    exact ⟨a, bs.prod, ha, ⟨bs, hbs, rfl⟩, List.prod_cons.symm⟩
  · rintro ⟨a, _, ha, ⟨bs, hbs, rfl⟩, rfl⟩
    exact ⟨a :: bs, h.all_cons_iff.mpr ⟨a, bs, ha, hbs, rfl⟩, List.prod_cons⟩

theorem pow {f : Form} {n : Int} {x : K} : read (.power f (.integer n)) = some x ↔
    ∃ a, read f = some a ∧ (a ≠ 0 ∨ 0 ≤ n) ∧ a ^ n = x := by
  rw [h.power, Option.bind_eq_some_iff]
  refine exists_congr fun a => and_congr_right fun _ => ?_
  have defined_iff : (a ≠ 0 ∨ 0 ≤ n) ↔ ¬ (a = 0 ∧ n < 0) := by
    rw [not_and_or, not_lt]
  rw [defined_iff]
  by_cases undefined : a = 0 ∧ n < 0 <;> simp [undefined]

theorem sum_map {α : Type} {as : List α} {form : α → Form} {v : α → K}
    (each : ∀ a ∈ as, read (form a) = some (v a)) :
    read (.sum (as.map form)) = some (as.map v).sum := by
  induction as with
  | nil => exact h.sum_nil
  | cons a as ih =>
    have rest := ih fun b hb => each b (List.mem_cons_of_mem a hb)
    exact h.sum_cons (each a List.mem_cons_self) rest

/-- A single term is its own sum. -/
theorem sumOf_map {α : Type} {as : List α} {form : α → Form} {v : α → K}
    (each : ∀ a ∈ as, read (form a) = some (v a)) :
    read (sumOf (as.map form)) = some (as.map v).sum := by
  match as with
  | [a] =>
    rw [List.map_singleton, List.map_singleton, List.sum_singleton]
    exact each a List.mem_cons_self
  | [] | _ :: _ :: _ => exact h.sum_map each

/-- A single factor is its own product. -/
theorem productOf {fs : List Form} {x : K} (hfs : read (.product fs) = some x) :
    read (productOf fs) = some x := by
  unfold Form.productOf
  split
  · obtain ⟨a, b, ha, hb, rfl⟩ := h.product_cons.mp hfs
    rw [h.product_nil] at hb
    cases hb
    rw [ha, mul_one]
  · exact hfs

theorem add {f g : Form} {a b : K} (hf : read f = some a) (hg : read g = some b) :
    read (.sum [f, g]) = some (a + b) := by
  rw [h.sum_cons hf (h.sum_cons hg h.sum_nil), add_zero]

theorem mul {f g : Form} {a b : K} (hf : read f = some a) (hg : read g = some b) :
    read (.product [f, g]) = some (a * b) :=
  h.product_cons.mpr ⟨a, b, hf, h.product_cons.mpr ⟨b, 1, hg, h.product_nil, mul_one b⟩, rfl⟩

theorem reciprocal {f : Form} {a : K} (hf : read f = some a) (nonzero : a ≠ 0) :
    read f.reciprocal = some a⁻¹ := by
  rw [Form.reciprocal, h.pow.mpr ⟨a, hf, .inl nonzero, zpow_neg_one a⟩]

theorem square {f : Form} {a : K} (hf : read f = some a) : read f.square = some (a * a) := by
  rw [Form.square, h.pow.mpr ⟨a, hf, .inr (by decide), zpow_two a⟩]

/-- The quotient of two expressions. -/
theorem div {f g : Form} {a b : K} (hf : read f = some a) (hg : read g = some b)
    (nonzero : b ≠ 0) : read (.product [f, g.reciprocal]) = some (a / b) := by
  rw [h.mul hf (h.reciprocal hg nonzero), div_eq_mul_inv]

/-- The difference of two expressions. -/
theorem sub {f g : Form} {a b : K} (hf : read f = some a) (hg : read g = some b) :
    read (.sum [f, .product [.integer (-1), g]]) = some (a - b) := by
  rw [h.add hf (h.mul (h.integer (-1)) hg)]
  push_cast
  ring_nf

/-! ## Shortcuts -/

/-- What has a value is not taken in by not-a-number. -/
theorem times_eq_product {f : Form} {a : K} (hf : read f = some a) (g : Form) :
    f.times g = .product [f, g] := by
  cases f with
  | nan => simp [h.nan] at hf
  | _ => rfl

theorem difference_eq_sum {f : Form} {a : K} (hf : read f = some a) (g : Form) :
    f.difference g = .sum [f, g.neg] := by
  cases f with
  | nan => simp [h.nan] at hf
  | _ => rfl

/-- Taking an integer into a product multiplies its value by the integer. -/
theorem takeIn (k : Int) {fs : List Form} {x : K} (hfs : read (.product fs) = some x) :
    read (.product (Form.takeIn k fs)) = some (k * x) := by
  unfold Form.takeIn
  split
  · rename_i unit
    rw [hfs, unit, Int.cast_one, one_mul]
  split
  · exact h.product_cons.mpr ⟨k, x, h.integer k, hfs, rfl⟩
  · rename_i first rest
    obtain ⟨a, b, ha, hb, rfl⟩ := h.product_cons.mp hfs
    split
    · exact h.product_cons.mpr ⟨k, a * b, h.integer k, hfs, rfl⟩
    · rename_i opposite number
      split
      · rename_i minus
        refine h.product_cons.mpr ⟨-a, b, h.opposite number ha, hb, ?_⟩
        rw [minus]
        push_cast
        ring
      · rw [h.times_eq_product ha]
        exact h.product_cons.mpr ⟨a * k, b, h.mul ha (h.integer k), hb, by ring⟩

theorem neg {f : Form} {a : K} (hf : read f = some a) : read f.neg = some (-a) := by
  unfold Form.neg
  split
  · rename_i n rest
    obtain ⟨m, b, hn, hb, rfl⟩ := h.product_cons.mp hf
    obtain rfl : (n : K) = m := Option.some.inj ((h.integer n).symm.trans hn)
    rw [h.productOf (h.takeIn (-n) hb)]
    push_cast
    ring_nf
  · rw [h.productOf (h.takeIn (-1) hf)]
    push_cast
    ring_nf
  · split
    · rename_i opposite number
      exact h.opposite number hf
    · rw [h.mul (h.integer (-1)) hf]
      push_cast
      ring_nf

theorem difference {f g : Form} {a b : K} (hf : read f = some a) (hg : read g = some b) :
    read (f.difference g) = some (a - b) := by
  rw [h.difference_eq_sum hf, h.add hf (h.neg hg), sub_eq_add_neg]

/-- One over a term is written without the one. -/
theorem quotient {f g : Form} {a b : K} (hf : read f = some a) (hg : read g = some b)
    (nonzero : b ≠ 0) : read (f.quotient g) = some (a / b) := by
  have inverse := h.reciprocal hg nonzero
  unfold Form.quotient
  split
  · rw [h.integer] at hf
    cases hf
    rw [inverse, Int.cast_one, one_div]
  · rw [h.times_eq_product hf, h.mul hf inverse, div_eq_mul_inv]

/-! ## Means and variances -/

variable [CharZero K] {A : Arithmetic K} {α : Type} {as : List α} {form : α → Form} {v : α → K}

theorem mean (field : A.OfField) (each : ∀ a ∈ as, read (form a) = some (v a)) :
    read (mean (as.map form)) = some (A.mean (as.map v)) := by
  rw [field.mean, List.length_map]
  cases as with
  | nil => simp [Form.mean, h.integer]
  | cons a as =>
    have count : ((a :: as).length : K) ≠ 0 := by simp [Nat.cast_add_one_ne_zero]
    have whole : read (.integer (a :: as).length) = some ((a :: as).length : K) := by
      rw [h.integer, Int.cast_natCast]
    have quotient := h.quotient (h.sumOf_map each) whole count
    simpa [Form.mean] using quotient

theorem variance (field : A.OfField) (each : ∀ a ∈ as, read (form a) = some (v a)) :
    read (variance (as.map form)) = some (A.variance (as.map v)) := by
  have center := h.mean field each
  have squares : ∀ a ∈ as, read (Form.square ((form a).difference (Form.mean (as.map form)))) =
      some (A.mul (A.sub (v a) (A.mean (as.map v))) (A.sub (v a) (A.mean (as.map v)))) := by
    intro a ha
    rw [field.mul, field.sub]
    exact h.square (h.difference (each a ha) center)
  have spread := h.mean field squares
  rw [Form.variance, List.map_map, Arithmetic.variance, Arithmetic.squaredDeviations, List.map_map]
  exact spread

end Reading

end ExprCalculus.Form

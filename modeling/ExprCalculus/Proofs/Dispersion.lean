import Mathlib
import ExprCalculus.Proofs.Correspondence
import ExprCalculus.Proofs.ExactArithmetic

/-!
# Means and variances of values

In exact arithmetic the mean, which is added up from left to right, is the sum of the values divided
by their number, and the variance is the mean of the squared distances from it. The laws of the
variance are read off this sum of squares: the distances do not change when all values are shifted,
they are scaled with the values, and a sum of squares is zero only if each of them is.

A field gives every quotient a value. So that no division by zero can hide behind this, means and
variances are computed once more where a division by zero has no value: they have the same value
there, for no values as for many.
-/

namespace ExprCalculus

theorem forall₂_map_some {α : Type} (as : List α) :
    List.Forall₂ (fun a result => result = some a) as (as.map some) := by
  rw [List.forall₂_map_right_iff]
  exact List.forall₂_same.mpr fun _ _ => rfl

variable {K : Type} [Field K]

/-! ## Sums over values -/

/-- The number of values is not zero in the field, either. -/
theorem cast_length_ne_zero [CharZero K] {vs : List K} (h : vs ≠ []) : (vs.length : K) ≠ 0 :=
  Nat.cast_ne_zero.mpr (List.length_pos_iff.mpr h).ne'

/-- The squared distances from any point, multiplied out. -/
theorem sum_sq_sub (vs : List K) (c : K) : (vs.map fun v => (v - c) ^ 2).sum =
    (vs.map fun v => v * v).sum - 2 * c * vs.sum + vs.length * c ^ 2 := by
  induction vs with
  | nil => simp
  | cons v vs ih =>
    simp only [List.map_cons, List.sum_cons, List.length_cons, Nat.cast_add_one, ih]
    ring

variable [LinearOrder K]

/-- A sum of squares is zero only if all of them are. -/
theorem sum_sq_eq_zero_iff [IsStrictOrderedRing K] {α : Type} (f : α → K) (as : List α) :
    (as.map fun a => f a ^ 2).sum = 0 ↔ ∀ a ∈ as, f a = 0 := by
  induction as with
  | nil => simp
  | cons a as ih =>
    have rest : 0 ≤ (as.map fun a => f a ^ 2).sum :=
      List.sum_nonneg (List.forall_mem_map.mpr fun a _ => sq_nonneg (f a))
    rw [List.map_cons, List.sum_cons, add_eq_zero_iff_of_nonneg (sq_nonneg _) rest, ih,
      sq_eq_zero_iff, List.forall_mem_cons]

namespace Arithmetic

variable (E : K → K)

/-! ## No division by zero -/

/-- Exact arithmetic where a division by zero has no value, and neither has what needs it. -/
def checked : Arithmetic (Option K) where
  ofDouble value := some value.exact
  ofNat n := some n
  undefined := none
  add := Option.map₂ (· + ·)
  sub := Option.map₂ (· - ·)
  mul := Option.map₂ (· * ·)
  div a b := b.bind fun b => if b = 0 then none else a.map (· / b)
  neg := Option.map (- ·)
  abs := Option.map (|·|)
  exp := Option.map E
  select c a b := c.bind fun c => if 0 ≤ c then a else b

/-- Means and variances divide by the number of values, and only if there are any. -/
theorem averages_checked [CharZero K] :
    (exact E).Averages (checked E) fun value result => result = some value where
  zero := rfl
  add := by rintro a c _ _ rfl rfl; rfl
  sub := by rintro a c _ _ rfl rfl; rfl
  mul := by rintro a c _ _ rfl rfl; rfl
  divCount := by
    rintro a _ n rfl
    have count : ((n + 1 : ℕ) : K) ≠ 0 := Nat.cast_ne_zero.mpr n.succ_ne_zero
    exact if_neg count

/-- A mean divides by nothing that is zero, so that the check never fails. -/
theorem mean_checked [CharZero K] (vs : List K) :
    (checked E).mean (vs.map some) = some ((exact E).mean vs) :=
  (averages_checked E).mean (forall₂_map_some vs)

/-- Nor does a variance. -/
theorem variance_checked [CharZero K] (vs : List K) :
    (checked E).variance (vs.map some) = some ((exact E).variance vs) :=
  (averages_checked E).variance (forall₂_map_some vs)

/-! ## Laws -/

/-- The variance is the mean of the squared distances from the mean. -/
theorem variance_exact (vs : List K) : (exact E).variance vs =
    (vs.map fun v => (v - (exact E).mean vs) ^ 2).sum / vs.length := by
  simp only [variance, squaredDeviations, mean_exact, List.length_map, exact_mul, exact_sub,
    pow_two]

theorem variance_nil : (exact E).variance [] = 0 := by
  rw [variance_exact, List.map_nil, List.sum_nil, zero_div]

theorem mean_perm {vs ws : List K} (h : vs.Perm ws) : (exact E).mean vs = (exact E).mean ws := by
  rw [mean_exact, mean_exact, h.sum_eq, h.length_eq]

theorem variance_perm {vs ws : List K} (h : vs.Perm ws) :
    (exact E).variance vs = (exact E).variance ws := by
  rw [variance_exact, variance_exact, mean_perm E h, (h.map _).sum_eq, h.length_eq]

theorem mean_map_add [CharZero K] {vs : List K} (nonempty : vs ≠ []) (c : K) :
    (exact E).mean (vs.map (· + c)) = (exact E).mean vs + c := by
  have count := cast_length_ne_zero nonempty
  have total : (vs.map (· + c)).sum = vs.sum + vs.length * c := by simp [List.sum_map_add]
  rw [mean_exact, mean_exact, total, List.length_map]
  field_simp

/-- A shift moves the mean with the values, so it changes no distance from the mean. -/
theorem variance_map_add [CharZero K] (vs : List K) (c : K) :
    (exact E).variance (vs.map (· + c)) = (exact E).variance vs := by
  rcases eq_or_ne vs [] with rfl | nonempty
  · rfl
  · have distance (v : K) : v + c - ((exact E).mean vs + c) = v - (exact E).mean vs := by ring
    rw [variance_exact, variance_exact, mean_map_add E nonempty, List.length_map, List.map_map]
    simp only [Function.comp_def, distance]

theorem mean_map_mul (vs : List K) (k : K) :
    (exact E).mean (vs.map (k * ·)) = k * (exact E).mean vs := by
  rw [mean_exact, mean_exact, List.length_map, List.sum_map_mul_left, List.map_id', mul_div_assoc]

theorem variance_map_mul (vs : List K) (k : K) :
    (exact E).variance (vs.map (k * ·)) = k * k * (exact E).variance vs := by
  have square (v : K) : (k * v - k * (exact E).mean vs) ^ 2 =
      k * k * (v - (exact E).mean vs) ^ 2 := by ring
  rw [variance_exact, variance_exact, mean_map_mul, List.length_map, List.map_map]
  simp only [Function.comp_def, square, List.sum_map_mul_left, mul_div_assoc]

/-- The variance is the mean of the squares less the square of the mean. -/
theorem variance_eq_mean_mul_self_sub [CharZero K] (vs : List K) : (exact E).variance vs =
    (exact E).mean (vs.map fun v => v * v) - (exact E).mean vs * (exact E).mean vs := by
  rcases eq_or_ne vs [] with rfl | nonempty
  · simp [variance_nil, mean_exact]
  · have count := cast_length_ne_zero nonempty
    rw [variance_exact, sum_sq_sub, mean_exact, mean_exact, List.length_map]
    field_simp
    ring

theorem variance_nonneg [IsStrictOrderedRing K] (vs : List K) : 0 ≤ (exact E).variance vs := by
  rw [variance_exact]
  refine div_nonneg (List.sum_nonneg ?_) (Nat.cast_nonneg _)
  exact List.forall_mem_map.mpr fun v _ => sq_nonneg _

/-- The variance is zero when every value is the mean, so that all values are equal. -/
theorem variance_eq_zero_iff [IsStrictOrderedRing K] (vs : List K) :
    (exact E).variance vs = 0 ↔ ∀ v ∈ vs, ∀ w ∈ vs, v = w := by
  rcases eq_or_ne vs [] with rfl | nonempty
  · simp [variance_nil]
  · have count := cast_length_ne_zero nonempty
    rw [variance_exact, div_eq_zero_iff, or_iff_left count, sum_sq_eq_zero_iff]
    constructor
    · intro h v hv w hw
      rw [sub_eq_zero.mp (h v hv), sub_eq_zero.mp (h w hw)]
    · intro h v hv
      -- Any value of equal ones is their mean.
      have all : vs = List.replicate vs.length v :=
        List.eq_replicate_length.mpr fun w hw => h w hw v hv
      have total : vs.sum = vs.length * v := by
        conv_lhs => rw [all, List.sum_replicate, nsmul_eq_mul]
      rw [mean_exact, total, mul_div_cancel_left₀ v count, sub_self]

/-- The mean of any number of values is their sum divided by their number, and their variance is the
mean of the squared distances from it. Neither depends on the order of the values. The variance is
not negative, it is zero exactly if all values are equal, a shift of all values keeps it, and a
factor on all of them goes into it twice; it is also the mean of the squares less the square of the
mean. No division by zero takes place. -/
theorem mean_and_population_variance [IsStrictOrderedRing K] (vs : List K) :
    (exact E).mean vs = vs.sum / vs.length ∧
    (exact E).variance vs = (vs.map fun v => (v - (exact E).mean vs) ^ 2).sum / vs.length ∧
    (∀ ws : List K, vs.Perm ws →
      (exact E).mean vs = (exact E).mean ws ∧ (exact E).variance vs = (exact E).variance ws) ∧
    0 ≤ (exact E).variance vs ∧
    ((exact E).variance vs = 0 ↔ ∀ v ∈ vs, ∀ w ∈ vs, v = w) ∧
    (∀ c, (exact E).variance (vs.map (· + c)) = (exact E).variance vs) ∧
    (∀ k, (exact E).variance (vs.map (k * ·)) = k * k * (exact E).variance vs) ∧
    (exact E).variance vs =
      (exact E).mean (vs.map fun v => v * v) - (exact E).mean vs * (exact E).mean vs ∧
    (checked E).mean (vs.map some) = some ((exact E).mean vs) ∧
    (checked E).variance (vs.map some) = some ((exact E).variance vs) := by
  refine ⟨mean_exact E vs, variance_exact E vs, fun ws h => ⟨mean_perm E h, variance_perm E h⟩,
    variance_nonneg E vs, variance_eq_zero_iff E vs, variance_map_add E vs, variance_map_mul E vs,
    variance_eq_mean_mul_self_sub E vs, mean_checked E vs, variance_checked E vs⟩

/-- Three rational numbers, in two orders, and then shifted and scaled. -/
theorem mean_and_population_variance_of_three :
    let A : Arithmetic ℚ := exact id
    A.mean [1, 2, 4] = 7 / 3 ∧ A.variance [1, 2, 4] = 14 / 9 ∧
    A.variance [4, 1, 2] = 14 / 9 ∧ A.variance [6, 7, 9] = 14 / 9 ∧
    A.variance [-3, -6, -12] = 14 ∧ (checked id).variance [some (1 : ℚ), some 2, some 4] =
      some (14 / 9) := by
  intro A
  obtain ⟨mean, square, order, -, -, shift, factor, -, -, checked⟩ :=
    mean_and_population_variance (id : ℚ → ℚ) [1, 2, 4]
  have value : A.mean [1, 2, 4] = 7 / 3 := by
    rw [mean]
    norm_num
  have variance : A.variance [1, 2, 4] = 14 / 9 := by
    rw [square, value]
    norm_num
  have shifted := shift 5
  have scaled := factor (-3)
  norm_num at shifted scaled
  refine ⟨value, variance, ?_, shifted.trans variance, scaled.trans ?_, ?_⟩
  · exact (order [4, 1, 2] (by decide)).2.symm.trans variance
  · rw [show (exact id).variance [1, 2, 4] = (14 / 9 : ℚ) from variance]
    norm_num
  · exact checked.trans (congrArg some variance)

end Arithmetic

end ExprCalculus

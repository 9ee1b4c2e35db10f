import Mathlib
import ExprCalculus.Number.Shortest

/-!
# Rounding finds the nearest double

The positive ratios are divided into one interval per code, from the midpoint below its magnitude
to the midpoint above; a midpoint belongs to the even one of its two codes. `Rounds` says that a
ratio lies in the interval of a code. Every ratio lies in exactly one, that of `codeOfRatio`, and so
a decimal that a code covers is read as the double of that code.
-/

namespace ExprCalculus

/- Powers of natural numbers are those of the core library. -/
attribute [local instance (20000)] instPowNat instNatPowNat

/-- Two decimals stand for one number. -/
def Decimal.SameValue (a b : Decimal) : Prop := a.ratio.1 * b.ratio.2 = b.ratio.1 * a.ratio.2

namespace Double

/-- The ratio `n / d` of units lies in the interval of the reals that round to the code. -/
structure Rounds (code n d : Nat) : Prop where
  lower : lowerEnd code * d ≤ 2 * n
  upper : 2 * n ≤ upperEnd code * d
  lower_of_odd : code % 2 = 1 → lowerEnd code * d < 2 * n
  upper_of_odd : code % 2 = 1 → 2 * n < upperEnd code * d

theorem units_le_units {a b : Nat} (h : a ≤ b) : units a ≤ units b := by
  rcases Nat.lt_or_eq_of_le h with h | rfl
  · exact Nat.le_of_lt (units_lt_units h)
  · exact le_rfl

/-- Different codes have different values. -/
theorem units_injective {a b : Nat} (h : units a = units b) : a = b := by
  rcases Nat.lt_trichotomy a b with hab | rfl | hab
  · exact absurd h (units_lt_units hab).ne
  · rfl
  · exact absurd h (units_lt_units hab).ne'

/-- A ratio rounds to one code at most: of two neighbours the even one has the end they share. -/
theorem not_rounds_of_lt {a b n d : Nat} (pos : 0 < d) (lt : a < b) (ha : Rounds a n d)
    (hb : Rounds b n d) : False := by
  obtain ⟨c, rfl⟩ : ∃ c, b = c + 1 := ⟨b - 1, by omega⟩
  have low := units_le_units (show a ≤ c by omega)
  have high := units_le_units (show a + 1 ≤ c + 1 by omega)
  have ends : upperEnd a ≤ lowerEnd (c + 1) := by
    unfold upperEnd lowerEnd
    rw [Nat.add_sub_cancel]
    omega
  have between := Nat.mul_le_mul_right d ends
  have lower := hb.lower
  have upper := ha.upper
  -- The ratio is the common end of both intervals, which only the even code owns.
  have same : upperEnd a = lowerEnd (c + 1) :=
    Nat.eq_of_mul_eq_mul_right pos (by omega)
  have adjacent : a = c := by
    refine units_injective ?_
    unfold upperEnd lowerEnd at same
    rw [Nat.add_sub_cancel] at same
    omega
  subst adjacent
  rcases Nat.mod_two_eq_zero_or_one a with even | odd
  · have := hb.lower_of_odd (by omega)
    omega
  · have := ha.upper_of_odd odd
    omega

/-- A ratio rounds to one code only. -/
theorem Rounds.unique {a b n d : Nat} (pos : 0 < d) (ha : Rounds a n d) (hb : Rounds b n d) :
    a = b := by
  rcases Nat.lt_trichotomy a b with h | h | h
  · exact (not_rounds_of_lt pos h ha hb).elim
  · exact h
  · exact (not_rounds_of_lt pos h hb ha).elim

/-! ## The code that rounding computes -/

/-- Counting `q` units in the last place from the first code of a binade, up to the first code of
the next, gives the magnitude `q * 2 ^ e`. -/
theorem units_of_binade {e q : Nat} (low : e = 0 ∨ 2 ^ (52 : Nat) ≤ q) (high : q ≤ 2 ^ (53 : Nat)) :
    units (e * 2 ^ (52 : Nat) + q) = q * 2 ^ e := by
  rcases Nat.lt_or_eq_of_le high with lt | rfl
  · have exponent_eq : exponent (e * 2 ^ (52 : Nat) + q) = e := by
      unfold exponent
      omega
    rw [units, significand, exponent_eq, Nat.add_sub_cancel_left]
  · have exponent_eq : exponent (e * 2 ^ (52 : Nat) + 2 ^ (53 : Nat)) = e + 1 := by
      unfold exponent
      omega
    have significand_eq : e * 2 ^ (52 : Nat) + 2 ^ (53 : Nat) - (e + 1) * 2 ^ (52 : Nat) =
        2 ^ (52 : Nat) := by omega
    rw [units, significand, exponent_eq, significand_eq, ← Nat.pow_add, ← Nat.pow_add]
    congr 1
    omega

/-- The lower end of a code inside a binade lies half a spacing below its value. -/
theorem lowerEnd_of_binade {e q : Nat} (low : e = 0 ∧ 0 < q ∨ 2 ^ (52 : Nat) < q)
    (high : q ≤ 2 ^ (53 : Nat)) :
    lowerEnd (e * 2 ^ (52 : Nat) + q) = (2 * q - 1) * 2 ^ e := by
  obtain ⟨r, rfl⟩ : ∃ r, q = r + 1 := ⟨q - 1, by omega⟩
  have here : units (e * 2 ^ (52 : Nat) + (r + 1)) = (r + 1) * 2 ^ e :=
    units_of_binade (by omega) high
  have below : units (e * 2 ^ (52 : Nat) + r) = r * 2 ^ e := units_of_binade (by omega) (by omega)
  rw [lowerEnd, here, ← Nat.add_assoc, Nat.add_sub_cancel, below, ← Nat.add_mul]
  congr 1
  omega

/-- The upper end of a code inside a binade lies at least half a spacing above its value. -/
theorem le_upperEnd_of_binade {e q : Nat} (low : e = 0 ∨ 2 ^ (52 : Nat) ≤ q)
    (high : q ≤ 2 ^ (53 : Nat)) : (2 * q + 1) * 2 ^ e ≤ upperEnd (e * 2 ^ (52 : Nat) + q) := by
  have e_le : e ≤ exponent (e * 2 ^ (52 : Nat) + q) := by
    unfold exponent
    omega
  have step : 2 ^ e ≤ 2 ^ exponent (e * 2 ^ (52 : Nat) + q) := Nat.pow_le_pow_right (by decide) e_le
  rw [upperEnd, units_succ, units_of_binade low high]
  calc (2 * q + 1) * 2 ^ e = q * 2 ^ e + (q * 2 ^ e + 2 ^ e) := by ring
    _ ≤ q * 2 ^ e + (q * 2 ^ e + 2 ^ exponent (e * 2 ^ (52 : Nat) + q)) := by omega

/-- The binade is the one of the whole part, and the lowest one for all that is smaller. -/
theorem binade_bounds {n d e : Nat} (pos : 0 < d) (he : Nat.log2 (n / d) - 52 = e) :
    n < 2 ^ (53 : Nat) * (d * 2 ^ e) ∧ (e = 0 ∨ 2 ^ (52 : Nat) * (d * 2 ^ e) ≤ n) := by
  have swap (k : Nat) : 2 ^ k * (d * 2 ^ e) = 2 ^ (e + k) * d := by rw [Nat.pow_add]; ring
  rw [swap, swap]
  constructor
  · refine (Nat.div_lt_iff_lt_mul pos).mp (lt_of_lt_of_le Nat.lt_log2_self ?_)
    exact Nat.pow_le_pow_right (by decide) (by omega)
  · rcases Nat.eq_zero_or_pos e with h | h
    · exact .inl h
    · have whole : n / d ≠ 0 := by
        intro h0
        rw [h0, Nat.log2_zero] at he
        omega
      exact .inr ((Nat.le_div_iff_mul_le pos).mp ((Nat.le_log2 whole).mp (by omega)))

/-- Within the bounds of the binade the rounded quotient counts units in the last place of it. -/
theorem quotient_bounds {n unit q e : Nat} (upper : 2 * n ≤ (2 * q + 1) * unit)
    (lower : 2 * q * unit ≤ 2 * n + unit) (below : n < 2 ^ (53 : Nat) * unit)
    (above : e = 0 ∨ 2 ^ (52 : Nat) * unit ≤ n) :
    q ≤ 2 ^ (53 : Nat) ∧ (e = 0 ∨ 2 ^ (52 : Nat) ≤ q) := by
  constructor
  · by_contra h
    have := Nat.mul_le_mul_right unit (show 2 ^ (54 : Nat) + 2 ≤ 2 * q by omega)
    rw [Nat.add_mul] at this
    omega
  · refine above.imp_right fun above => ?_
    by_contra h
    have := Nat.mul_le_mul_right unit (show 2 * q + 1 ≤ 2 ^ (53 : Nat) - 1 by omega)
    rw [Nat.sub_mul] at this
    omega

/-- A ratio at most half a spacing below a quotient is not below the lower end of its code, and is
above it where the quotient is odd and there is no tie. -/
theorem lowerEnd_mul_le {n d e q : Nat} (high : q ≤ 2 ^ (53 : Nat))
    (low : e = 0 ∨ 2 ^ (52 : Nat) ≤ q) (above : e = 0 ∨ 2 ^ (52 : Nat) * (d * 2 ^ e) ≤ n)
    (lower : 2 * q * (d * 2 ^ e) ≤ 2 * n + d * 2 ^ e) :
    lowerEnd (e * 2 ^ (52 : Nat) + q) * d ≤ 2 * n ∧ (q % 2 = 1 →
      2 * q * (d * 2 ^ e) ≠ 2 * n + d * 2 ^ e → lowerEnd (e * 2 ^ (52 : Nat) + q) * d < 2 * n) := by
  by_cases inside : e = 0 ∧ 0 < q ∨ 2 ^ (52 : Nat) < q
  · have ends : lowerEnd (e * 2 ^ (52 : Nat) + q) * d + d * 2 ^ e = 2 * q * (d * 2 ^ e) := by
      obtain ⟨r, rfl⟩ : ∃ r, q = r + 1 := ⟨q - 1, by omega⟩
      rw [lowerEnd_of_binade inside high, show 2 * (r + 1) - 1 = 2 * r + 1 by omega]
      ring
    exact ⟨by omega, by omega⟩
  -- The first code of a binade is even, and no ratio below its magnitude has this binade.
  · refine ⟨?_, by omega⟩
    have ends : lowerEnd (e * 2 ^ (52 : Nat) + q) ≤ 2 * (q * 2 ^ e) := by
      rw [← units_of_binade low high, lowerEnd]
      have := units_le_units (Nat.sub_le (e * 2 ^ (52 : Nat) + q) 1)
      omega
    have first : q * (d * 2 ^ e) ≤ n := by
      rcases Nat.eq_zero_or_pos q with rfl | hq
      · simp
      · obtain rfl : q = 2 ^ (52 : Nat) := by omega
        omega
    calc lowerEnd (e * 2 ^ (52 : Nat) + q) * d ≤ 2 * (q * 2 ^ e) * d := Nat.mul_le_mul_right d ends
      _ = 2 * (q * (d * 2 ^ e)) := by ring
      _ ≤ 2 * n := by omega

/-- Every ratio lies in the interval of the code that rounding computes. -/
theorem rounds_codeOfRatio (n : Nat) {d : Nat} (pos : 0 < d) : Rounds (codeOfRatio n d) n d := by
  unfold codeOfRatio
  generalize he : Nat.log2 (n / d) - 52 = e
  obtain ⟨below, above⟩ := binade_bounds pos he
  have unit_pos : 0 < d * 2 ^ e := Nat.mul_pos pos (Nat.two_pow_pos e)
  obtain ⟨upper, lower, tie⟩ := roundDiv_nearest n unit_pos
  dsimp only
  generalize roundDiv n (d * 2 ^ e) = q at *
  obtain ⟨high, low⟩ := quotient_bounds upper lower below above
  obtain ⟨lowerEnd_le, lowerEnd_lt⟩ := lowerEnd_mul_le high low above lower
  have le_upperEnd : (2 * q + 1) * (d * 2 ^ e) ≤ upperEnd (e * 2 ^ (52 : Nat) + q) * d := by
    calc (2 * q + 1) * (d * 2 ^ e) = (2 * q + 1) * 2 ^ e * d := by ring
      _ ≤ _ := Nat.mul_le_mul_right d (le_upperEnd_of_binade low high)
  -- The code has the parity of the quotient, and an odd quotient is no tie.
  have no_tie (odd : (e * 2 ^ (52 : Nat) + q) % 2 = 1) : q % 2 = 1 ∧
      2 * n ≠ (2 * q + 1) * (d * 2 ^ e) ∧ 2 * q * (d * 2 ^ e) ≠ 2 * n + d * 2 ^ e := by
    have odd_quotient : q % 2 = 1 := by omega
    have := mt tie (by omega)
    exact ⟨odd_quotient, not_or.mp this⟩
  refine ⟨lowerEnd_le, upper.trans le_upperEnd, fun odd => ?_, fun odd => ?_⟩
  · obtain ⟨odd_quotient, -, above_tie⟩ := no_tie odd
    exact lowerEnd_lt odd_quotient above_tie
  · obtain ⟨-, below_tie, -⟩ := no_tie odd
    exact (lt_of_le_of_ne upper below_tie).trans_le le_upperEnd

/-! ## Decimals -/

/-- Rounding sees the value of a ratio only. -/
theorem Rounds.congr {code n d n' d' : Nat} (pos : 0 < d) (pos' : 0 < d')
    (same : n * d' = n' * d) (h : Rounds code n d) : Rounds code n' d' := by
  have left (a : Nat) : a * d' * d = a * d * d' := by ring
  have right : 2 * n' * d = 2 * n * d' := by rw [Nat.mul_assoc, ← same, Nat.mul_assoc]
  have le_iff (a : Nat) : a * d' ≤ 2 * n' ↔ a * d ≤ 2 * n := by
    rw [← Nat.mul_le_mul_right_iff pos, left, right, Nat.mul_le_mul_right_iff pos']
  have ge_iff (a : Nat) : 2 * n' ≤ a * d' ↔ 2 * n ≤ a * d := by
    rw [← Nat.mul_le_mul_right_iff pos, left, right, Nat.mul_le_mul_right_iff pos']
  refine ⟨(le_iff _).mpr h.lower, (ge_iff _).mpr h.upper, fun odd => ?_, fun odd => ?_⟩
  · have := (ge_iff (lowerEnd code)).not.mpr (Nat.not_le.mpr (h.lower_of_odd odd))
    exact Nat.lt_of_not_le this
  · have := (le_iff (upperEnd code)).not.mpr (Nat.not_le.mpr (h.upper_of_odd odd))
    exact Nat.lt_of_not_le this

/-- What rounds to a code is the only thing that its ratio is rounded to. -/
theorem Rounds.eq_codeOfRatio {code n d : Nat} (pos : 0 < d) (h : Rounds code n d) :
    code = codeOfRatio n d :=
  h.unique pos (rounds_codeOfRatio n pos)

/-- The magnitude of a code rounds to the code, however it is written as a ratio. -/
theorem rounds_units {code n d : Nat} (pos : 0 < d) (same : units code * d = n) :
    Rounds code n d := by
  have h := rounds_codeOfRatio (units code) Nat.one_pos
  rw [codeOfRatio_units] at h
  exact h.congr Nat.one_pos pos (by rw [Nat.mul_one, same])

theorem ratio_pos (decimal : Decimal) : 0 < decimal.ratio.2 := by
  unfold Decimal.ratio
  split
  · exact Nat.one_pos
  · exact Nat.pow_pos (by decide)

/-- Twice a multiple of a power is one of the next power. -/
theorem two_mul_scaled (n k k' : Nat) (next : k' = k + 1) : 2 * (n * 2 ^ k) = n * 2 ^ k' := by
  rw [next, Nat.pow_add_one]
  ring

/-- A power of ten is above twice a multiple of a power of two if it has more bits, counting three
for a factor of ten. -/
theorem two_mul_lt_ten_pow (n m : Nat) {k : Nat} (bits : Nat.log2 n + m + 2 ≤ 3 * k) :
    2 * (n * 2 ^ m) < 10 ^ k :=
  calc 2 * (n * 2 ^ m) = n * 2 ^ (m + 1) := two_mul_scaled n m (m + 1) rfl
    _ < 2 ^ (Nat.log2 n + 1) * 2 ^ (m + 1) :=
        Nat.mul_lt_mul_of_pos_right Nat.lt_log2_self (Nat.two_pow_pos _)
    _ = 2 ^ (Nat.log2 n + 1 + (m + 1)) := (Nat.pow_add _ _ _).symm
    _ ≤ 2 ^ (3 * k) := Nat.pow_le_pow_right (by decide) (by omega)
    _ = (2 ^ (3 : Nat)) ^ k := Nat.pow_mul _ _ _
    _ ≤ 10 ^ k := Nat.pow_le_pow_left (by decide) k

theorem ratio_fst_mul_of_coefficient {decimal : Decimal} (h : decimal.coefficient = 0) (n : Nat) :
    decimal.ratio.1 * n = 0 := by
  unfold Decimal.ratio
  split <;> simp [h]

theorem ratio_of_negative (coefficient : Nat) {k : Nat} (pos : 0 < k) :
    (⟨coefficient, -k⟩ : Decimal).ratio = (coefficient, 10 ^ k) := by
  have negative : ¬ (0 : Int) ≤ -k := by omega
  rw [Decimal.ratio, if_neg negative, Int.neg_neg, Int.toNat_natCast]

/-- A code covers the decimals that round to it. -/
theorem covers_iff_rounds {code : Nat} {decimal : Decimal} :
    Covers code decimal ↔ Rounds code (decimal.ratio.1 * 2 ^ (1074 : Nat)) decimal.ratio.2 := by
  have twice : 2 * (decimal.ratio.1 * 2 ^ (1074 : Nat)) = decimal.ratio.1 * 2 ^ (1075 : Nat) :=
    two_mul_scaled decimal.ratio.1 1074 1075 rfl
  unfold Covers
  dsimp only
  rw [← twice]
  generalize decimal.ratio.1 * 2 ^ (1074 : Nat) = n
  split
  · rename_i even
    constructor
    · rintro ⟨lower, upper⟩
      exact ⟨lower, upper, by omega, by omega⟩
    · exact fun h => ⟨h.lower, h.upper⟩
  · rename_i odd
    constructor
    · rintro ⟨lower, upper⟩
      exact ⟨lower.le, upper.le, fun _ => lower, fun _ => upper⟩
    · exact fun h => ⟨h.lower_of_odd (by omega), h.upper_of_odd (by omega)⟩

/-- Covering depends on the value of a decimal alone, not on how it is scaled. -/
theorem Covers.congr {code : Nat} {a b : Decimal} (same : a.SameValue b) (h : Covers code a) :
    Covers code b := by
  refine covers_iff_rounds.mpr ((covers_iff_rounds.mp h).congr (ratio_pos a) (ratio_pos b) ?_)
  rw [Nat.mul_right_comm, same, Nat.mul_right_comm]

/-- The code after the greatest finite one has the value two to the power 1024. -/
theorem units_codes : units codes = 2 ^ (1024 : Nat) * 2 ^ (1074 : Nat) := by
  have last : codes = 2046 * 2 ^ (52 : Nat) + 2 ^ (52 : Nat) := rfl
  have regroup {a b c d : Nat} (same : a + b = c + d) :
      2 ^ a * 2 ^ b = 2 ^ c * 2 ^ d := by
    rw [← Nat.pow_add, ← Nat.pow_add, same]
  rw [last, units_of_binade (.inr le_rfl) (by decide)]
  exact regroup (a := 52) (b := 2046) (c := 1024) (d := 1074) rfl

/-- What is past the finite range is past the interval of every finite code. -/
theorem codes_le_of_overflows {code : Nat} {decimal : Decimal} (nonzero : decimal.coefficient ≠ 0)
    (large : overflows decimal = true) (h : Covers code decimal) : codes ≤ code := by
  obtain ⟨bits, whole⟩ := of_decide_eq_true large
  have rounds := covers_iff_rounds.mp h
  rw [Decimal.ratio, if_pos whole] at rounds
  generalize he : decimal.exponent.toNat = k at rounds
  have value_ge : 2 ^ (1024 : Nat) ≤ decimal.coefficient * 10 ^ k :=
    calc 2 ^ (1024 : Nat) ≤ 2 ^ (Nat.log2 decimal.coefficient + 3 * k) :=
          Nat.pow_le_pow_right (by decide) (by omega)
      _ = 2 ^ Nat.log2 decimal.coefficient * (2 ^ (3 : Nat)) ^ k := by rw [Nat.pow_add, Nat.pow_mul]
      _ ≤ decimal.coefficient * 10 ^ k :=
          Nat.mul_le_mul (Nat.log2_self_le nonzero) (Nat.pow_le_pow_left (by decide) k)
  have point := Nat.mul_le_mul_right (2 ^ (1074 : Nat)) value_ge
  rw [← units_codes] at point
  by_contra below
  have last := units_le_units (show code + 1 ≤ codes by omega)
  have here := units_lt_units (show code < codes by omega)
  have upper := rounds.upper
  rw [upperEnd, Nat.mul_one] at upper
  omega

/-- What is less than half of the least magnitude is below the interval of every positive code. -/
theorem eq_zero_of_underflows {code : Nat} {decimal : Decimal} (small : underflows decimal = true)
    (h : Covers code decimal) : code = 0 := by
  obtain ⟨bits, negative⟩ := of_decide_eq_true small
  have rounds := covers_iff_rounds.mp h
  rw [Decimal.ratio, if_neg (Int.not_le.mpr negative)] at rounds
  generalize he : (-decimal.exponent).toNat = k at rounds
  have value_lt := two_mul_lt_ten_pow decimal.coefficient 1074 (k := k) (by omega)
  by_contra positive
  have above := units_lt_units (Nat.pos_of_ne_zero positive)
  have ends : 10 ^ k ≤ lowerEnd code * 10 ^ k :=
    Nat.le_mul_of_pos_left _ (by rw [lowerEnd]; omega)
  have lower := rounds.lower
  dsimp only at lower
  omega

/-- A decimal is read as the code that covers it. -/
theorem ofDecimal_of_covers (negative : Bool) {code : Nat} {decimal : Decimal}
    (h : Covers code decimal) : ofDecimal negative decimal = ofCode negative code := by
  have code_eq := (covers_iff_rounds.mp h).eq_codeOfRatio (ratio_pos decimal)
  have ofCode_zero : ofCode negative 0 = zero negative := rfl
  unfold ofDecimal
  split
  · rename_i zero_coefficient
    rw [code_eq, ratio_fst_mul_of_coefficient zero_coefficient, codeOfRatio_zero, ofCode_zero]
  split
  · rename_i nonzero large
    have := codes_le_of_overflows nonzero large h
    rw [ofCode, dif_neg (Nat.not_lt.mpr this)]
  split
  · rename_i small
    rw [eq_zero_of_underflows small h, ofCode_zero]
  · rw [ofRatio, ← code_eq]

/-- Zero is covered by the code zero, whatever its exponent. -/
theorem covers_zero (exponent : Int) : Covers 0 ⟨0, exponent⟩ := by
  refine covers_iff_rounds.mpr (rounds_units (ratio_pos _) ?_)
  rw [ratio_fst_mul_of_coefficient rfl, units_zero, Nat.zero_mul]

/-- The decimal of a natural number is read as the code of its magnitude. -/
theorem covers_natural {code n : Nat} (h : units code = n * 2 ^ (1074 : Nat)) :
    Covers code ⟨n, 0⟩ := by
  refine covers_iff_rounds.mpr (rounds_units (ratio_pos _) ?_)
  have ratio_eq : (⟨n, 0⟩ : Decimal).ratio = (n * 10 ^ 0, 1) := rfl
  rw [ratio_eq, Nat.pow_zero, Nat.mul_one, Nat.mul_one, h]

theorem ten_pow (k : Nat) : 10 ^ k = 5 ^ k * 2 ^ k := by
  rw [← Nat.mul_pow]

/-- The exact expansion of a code is covered by the code. -/
theorem covers_expansion (code : Nat) : Covers code (expansion code) := by
  refine covers_iff_rounds.mpr (rounds_units (ratio_pos _) ?_)
  have place : (-1074 : Int) = -((1074 : Nat) : Int) := rfl
  rw [expansion, place, ratio_of_negative _ (by decide), ten_pow 1074, Nat.mul_assoc]

/-- The shortest decimal of a code is read as the code. -/
theorem covers_shortest (code : Nat) : Covers code (shortest code) := by
  unfold shortest
  dsimp only
  cases found : (List.range (coarsestPlace code + 1075).toNat).findSome?
      fun (i : Nat) => onGrid? code (coarsestPlace code - (i : Int)) with
  | none => exact covers_expansion code
  | some decimal =>
    obtain ⟨i, -, offered⟩ := List.exists_of_findSome?_eq_some found
    exact covers_of_onGrid? offered

end Double

end ExprCalculus

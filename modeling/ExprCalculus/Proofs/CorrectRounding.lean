import Mathlib
import ExprCalculus.Number.Numeral
import ExprCalculus.Proofs.ExactArithmetic
import ExprCalculus.Proofs.NearestDouble

/-!
# Numerals are rounded correctly

What a numeral stands for is said without codes and units. The numbers that a finite double can have
are the multiples of powers of two with at most 53 bits; the double of a number is the nearest of
them, and of two the one with the even significand; and from halfway between the largest of them and
the next power of two on it is an infinity. There is one such double for every number, and it is the
one that rounding computes, whatever the digits and the power of ten.
-/

namespace ExprCalculus

/- Powers of natural numbers are those of the core library. -/
attribute [local instance (20000)] instPowNat instNatPowNat

namespace Double

/-! ## The nearest of two numbers -/

/-- Of two points the lower one is at most as far as the upper one up to their middle. -/
theorem abs_sub_left_le_iff {x a b : ℚ} (h : a < b) : |x - a| ≤ |x - b| ↔ 2 * x ≤ a + b := by
  have gap : (x - b) ^ 2 - (x - a) ^ 2 = (b - a) * (a + b - 2 * x) := by ring
  rw [← sq_le_sq, ← sub_nonneg, gap, mul_nonneg_iff_of_pos_left (sub_pos.mpr h), sub_nonneg]

/-- The upper one is at most as far from their middle on. -/
theorem abs_sub_right_le_iff {x a b : ℚ} (h : a < b) : |x - b| ≤ |x - a| ↔ a + b ≤ 2 * x := by
  have gap : (x - a) ^ 2 - (x - b) ^ 2 = (b - a) * (2 * x - (a + b)) := by ring
  rw [← sq_le_sq, ← sub_nonneg, gap, mul_nonneg_iff_of_pos_left (sub_pos.mpr h), sub_nonneg]

/-! ## The interval of a code -/

/-- A code is nearest to a number of units among all codes, those past the finite range included. -/
structure Nearest (code : Nat) (x : ℚ) : Prop where
  closest (c : Nat) : |x - units code| ≤ |x - units c|
  even (c : Nat) : c ≠ code → |x - units c| = |x - units code| → code % 2 = 0

theorem units_cast_lt {a b : Nat} (h : a < b) : (units a : ℚ) < units b :=
  Nat.cast_lt.mpr (units_lt_units h)

theorem units_cast_le {a b : Nat} (h : a ≤ b) : (units a : ℚ) ≤ units b :=
  Nat.cast_le.mpr (units_le_units h)

theorem lowerEnd_cast (code : Nat) : (lowerEnd code : ℚ) = units (code - 1) + units code :=
  Nat.cast_add _ _

theorem upperEnd_cast (code : Nat) : (upperEnd code : ℚ) = units code + units (code + 1) :=
  Nat.cast_add _ _

theorem mul_le_two_mul_iff {m n d : Nat} (pos : 0 < d) :
    m * d ≤ 2 * n ↔ (m : ℚ) ≤ 2 * (n / d) := by
  rw [← mul_div_assoc, le_div_iff₀ (Nat.cast_pos.mpr pos)]
  exact_mod_cast Iff.rfl

theorem two_mul_le_mul_iff {m n d : Nat} (pos : 0 < d) :
    2 * n ≤ m * d ↔ 2 * ((n : ℚ) / d) ≤ m := by
  rw [← mul_div_assoc, div_le_iff₀ (Nat.cast_pos.mpr pos)]
  exact_mod_cast Iff.rfl

/-- The code that a ratio of natural numbers rounds to is nearest to the rational number. -/
theorem Rounds.nearest {code n d : Nat} (pos : 0 < d) (h : Rounds code n d) :
    Nearest code (n / d) := by
  have lower := (mul_le_two_mul_iff pos).mp h.lower
  have upper := (two_mul_le_mul_iff pos).mp h.upper
  rw [lowerEnd_cast] at lower
  rw [upperEnd_cast] at upper
  have below {c : Nat} (hc : c < code) : (units c : ℚ) ≤ units (code - 1) :=
    units_cast_le (by omega)
  have above {c : Nat} (hc : code < c) : (units (code + 1) : ℚ) ≤ units c := units_cast_le hc
  constructor
  · intro c
    rcases Nat.lt_trichotomy c code with hc | rfl | hc
    · rw [abs_sub_right_le_iff (units_cast_lt hc)]
      linarith [below hc]
    · exact le_rfl
    · rw [abs_sub_left_le_iff (units_cast_lt hc)]
      linarith [above hc]
  · intro c hne same
    by_contra not_even
    have odd : code % 2 = 1 := by omega
    rcases Nat.lt_or_gt_of_ne hne with hc | hc
    · have strict := (two_mul_le_mul_iff pos).not.mp (Nat.not_le.mpr (h.lower_of_odd odd))
      have := (abs_sub_left_le_iff (units_cast_lt hc)).mp same.le
      rw [lowerEnd_cast] at strict
      linarith [below hc]
    · have strict := (mul_le_two_mul_iff pos).not.mp (Nat.not_le.mpr (h.upper_of_odd odd))
      have := (abs_sub_right_le_iff (units_cast_lt hc)).mp same.le
      rw [upperEnd_cast] at strict
      linarith [above hc]

/-- Two codes are not both nearest: they would be neighbours, and both even. -/
theorem not_nearest_of_lt {a b : Nat} {x : ℚ} (lt : a < b) (ha : Nearest a x)
    (hb : Nearest b x) : False := by
  have middle := (abs_sub_right_le_iff (units_cast_lt lt)).mp (hb.closest a)
  have adjacent : b = a + 1 := by
    by_contra apart
    have between := (abs_sub_left_le_iff (units_cast_lt (Nat.lt_succ_self a))).mp
      (ha.closest (a + 1))
    have := units_cast_lt (show a + 1 < b by omega)
    linarith
  have same := le_antisymm (hb.closest a) (ha.closest b)
  have even_left := ha.even b lt.ne' same
  have even_right := hb.even a lt.ne same.symm
  omega

/-- At most one code is nearest. -/
theorem Nearest.unique {a b : Nat} {x : ℚ} (ha : Nearest a x) (hb : Nearest b x) : a = b := by
  rcases Nat.lt_trichotomy a b with h | h | h
  · exact (not_nearest_of_lt h ha hb).elim
  · exact h
  · exact (not_nearest_of_lt h hb ha).elim

/-! ## The finite range -/

theorem pred_codes_lt : codes - 1 < codes := by decide

/-- The nearest code is finite up to the midpoint above the largest finite one, which is odd and so
leaves the midpoint to its neighbour. -/
theorem Nearest.lt_codes_iff {code : Nat} {x : ℚ} (h : Nearest code x) :
    code < codes ↔ 2 * x < lowerEnd codes := by
  rw [lowerEnd_cast]
  have last : (units (codes - 1) : ℚ) < units codes := units_cast_lt pred_codes_lt
  constructor
  · intro finite
    have middle := (abs_sub_left_le_iff (units_cast_lt finite)).mp (h.closest codes)
    rcases Nat.lt_or_eq_of_le (show code ≤ codes - 1 by omega) with inner | rfl
    · linarith [units_cast_lt inner]
    · refine lt_of_le_of_ne middle fun tie => ?_
      have same : |x - units codes| = |x - units (codes - 1)| := by
        refine le_antisymm ?_ (h.closest codes)
        exact (abs_sub_right_le_iff last).mpr tie.ge
      exact absurd (h.even codes (by decide) same) (by decide)
  · intro small
    by_contra infinite
    have outer : codes ≤ code := Nat.not_lt.mp infinite
    have middle := (abs_sub_right_le_iff (units_cast_lt (pred_codes_lt.trans_le outer))).mp
      (h.closest (codes - 1))
    linarith [units_cast_le outer]

/-- Within the finite range the nearest of the finite codes is the nearest of all. -/
theorem Nearest.of_finite {code : Nat} {x : ℚ} (small : 2 * x < lowerEnd codes)
    (closest : ∀ c < codes, |x - units code| ≤ |x - units c|)
    (even : ∀ c < codes, c ≠ code → |x - units c| = |x - units code| → code % 2 = 0) :
    Nearest code x := by
  have beyond {c : Nat} (hc : codes ≤ c) : |x - units code| < |x - units c| := by
    refine (closest (codes - 1) pred_codes_lt).trans_lt (lt_of_not_ge fun le => ?_)
    have middle := (abs_sub_right_le_iff (units_cast_lt (pred_codes_lt.trans_le hc))).mp le
    rw [lowerEnd_cast] at small
    linarith [units_cast_le hc]
  constructor
  · intro c
    rcases Nat.lt_or_ge c codes with hc | hc
    · exact closest c hc
    · exact (beyond hc).le
  · intro c hne same
    rcases Nat.lt_or_ge c codes with hc | hc
    · exact even c hc hne same
    · exact absurd same (beyond hc).ne'

/-! ## The numbers of the finite doubles -/

/-- A multiple of a power of two with at most 53 bits, in the range of the finite doubles. -/
def Representable (r : ℚ) : Prop :=
  ∃ m k : ℤ, |m| < 2 ^ 53 ∧ -1074 ≤ k ∧ k ≤ 971 ∧ r = m * 2 ^ k

/-- A multiple of a power of two is the magnitude of a code if its factor has at most 53 bits. -/
theorem exists_units_eq {m e : Nat} (hm : m < 2 ^ (53 : Nat)) (he : e ≤ 2045) :
    ∃ code < codes, units code = m * 2 ^ e := by
  have finite {e m : Nat} (he : e ≤ 2045) (hm : m < 2 ^ (53 : Nat)) :
      e * 2 ^ (52 : Nat) + m < codes := by
    unfold codes
    omega
  induction e generalizing m with
  | zero => exact ⟨_, finite he hm, units_of_binade (.inl rfl) hm.le⟩
  | succ e ih =>
    rcases Nat.lt_or_ge m (2 ^ (52 : Nat)) with h | h
    · obtain ⟨code, hcode, value⟩ := ih (show 2 * m < 2 ^ (53 : Nat) by omega) (by omega)
      refine ⟨code, hcode, ?_⟩
      rw [value, Nat.pow_succ]
      ring
    · exact ⟨_, finite he hm, units_of_binade (.inr h) hm.le⟩

theorem scaled_cast (m e : Nat) : ((m * 2 ^ e : Nat) : ℚ) = m * 2 ^ e := by
  rw [Nat.cast_mul, Nat.cast_pow, Nat.cast_ofNat]

/-- A power with a biased exponent is a quotient of powers. -/
theorem two_zpow_sub (e bias : Nat) : (2 : ℚ) ^ ((e : ℤ) - bias) = 2 ^ e / 2 ^ bias := by
  rw [zpow_sub₀ two_ne_zero, zpow_natCast, zpow_natCast]

theorem Representable.neg {r : ℚ} (h : Representable r) : Representable (-r) := by
  obtain ⟨m, k, hm, low, high, rfl⟩ := h
  refine ⟨-m, k, by rwa [abs_neg], low, high, ?_⟩
  rw [Int.cast_neg, neg_mul]

theorem representable_units {code : Nat} (finite : code < codes) :
    Representable (units code / 2 ^ 1074) := by
  have range : exponent code ≤ 2045 := by
    unfold codes at finite
    unfold exponent
    omega
  refine ⟨significand code, exponent code - (1074 : Nat), ?_, by omega, by omega, ?_⟩
  · rw [Nat.abs_cast]
    exact_mod_cast significand_lt code
  · rw [two_zpow_sub, units, Int.cast_natCast, mul_div_assoc', scaled_cast]

/-- The representable numbers are the magnitudes of the finite codes, with a sign. -/
theorem representable_iff {r : ℚ} :
    Representable r ↔ ∃ code < codes, |r| = units code / 2 ^ 1074 := by
  constructor
  · rintro ⟨m, k, hm, low, high, rfl⟩
    obtain ⟨e, rfl⟩ : ∃ e : Nat, k = e - (1074 : Nat) := ⟨(k + 1074).toNat, by omega⟩
    obtain ⟨code, finite, value⟩ := exists_units_eq (m := m.natAbs) (e := e)
      (by zify; exact hm) (by omega)
    refine ⟨code, finite, ?_⟩
    have scale_pos : (0 : ℚ) < 2 ^ e / 2 ^ 1074 := div_pos (pow_pos two_pos _) (pow_pos two_pos _)
    rw [two_zpow_sub, value, abs_mul, abs_of_pos scale_pos, scaled_cast, Nat.cast_natAbs,
      Int.cast_abs, mul_div_assoc']
  · rintro ⟨code, finite, value⟩
    have magnitude := representable_units finite
    rw [← value] at magnitude
    rcases abs_choice r with h | h
    · rwa [h] at magnitude
    · rw [h] at magnitude
      simpa using magnitude.neg

/-! ## The double of a number -/

/-- From this magnitude on the double of a number is infinite: halfway between the largest finite
double and the next power of two. -/
def overflowThreshold : ℚ := (2 - 2 ^ (-53 : ℤ)) * 2 ^ 1023

/-- The double of a number, with a sign that zero and the infinities take. -/
inductive RoundsTo (negative : Bool) (q : ℚ) : Double → Prop where
  | overflow (large : overflowThreshold ≤ |q|) : RoundsTo negative q (.infinite negative)
  | nearest {code : Fin codes} (small : |q| < overflowThreshold)
      (closest : ∀ r, Representable r → |q - (finite negative code).exact| ≤ |q - r|)
      (even : ∀ r, Representable r → r ≠ (finite negative code).exact →
        |q - r| = |q - (finite negative code).exact| → Even (significand code)) :
      RoundsTo negative q (.finite negative code)

/-- The threshold is the middle between the last finite code and the one that would follow. -/
theorem two_mul_overflowThreshold : 2 * (overflowThreshold * 2 ^ 1074) = lowerEnd codes := by
  -- The exponent is a variable, so that no power of this size is computed.
  obtain ⟨e, he⟩ : ∃ e, e = 2045 := ⟨_, rfl⟩
  have top : codes = e * 2 ^ (52 : Nat) + 2 ^ (53 : Nat) := by
    subst he
    decide
  have exponents : 1023 + 1074 = 52 + e := by omega
  rw [top, lowerEnd_of_binade (.inr (by decide)) le_rfl, scaled_cast, overflowThreshold,
    mul_assoc (2 - _), ← pow_add, exponents, pow_add]
  generalize (2 : ℚ) ^ e = unit
  norm_num
  ring

theorem unit_pos : (0 : ℚ) < 2 ^ 1074 := pow_pos two_pos _

/-- The number of a sign and a magnitude in units. -/
def ofUnits (negative : Bool) (x : ℚ) : ℚ := (if negative then -1 else 1) * (x / 2 ^ 1074)

theorem exact_finite (negative : Bool) (code : Fin codes) :
    (finite negative code).exact = ofUnits negative (units code) := rfl

theorem ofUnits_sub (negative : Bool) (x y : ℚ) :
    ofUnits negative x - ofUnits negative y = ofUnits negative (x - y) := by
  rw [ofUnits, ofUnits, ofUnits, ← mul_sub, sub_div]

theorem neg_ofUnits (negative : Bool) (x : ℚ) : -ofUnits negative x = ofUnits negative (-x) := by
  rw [ofUnits, ofUnits, neg_div, mul_neg]

theorem abs_ofUnits (negative : Bool) (x : ℚ) : |ofUnits negative x| = |x| / 2 ^ 1074 := by
  have sign : |(if negative then -1 else 1 : ℚ)| = 1 := by
    cases negative with
    | false => exact abs_one
    | true => rw [if_pos rfl, abs_neg, abs_one]
  rw [ofUnits, abs_mul, sign, one_mul, abs_div, abs_of_pos unit_pos]

theorem abs_ofUnits_units (negative : Bool) (code : Nat) :
    |ofUnits negative (units code)| = units code / 2 ^ 1074 := by
  rw [abs_ofUnits, Nat.abs_cast]

theorem even_significand_iff {code : Nat} : Even (significand code) ↔ code % 2 = 0 := by
  rw [Nat.even_iff]
  unfold significand exponent
  omega

section

variable {negative : Bool} {x : ℚ} {code : Nat}

/-- No number of a magnitude is nearer than the one of the same sign. -/
theorem abs_sub_le_of_magnitude (negative : Bool) (nonneg : 0 ≤ x) {r : ℚ}
    (hr : |r| = units code / 2 ^ 1074) :
    |x - units code| / 2 ^ 1074 ≤ |ofUnits negative x - r| := by
  have apart := abs_abs_sub_abs_le (ofUnits negative x) r
  rwa [abs_ofUnits, hr, ← sub_div, abs_div, abs_of_nonneg nonneg, abs_of_pos unit_pos] at apart

/-- The number of the other sign is as near only for zero. -/
theorem Nearest.eq_zero_of_opposite (h : Nearest code x)
    (same : |x - -units code| = |x - units code|) : code = 0 := by
  by_contra positive
  have units_pos := units_cast_lt (Nat.pos_of_ne_zero positive)
  rw [units_zero, Nat.cast_zero] at units_pos
  have low := (abs_sub_left_le_iff (show -(units code : ℚ) < units code by linarith)).mp same.le
  have zero := h.closest 0
  rw [units_zero, Nat.cast_zero, abs_sub_right_le_iff units_pos] at zero
  linarith

/-- Below the threshold is below the middle. -/
theorem abs_lt_overflowThreshold_iff (negative : Bool) (nonneg : 0 ≤ x) :
    |ofUnits negative x| < overflowThreshold ↔ 2 * x < lowerEnd codes := by
  rw [abs_ofUnits, abs_of_nonneg nonneg, div_lt_iff₀ unit_pos, ← two_mul_overflowThreshold,
    mul_lt_mul_iff_right₀ two_pos]

/-- The nearest code is finite exactly below the threshold. -/
theorem Nearest.lt_codes_iff_abs_lt (negative : Bool) (nonneg : 0 ≤ x) (h : Nearest code x) :
    code < codes ↔ |ofUnits negative x| < overflowThreshold :=
  h.lt_codes_iff.trans (abs_lt_overflowThreshold_iff negative nonneg).symm

/-- The nearest code is a double of the number. -/
theorem Nearest.roundsTo (negative : Bool) (nonneg : 0 ≤ x) (h : Nearest code x) :
    RoundsTo negative (ofUnits negative x) (ofCode negative code) := by
  have finite_iff := h.lt_codes_iff_abs_lt negative nonneg
  by_cases finite : code < codes
  · rw [ofCode, dif_pos finite]
    refine .nearest (finite_iff.mp finite) ?_ ?_
    · intro r hr
      obtain ⟨c, -, magnitude⟩ := representable_iff.mp hr
      rw [exact_finite, ofUnits_sub, abs_ofUnits]
      exact (div_le_div_of_nonneg_right (h.closest c) unit_pos.le).trans
        (abs_sub_le_of_magnitude negative nonneg magnitude)
    · intro r hr hne same
      obtain ⟨c, -, magnitude⟩ := representable_iff.mp hr
      rw [exact_finite] at hne
      rw [exact_finite, ofUnits_sub, abs_ofUnits] at same
      refine even_significand_iff.mpr (show code % 2 = 0 from ?_)
      by_cases hc : c = code
      -- The number has the magnitude of the double, so it is the one of the other sign.
      · subst hc
        rw [← abs_ofUnits_units negative, abs_eq_abs] at magnitude
        rw [magnitude.resolve_left hne, neg_ofUnits, ofUnits_sub, abs_ofUnits,
          div_left_inj' unit_pos.ne'] at same
        rw [h.eq_zero_of_opposite same]
      · refine h.even c hc (le_antisymm ?_ (h.closest c))
        have near := (abs_sub_le_of_magnitude negative nonneg magnitude).trans same.le
        exact (div_le_div_iff_of_pos_right unit_pos).mp near
  · rw [ofCode, dif_neg finite]
    exact .overflow (not_lt.mp (mt finite_iff.mpr finite))

/-- There is no other double of the number. -/
theorem RoundsTo.eq_ofCode (nonneg : 0 ≤ x) (h : Nearest code x) {d : Double}
    (hd : RoundsTo negative (ofUnits negative x) d) : d = ofCode negative code := by
  cases hd with
  | overflow large =>
    rw [ofCode, dif_neg (mt (h.lt_codes_iff_abs_lt negative nonneg).mp (not_lt.mpr large))]
  | @nearest other small closest even =>
    rw [exact_finite, ofUnits_sub, abs_ofUnits] at closest even
    have nearest : Nearest other x := by
      refine .of_finite ((abs_lt_overflowThreshold_iff negative nonneg).mp small) ?_ ?_
      · intro c hc
        have near := closest _ (representable_iff.mpr ⟨c, hc, abs_ofUnits_units negative c⟩)
        rw [ofUnits_sub, abs_ofUnits] at near
        exact (div_le_div_iff_of_pos_right unit_pos).mp near
      · intro c hc hne same
        refine even_significand_iff.mp
          (even _ (representable_iff.mpr ⟨c, hc, abs_ofUnits_units negative c⟩) ?_ ?_)
        · intro same_value
          have magnitude := congrArg abs same_value
          rw [abs_ofUnits_units, abs_ofUnits_units, div_left_inj' unit_pos.ne',
            Nat.cast_inj] at magnitude
          exact hne (units_injective magnitude)
        · rw [ofUnits_sub, abs_ofUnits, same]
    rw [h.unique nearest, ofCode, dif_pos other.isLt]

end

/-! ## Decimals -/

theorem ratio_cast (decimal : Decimal) :
    (decimal.ratio.1 : ℚ) / decimal.ratio.2 = decimal.coefficient * 10 ^ decimal.exponent := by
  unfold Decimal.ratio
  split
  · rename_i whole
    obtain ⟨k, hk⟩ := Int.eq_ofNat_of_zero_le whole
    rw [hk, Int.toNat_natCast, zpow_natCast, Nat.cast_one, div_one, Nat.cast_mul, Nat.cast_pow,
      Nat.cast_ofNat]
  · rename_i fractional
    obtain ⟨k, hk⟩ := Int.eq_ofNat_of_zero_le (show 0 ≤ -decimal.exponent by omega)
    rw [hk, Int.toNat_natCast, show decimal.exponent = -(k : Int) by omega, zpow_neg, zpow_natCast,
      Nat.cast_pow, Nat.cast_ofNat, div_eq_mul_inv]

/-- Rounding a decimal gives the one double of its value. -/
theorem ofDecimal_eq_iff {negative : Bool} {decimal : Decimal} {d : Double} :
    ofDecimal negative decimal = d ↔
      RoundsTo negative ((if negative then -1 else 1) *
        (decimal.coefficient * 10 ^ decimal.exponent)) d := by
  have rounds := rounds_codeOfRatio (decimal.ratio.1 * 2 ^ (1074 : Nat)) (ratio_pos decimal)
  have nearest := rounds.nearest (ratio_pos decimal)
  rw [ofDecimal_of_covers negative (covers_iff_rounds.mpr rounds)]
  rw [scaled_cast decimal.ratio.1 1074, mul_div_right_comm, ratio_cast] at nearest
  generalize codeOfRatio (decimal.ratio.1 * 2 ^ (1074 : Nat)) decimal.ratio.2 = code at nearest
  generalize hvalue : (decimal.coefficient * 10 ^ decimal.exponent : ℚ) = value at nearest
  have value_eq : (if negative then -1 else 1) * value = ofUnits negative (value * 2 ^ 1074) := by
    rw [ofUnits, mul_div_cancel_right₀ _ unit_pos.ne']
  have nonneg : 0 ≤ value * 2 ^ 1074 := by
    rw [← hvalue]
    exact mul_nonneg (by positivity) unit_pos.le
  rw [value_eq]
  constructor
  · rintro rfl
    exact nearest.roundsTo negative nonneg
  · intro h
    exact (h.eq_ofCode nonneg nearest).symm

end Double

/-! ## Numerals -/

namespace Numeral

/-- The number that digits around a point and a power of ten say. -/
def decimalValue (negative : Bool) (whole fraction : List Char) (power : Int) : ℚ :=
  (if negative then -1 else 1) *
    ((Nat.ofDigitChars 10 whole 0 + Nat.ofDigitChars 10 fraction 0 / 10 ^ fraction.length) *
      10 ^ power)

/-- The double that a numeral stands for. -/
inductive Denotes : Numeral → Double → Prop where
  | decimal {negative : Bool} {whole fraction : List Char} {power : Int} {d : Double}
      (rounds : d.RoundsTo negative (decimalValue negative whole fraction power)) :
      Denotes (.decimal negative whole fraction power) d
  | infinity (negative : Bool) : Denotes (.infinity negative) (.infinite negative)
  | nan : Denotes .nan .nan

/-- The digits around a point are one coefficient, with as many places as there are digits behind
the point. -/
theorem decimalValue_eq (negative : Bool) (whole fraction : List Char) (power : Int) :
    decimalValue negative whole fraction power = (if negative then -1 else 1) *
      (Nat.ofDigitChars 10 (whole ++ fraction) 0 * 10 ^ (power - fraction.length)) := by
  have base : (10 : ℚ) ≠ 0 := by norm_num
  have coefficient : Nat.ofDigitChars 10 (whole ++ fraction) 0 =
      10 ^ fraction.length * Nat.ofDigitChars 10 whole 0 + Nat.ofDigitChars 10 fraction 0 := by
    rw [Nat.ofDigitChars_append, Nat.ofDigitChars_eq_ofDigitChars_zero]
  rw [decimalValue, coefficient, zpow_sub₀ base, zpow_natCast, Nat.cast_add, Nat.cast_mul,
    Nat.cast_pow, Nat.cast_ofNat]
  field_simp

/-- The value of a numeral is the double that it denotes. -/
theorem value_eq_iff {numeral : Numeral} {d : Double} : numeral.value = d ↔ numeral.Denotes d := by
  constructor
  · rintro rfl
    cases numeral with
    | decimal negative whole fraction power =>
      refine .decimal ?_
      rw [decimalValue_eq]
      have rounded : Double.ofDecimal negative ⟨Nat.ofDigitChars 10 (whole ++ fraction) 0,
          power - fraction.length⟩ = (decimal negative whole fraction power).value := rfl
      exact Double.ofDecimal_eq_iff.mp rounded
    | infinity negative => exact .infinity negative
    | nan => exact .nan
  · intro h
    cases h with
    | decimal rounds =>
      rw [decimalValue_eq] at rounds
      exact Double.ofDecimal_eq_iff.mpr rounds
    | infinity => rfl
    | nan => rfl

end Numeral

end ExprCalculus

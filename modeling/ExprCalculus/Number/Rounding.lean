import ExprCalculus.Number.Double

/-!
# Rounding a ratio to the nearest double

A positive rational number of units is rounded in two moves: its whole part fixes the binade, and
the quotient by the unit in the last place of that binade is rounded to the nearest integer, a half
going to the even neighbour. The rounded quotient is added to the code of the binade; when it
reaches the next power of two, the sum is the first code of the next binade, so no case is made of
the carry. A code past the finite ones is the infinity of the same sign.

A decimal is rounded through its exact ratio. Exponents so large or so small that the result is an
infinity or a zero whatever the digits are answered first, so the powers of ten stay small.
-/

namespace ExprCalculus

/- Powers of natural numbers are those of the core library. -/
attribute [local instance (20000)] instPowNat instNatPowNat

/-- The integer nearest to `n / d`; a half goes to the even neighbour. -/
def roundDiv (n d : Nat) : Nat :=
  let q := n / d
  let r := n % d
  if 2 * r < d then q
  else if d < 2 * r then q + 1
  else q + q % 2

/-- An exact quotient is not changed. -/
theorem roundDiv_mul (q : Nat) {d : Nat} (h : 0 < d) : roundDiv (q * d) d = q := by
  simp [roundDiv, Nat.mul_div_cancel _ h, h]

/-- The rounded quotient is within half of the exact one, and a half has gone to an even one. -/
theorem roundDiv_nearest (n : Nat) {d : Nat} (h : 0 < d) :
    2 * n ≤ (2 * roundDiv n d + 1) * d ∧ 2 * roundDiv n d * d ≤ 2 * n + d ∧
      ((2 * n = (2 * roundDiv n d + 1) * d ∨ 2 * roundDiv n d * d = 2 * n + d) →
        roundDiv n d % 2 = 0) := by
  have hn := Nat.div_add_mod n d
  have hr := Nat.mod_lt n h
  unfold roundDiv
  generalize n / d = q at *
  generalize n % d = r at *
  have hq : d * q = q * d := Nat.mul_comm d q
  dsimp only
  split
  · refine ⟨?_, ?_, ?_⟩ <;> simp only [Nat.add_mul, Nat.mul_assoc, Nat.one_mul] <;> omega
  · split
    · refine ⟨?_, ?_, ?_⟩ <;> simp only [Nat.add_mul, Nat.mul_add, Nat.mul_assoc, Nat.one_mul] <;>
        omega
    · rcases Nat.mod_two_eq_zero_or_one q with hp | hp <;> rw [hp] <;>
        (refine ⟨?_, ?_, ?_⟩ <;>
          simp only [Nat.add_mul, Nat.mul_add, Nat.mul_assoc, Nat.one_mul] <;> omega)

/-- A decimal number without sign: `coefficient * 10 ^ exponent`. -/
structure Decimal where
  /-- The digits, read as one number. -/
  coefficient : Nat
  /-- The place of the last digit. -/
  exponent : Int
deriving DecidableEq

/-- A decimal as a quotient of natural numbers. -/
def Decimal.ratio (decimal : Decimal) : Nat × Nat :=
  if 0 ≤ decimal.exponent then (decimal.coefficient * 10 ^ decimal.exponent.toNat, 1)
  else (decimal.coefficient, 10 ^ (-decimal.exponent).toNat)

namespace Double

/-- The code nearest to `n / d` units. -/
def codeOfRatio (n d : Nat) : Nat :=
  let e := Nat.log2 (n / d) - 52
  e * 2 ^ (52 : Nat) + roundDiv n (d * 2 ^ e)

/-- The double nearest to `n / d`, with the given sign. -/
def ofRatio (negative : Bool) (n d : Nat) : Double :=
  ofCode negative (codeOfRatio (n * 2 ^ (1074 : Nat)) d)

/-- Is the decimal so large that it rounds to an infinity whatever its digits are? -/
def overflows (decimal : Decimal) : Bool :=
  decide (1024 ≤ (Nat.log2 decimal.coefficient : Int) + 3 * decimal.exponent ∧ 0 ≤ decimal.exponent)

/-- Is the decimal so small that it rounds to zero whatever its digits are? -/
def underflows (decimal : Decimal) : Bool :=
  decide ((Nat.log2 decimal.coefficient : Int) + 3 * decimal.exponent ≤ -1077 ∧
    decimal.exponent < 0)

/-- The double nearest to a decimal, with the given sign, which zero keeps. -/
def ofDecimal (negative : Bool) (decimal : Decimal) : Double :=
  if decimal.coefficient = 0 then zero negative
  else if overflows decimal then infinite negative
  else if underflows decimal then zero negative
  else ofRatio negative decimal.ratio.1 decimal.ratio.2

/-- The double nearest to a natural number. -/
def ofNat (n : Nat) : Double := ofRatio false n 1

/-! ## Small laws -/

theorem codeOfRatio_zero (d : Nat) : codeOfRatio 0 d = 0 := by
  simp [codeOfRatio, roundDiv]

/-- The magnitude of every code is its own nearest double. -/
theorem codeOfRatio_units (code : Nat) : codeOfRatio (units code) 1 = code := by
  unfold codeOfRatio
  simp only [Nat.div_one, Nat.one_mul]
  have e_eq : Nat.log2 (units code) - 52 = exponent code := by
    by_cases low : code < 2 ^ (53 : Nat)
    · have e0 : exponent code = 0 := by
        unfold exponent
        omega
      have u : units code = code := by
        simp [units, significand, e0]
      rw [u, e0]
      rcases Nat.eq_zero_or_pos code with rfl | pos
      · simp
      · have := (Nat.log2_lt (by omega : code ≠ 0)).mpr low
        omega
    · have s_low : 2 ^ (52 : Nat) ≤ significand code := by
        unfold significand exponent
        omega
      have s_high := significand_lt code
      have pos : units code ≠ 0 := by
        unfold units
        exact Nat.mul_ne_zero (by omega) (Nat.ne_of_gt (Nat.two_pow_pos _))
      have h1 : Nat.log2 (units code) < 53 + exponent code := by
        rw [Nat.log2_lt pos, Nat.pow_add]
        exact Nat.mul_lt_mul_of_pos_right s_high (Nat.two_pow_pos _)
      have h2 : 52 + exponent code ≤ Nat.log2 (units code) := by
        rw [Nat.le_log2 pos, Nat.pow_add]
        exact Nat.mul_le_mul_right _ s_low
      omega
  rw [e_eq]
  conv => lhs; rhs; arg 1; unfold units
  rw [roundDiv_mul _ (Nat.two_pow_pos _)]
  unfold significand
  have : exponent code * 2 ^ (52 : Nat) ≤ code := by
    unfold exponent
    omega
  omega

end Double

end ExprCalculus

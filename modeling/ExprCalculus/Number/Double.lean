/-!
# Double precision constants

A constant of an expression is a binary64 value. Finite values are named by their *code*: the
exponent field and the fraction field read as one number, without the sign bit. Codes are in the
order of the magnitudes they stand for, so the neighbours of a double are the codes one below and
one above, across subnormals and binades alike.

The magnitude of a code is a whole number of *units* of `2 ^ (-1074)`, the least positive double:
`units c = significand c * 2 ^ exponent c`. All reasoning about rounding and about digits is
arithmetic on units. The second view is the 64 bits, which lead to the machine's floating point.
-/

namespace ExprCalculus

/- Powers of natural numbers are those of the core library. -/
attribute [local instance (20000)] instPowNat instNatPowNat

/-- Number of finite codes: 2047 exponent fields of `2 ^ 52` fractions each. -/
abbrev Double.codes : Nat := 2047 * 2 ^ (52 : Nat)

/-- A binary64 value with one not-a-number. Equality is equality of bits, so `-0` differs from `0`
and not-a-number equals itself. -/
inductive Double where
  /-- Not a number. -/
  | nan
  /-- An infinity of the given sign. -/
  | infinite (negative : Bool)
  /-- A finite value of the given sign and magnitude. -/
  | finite (negative : Bool) (code : Fin Double.codes)
deriving DecidableEq, Hashable

namespace Double

/-- The power of two, in units, that the significand of a code counts. Subnormals share the
exponent of the lowest binade. -/
def exponent (code : Nat) : Nat := code / 2 ^ (52 : Nat) - 1

/-- The significand of a code, below `2 ^ 53`; subnormals have no leading bit. -/
def significand (code : Nat) : Nat := code - exponent code * 2 ^ (52 : Nat)

/-- The magnitude of a code in units of `2 ^ (-1074)`. -/
def units (code : Nat) : Nat := significand code * 2 ^ exponent code

@[simp] theorem units_zero : units 0 = 0 := by
  simp [units, significand, exponent]

theorem significand_lt (code : Nat) : significand code < 2 ^ (53 : Nat) := by
  unfold significand exponent
  omega

/-- One step of the code is one unit in the last place, within a binade and across its end. -/
theorem units_succ (code : Nat) : units (code + 1) = units code + 2 ^ exponent code := by
  have le : exponent code * 2 ^ (52 : Nat) ≤ code := by
    unfold exponent
    omega
  have cases : exponent (code + 1) = exponent code ∨
      exponent (code + 1) = exponent code + 1 ∧ code + 1 = (exponent code + 2) * 2 ^ (52 : Nat) := by
    unfold exponent
    omega
  unfold units significand
  generalize exponent code = e at *
  rcases cases with h | ⟨h, next⟩
  · rw [h, show code + 1 - e * 2 ^ (52 : Nat) = (code - e * 2 ^ (52 : Nat)) + 1 by omega, Nat.add_mul, Nat.one_mul]
  · rw [h, show code + 1 - (e + 1) * 2 ^ (52 : Nat) = 2 ^ (52 : Nat) by omega,
      show code - e * 2 ^ (52 : Nat) = 2 ^ (53 : Nat) - 1 by omega, Nat.pow_succ 2 e]
    generalize 2 ^ e = p
    omega

/-- Larger codes have larger magnitudes. -/
theorem units_lt_units {a b : Nat} (h : a < b) : units a < units b := by
  induction b with
  | zero => omega
  | succ b ih =>
    have hb := units_succ b
    have hp := Nat.two_pow_pos (exponent b)
    rcases Nat.lt_succ_iff_lt_or_eq.mp h with h | rfl
    · have := ih h
      omega
    · omega

/-- The value zero of either sign. -/
def zero (negative : Bool) : Double := .finite negative ⟨0, by decide⟩

/-- The finite value of a code, or the infinity of the same sign when the code is too large. -/
def ofCode (negative : Bool) (code : Nat) : Double :=
  if h : code < codes then .finite negative ⟨code, h⟩ else .infinite negative

/-! ## Bits -/

/-- The sign bit of the 64. -/
def signBit (negative : Bool) : Nat := if negative then 2 ^ (63 : Nat) else 0

/-- The binary64 representation; not-a-number is the quiet positive one. -/
def toBits : Double → UInt64
  | nan => UInt64.ofNat (codes + 2 ^ (51 : Nat))
  | infinite negative => UInt64.ofNat (signBit negative + codes)
  | finite negative code => UInt64.ofNat (signBit negative + code)

/-- Reads a binary64 representation; every not-a-number is the same. -/
def ofBits (bits : UInt64) : Double :=
  let negative := decide (2 ^ (63 : Nat) ≤ bits.toNat)
  let code := bits.toNat % 2 ^ (63 : Nat)
  if h : code < codes then .finite negative ⟨code, h⟩
  else if code = codes then .infinite negative
  else .nan

/-- The machine's floating point value. -/
def toFloat (d : Double) : Float := Float.ofBits d.toBits

/-- The double that a machine value is. -/
def ofFloat (f : Float) : Double := ofBits f.toBits

end Double

end ExprCalculus

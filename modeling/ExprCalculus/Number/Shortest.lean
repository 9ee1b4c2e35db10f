import ExprCalculus.Number.Rounding

/-!
# The fewest digits that read back

Each positive code owns an interval of reals that round to it, bounded by the midpoints to its two
neighbours; the midpoints themselves belong to the even codes. A decimal names the double exactly
when it lies in that interval, which is a comparison of natural numbers once both are counted in
half units of `2 ^ (-1075)`.

`shortest` walks the decimal grids from coarse to fine, starting above the value. If a grid has a
point in the interval, one of the two grid points around the value is in it, so only these two are
tried. The first grid with a hit gives the fewest digits; when both points hit, the nearer one is
taken, and an exact tie goes to the even digit.
-/

namespace ExprCalculus

/- Powers of natural numbers are those of the core library. -/
attribute [local instance (20000)] instPowNat instNatPowNat

namespace Double

/-- The lower end of the reals that round to a code, in half units. -/
def lowerEnd (code : Nat) : Nat := units (code - 1) + units code

/-- The upper end of the reals that round to a code, in half units. -/
def upperEnd (code : Nat) : Nat := units code + units (code + 1)

/-- Does the decimal lie in the interval of the reals that round to the code? -/
def Covers (code : Nat) (decimal : Decimal) : Prop :=
  let (n, d) := decimal.ratio
  let point := n * 2 ^ (1075 : Nat)
  if code % 2 = 0 then lowerEnd code * d ≤ point ∧ point ≤ upperEnd code * d
  else lowerEnd code * d < point ∧ point < upperEnd code * d

instance (code : Nat) (decimal : Decimal) : Decidable (Covers code decimal) := by
  unfold Covers
  dsimp only
  exact inferInstance

/-- The value of a code divided by `10 ^ place`, as a quotient of natural numbers. -/
def scaled (code : Nat) (place : Int) : Nat × Nat :=
  if 0 ≤ place then (units code, 10 ^ place.toNat * 2 ^ (1074 : Nat))
  else (units code * 10 ^ (-place).toNat, 2 ^ (1074 : Nat))

/-- The decimal with its last digit at the place that reads back as the code, if there is one; of
two the nearer, and of two equally near the even one. -/
def onGrid? (code : Nat) (place : Int) : Option Decimal :=
  let (n, d) := scaled code place
  let below : Decimal := ⟨n / d, place⟩
  let above : Decimal := ⟨n / d + 1, place⟩
  if Covers code below then
    if Covers code above then some ⟨roundDiv n d, place⟩ else some below
  else if Covers code above then some above
  else none

/-- A place whose power of ten is above the value of the code: `10 ^ 3` is more than `2 ^ 9` and
less than `2 ^ 10`. -/
def coarsestPlace (code : Nat) : Int :=
  let bits : Int := (Nat.log2 (units code) : Int) - 1073
  if 0 ≤ bits then bits / 3 + 1 else -(3 * -bits / 10)

/-- The exact decimal expansion of a code, which has 1074 places. -/
def expansion (code : Nat) : Decimal := ⟨units code * 5 ^ (1074 : Nat), -1074⟩

/-- The decimal of fewest digits that reads back as the code, and of those the nearest. -/
def shortest (code : Nat) : Decimal :=
  let start := coarsestPlace code
  ((List.range (start + 1075).toNat).findSome? fun (i : Nat) => onGrid? code (start - (i : Int))).getD
    (expansion code)

/-- What a grid offers lies in the interval of the code. -/
theorem covers_of_onGrid? {code : Nat} {place : Int} {decimal : Decimal}
    (h : onGrid? code place = some decimal) : Covers code decimal := by
  unfold onGrid? at h
  generalize hs : scaled code place = s at h
  obtain ⟨n, d⟩ := s
  dsimp only at h
  split at h
  · rename_i below
    split at h
    · rename_i above
      obtain rfl := Option.some.inj h
      have h2 : roundDiv n d = n / d ∨ roundDiv n d = n / d + 1 := by
        unfold roundDiv
        dsimp only
        split
        · exact .inl rfl
        · split
          · exact .inr rfl
          · rcases Nat.mod_two_eq_zero_or_one (n / d) with hp | hp <;> rw [hp]
            · exact .inl rfl
            · exact .inr rfl
      rcases h2 with h2 | h2 <;> rw [h2] <;> assumption
    · obtain rfl := Option.some.inj h
      exact below
  · split at h
    · rename_i above
      obtain rfl := Option.some.inj h
      exact above
    · exact absurd h (by simp)

end Double

end ExprCalculus

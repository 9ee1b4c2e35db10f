import Mathlib
import ExprCalculus.Proofs.RoundTrip
import ExprCalculus.Proofs.StackGrammar

/-!
# Literals encode bit patterns

A double is one of `2 ^ 64` bit patterns, and all those with a full exponent field and a fraction
other than zero are not-a-number. Reading a pattern and writing it again loses nothing else, and the
literal of a double is read as that double; so two patterns share a literal exactly when they are
the same or both not-a-number. A literal stands alone: both ways of cutting a text leave it whole,
and no word that means something else is one.
-/

namespace ExprCalculus

/- Powers of natural numbers are those of the core library. -/
attribute [local instance (20000)] instPowNat instNatPowNat

namespace Double

/-! ## Bit patterns -/

/-- The pattern is one of not-a-number, whatever its sign and its fraction. -/
def IsNanPattern (bits : UInt64) : Prop := codes < bits.toNat % 2 ^ (63 : Nat)

instance : DecidablePred IsNanPattern := fun _ => Nat.decLt _ _

/-- A pattern of 64 bits is its sign bit and the other 63. -/
theorem signBit_add_mod {n : Nat} (h : n < 2 ^ (64 : Nat)) :
    signBit (decide (2 ^ (63 : Nat) ≤ n)) + n % 2 ^ (63 : Nat) = n := by
  unfold signBit
  by_cases sign : 2 ^ (63 : Nat) ≤ n
  · simp only [sign, decide_true, if_true]
    omega
  · simp only [sign, decide_false, Bool.false_eq_true, if_false]
    omega

/-- Every pattern is that of the double which it is read as, or one of not-a-number. -/
theorem toBits_ofBits (bits : UInt64) :
    if IsNanPattern bits then ofBits bits = nan else (ofBits bits).toBits = bits := by
  have whole := signBit_add_mod bits.toNat_lt
  have back : UInt64.ofNat bits.toNat = bits := UInt64.ofNat_toNat
  by_cases pattern : IsNanPattern bits
  · have above : codes < bits.toNat % 2 ^ (63 : Nat) := pattern
    rw [if_pos pattern, ofBits, dif_neg (by omega), if_neg (by omega)]
  · have not_above : bits.toNat % 2 ^ (63 : Nat) ≤ codes := Nat.not_lt.mp pattern
    rw [if_neg pattern, ofBits]
    split
    · rw [toBits, whole, back]
    · have full : bits.toNat % 2 ^ (63 : Nat) = codes := by omega
      rw [if_pos full, toBits, ← full, whole, back]

/-- A pattern is read as not-a-number exactly when its exponent is full and its fraction is not
zero. -/
theorem ofBits_eq_nan_iff {bits : UInt64} : ofBits bits = nan ↔ IsNanPattern bits := by
  have h := toBits_ofBits bits
  constructor
  · intro is_nan
    by_contra other
    rw [if_neg other, is_nan] at h
    exact other (h ▸ by decide)
  · intro pattern
    rwa [if_pos pattern] at h

/-- Two patterns are read alike when they are the same or both not-a-number. -/
theorem ofBits_eq_ofBits_iff {a b : UInt64} :
    ofBits a = ofBits b ↔ a = b ∨ IsNanPattern a ∧ IsNanPattern b := by
  constructor
  · intro same
    by_cases ha : IsNanPattern a
    · have hb : ofBits b = nan := by rw [← same, ofBits_eq_nan_iff.mpr ha]
      exact .inr ⟨ha, ofBits_eq_nan_iff.mp hb⟩
    · have hb : ¬ IsNanPattern b := by
        rwa [← ofBits_eq_nan_iff, ← same, ofBits_eq_nan_iff]
      have bits_a := toBits_ofBits a
      have bits_b := toBits_ofBits b
      rw [if_neg ha] at bits_a
      rw [if_neg hb] at bits_b
      exact .inl (by rw [← bits_a, ← bits_b, same])
  · rintro (rfl | ⟨ha, hb⟩)
    · rfl
    · rw [ofBits_eq_nan_iff.mpr ha, ofBits_eq_nan_iff.mpr hb]

/-! ## Literals -/

/-- Different doubles have different literals, because each literal is read as its double. -/
theorem literal_injective : Function.Injective literal := by
  intro v w same
  have read := number?_literal v
  rw [same, number?_literal w] at read
  exact (Option.some.inj read).symm

end Double

/-- The word is one token in a text with or without brackets, and no name of anything. -/
structure StandsAlone (word : List Char) : Prop where
  tokens_eq : tokens word = [word]
  words_eq : words word = [word]
  plain : ∀ c ∈ word, isBlank c = false ∧ isBracket c = false ∧ c ≠ '_'
  no_variable : Variable.ofName? word = none
  no_operation : Op.ofSymbol? word = none

namespace Double

/-- A literal is a word of its own in both kinds of text. -/
theorem standsAlone_literal (d : Double) : StandsAlone d.literal where
  tokens_eq := tokens_literal d
  words_eq := words_literal d
  plain c hc := by
    have literal_char := isLiteralChar_of_mem_literal d c hc
    obtain ⟨low, -, joined⟩ := literalChar_bounds literal_char
    have ink := isInk_of_isLiteralChar literal_char
    refine ⟨by simpa [isInk] using ink, ?_, ?_⟩
    · rw [isBracket_eq_false_iff]
      constructor <;> rintro rfl <;> exact absurd low (by decide)
    · rintro rfl
      exact joined rfl
  no_variable := ofName?_of_number? (number?_literal d)
  no_operation := ofSymbol?_of_number? (number?_literal d)

/-- The literal of a bit pattern is read as the same bits, or as not-a-number if the pattern is one
of it; two patterns share a literal only for these reasons; and a literal stands alone. -/
theorem literal_encodes_bits (a b : UInt64) :
    (∃ d, number? (ofBits a).literal = some d ∧
      if IsNanPattern a then d = nan else d.toBits = a) ∧
    ((ofBits a).literal = (ofBits b).literal ↔ a = b ∨ IsNanPattern a ∧ IsNanPattern b) ∧
    StandsAlone (ofBits a).literal := by
  refine ⟨⟨ofBits a, number?_literal _, toBits_ofBits a⟩, ?_, standsAlone_literal _⟩
  rw [literal_injective.eq_iff, ofBits_eq_ofBits_iff]

/-- Neighbours on both sides of the largest literal that is written without an exponent. -/
example : (ofBits 0x4341C37937E07FFF).literal = "9999999999999998".toList ∧
    (ofBits 0x4341C37937E08000).literal = "1e+16".toList := by decide +kernel

end Double

end ExprCalculus

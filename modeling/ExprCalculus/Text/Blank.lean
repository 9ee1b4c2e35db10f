/-!
# Blanks

Three sets of white space, each with its own user. `isBlank` is the Unicode property and cuts
a bracket-free token stream. `isGap` holds the four characters that separate words of a
bracketed text; every other blank is part of a word there. `isPadding` holds the six ASCII
blanks that may stand around a number.
-/

namespace ExprCalculus

/-- The white space characters of Unicode 14.0, with the four ASCII separators. -/
def isBlank (c : Char) : Bool :=
  let n := c.toNat
  (0x9 ≤ n && n ≤ 0xD) || (0x1C ≤ n && n ≤ 0x20) || n == 0x85 || n == 0xA0 || n == 0x1680 ||
    (0x2000 ≤ n && n ≤ 0x200A) || n == 0x2028 || n == 0x2029 || n == 0x202F || n == 0x205F ||
    n == 0x3000

/-- The characters between the words of a bracketed text: space, tab, line feed and return. -/
def isGap (c : Char) : Bool := c == ' ' || c == '\t' || c == '\n' || c == '\r'

/-- The ASCII blanks that may surround a number. -/
def isPadding (c : Char) : Bool := c == ' ' || (0x9 ≤ c.toNat && c.toNat ≤ 0xD)

/-- Whatever separates words of a bracketed text may surround a number. -/
theorem isPadding_of_isGap {c : Char} (h : isGap c = true) : isPadding c = true := by
  simp only [isGap, Bool.or_eq_true, beq_iff_eq] at h
  rcases h with ((rfl | rfl) | rfl) | rfl <;> decide

/-- Whatever may surround a number is a blank. -/
theorem isBlank_of_isPadding {c : Char} (h : isPadding c = true) : isBlank c = true := by
  simp only [isPadding, Bool.or_eq_true, beq_iff_eq, Bool.and_eq_true, decide_eq_true_eq] at h
  rcases h with rfl | h
  · decide
  · simp [isBlank, h]

end ExprCalculus

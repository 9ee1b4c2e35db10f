import Mathlib
import ExprCalculus.Proofs.Literal
import ExprCalculus.Proofs.Wording

/-!
# Padding around a number

A numeral holds no blanks, so the blanks of a number word are those that are trimmed: the word is a
core without blanks between two runs of blanks. The core alone is the same number.
-/

namespace ExprCalculus

/-! ## The characters of a numeral -/

/-- A character that may stand in a numeral. -/
def isNumeralChar (c : Char) : Bool := c.isAlphanum || c == '+' || c == '-' || c == '.'

theorem isNumeralChar_of_isDigit {c : Char} (h : c.isDigit = true) : isNumeralChar c = true := by
  simp [isNumeralChar, Char.isAlphanum, h]

theorem isNumeralChar_of_isAlpha {c : Char} (h : c.isAlpha = true) : isNumeralChar c = true := by
  simp [isNumeralChar, Char.isAlphanum, h]

/-- The characters of numerals lie between the brackets and the end of the letters. -/
theorem numeralChar_bounds {c : Char} (h : isNumeralChar c = true) :
    43 ≤ c.toNat ∧ c.toNat ≤ 122 := by
  simp only [isNumeralChar, Char.isAlphanum, Char.isAlpha, Char.isUpper, Char.isLower, Char.isDigit,
    Bool.or_eq_true, Bool.and_eq_true, beq_iff_eq, decide_eq_true_eq, ge_iff_le,
    UInt32.le_iff_toNat_le] at h
  rcases h with ((((h | h) | h) | rfl) | rfl) | rfl
  · exact ⟨le_trans (by decide) h.1, le_trans h.2 (by decide)⟩
  · exact ⟨le_trans (by decide) h.1, le_trans h.2 (by decide)⟩
  · exact ⟨le_trans (by decide) h.1, le_trans h.2 (by decide)⟩
  · decide
  · decide
  · decide

theorem isInk_of_isNumeralChar {c : Char} (h : isNumeralChar c = true) : isInk c = true :=
  isInk_of_bounds (numeralChar_bounds h).1 (numeralChar_bounds h).2

theorem isPadding_of_isNumeralChar {c : Char} (h : isNumeralChar c = true) :
    isPadding c = false := by
  by_contra padding
  have blank := isBlank_of_isPadding (by simpa using padding)
  have ink := isInk_of_isNumeralChar h
  rw [isInk_eq_false_iff.mpr blank] at ink
  cases ink

namespace Numeral

/-- What is split off as a sign consists of characters of numerals. -/
theorem mem_splitSign {cs : List Char} {c : Char} (h : c ∈ cs) :
    isNumeralChar c = true ∨ c ∈ (splitSign cs).2 := by
  unfold splitSign
  split
  · rcases List.mem_cons.mp h with rfl | h
    · exact .inl rfl
    · exact .inr h
  · rcases List.mem_cons.mp h with rfl | h
    · exact .inl rfl
    · exact .inr h
  · exact .inr h

theorem mem_splitDigits {cs : List Char} {c : Char} (h : c ∈ cs) :
    isNumeralChar c = true ∨ c ∈ (splitDigits cs).2 := by
  rw [← List.takeWhile_append_dropWhile (p := Char.isDigit) (l := cs)] at h
  rcases List.mem_append.mp h with h | h
  · exact .inl (isNumeralChar_of_isDigit (List.mem_takeWhile_imp h))
  · exact .inr h

theorem mem_splitFraction {cs : List Char} {c : Char} (h : c ∈ cs) :
    isNumeralChar c = true ∨ c ∈ (splitFraction cs).2 := by
  unfold splitFraction
  split
  · rcases List.mem_cons.mp h with rfl | h
    · exact .inl rfl
    · exact mem_splitDigits h
  · exact .inr h

theorem isNumeralChar_of_power? {cs : List Char} {power : Int} (h : power? cs = some power) :
    ∀ c ∈ cs, isNumeralChar c = true := by
  cases cs with
  | nil => exact nofun
  | cons mark rest =>
    simp only [power?] at h
    split at h
    · rename_i exponent
      obtain ⟨letter, -, digits⟩ := exponent
      rw [List.forall_mem_cons]
      constructor
      · rcases letter with rfl | rfl <;> rfl
      · intro c hc
        rcases mem_splitSign hc with sign | digit
        · exact sign
        · exact isNumeralChar_of_isDigit (List.all_eq_true.mp digits c digit)
    · cases h

theorem isNumeralChar_of_decimal? {negative : Bool} {cs : List Char} {numeral : Numeral}
    (h : decimal? negative cs = some numeral) : ∀ c ∈ cs, isNumeralChar c = true := by
  intro c hc
  simp only [decimal?] at h
  split at h
  · cases h
  · obtain ⟨power, read, -⟩ := Option.map_eq_some_iff.mp h
    rcases mem_splitDigits hc with whole | hc
    · exact whole
    rcases mem_splitFraction hc with fraction | hc
    · exact fraction
    · exact isNumeralChar_of_power? read c hc

theorem isNumeralChar_of_special? {negative : Bool} {cs : List Char} {numeral : Numeral}
    (h : special? negative cs = some numeral) : ∀ c ∈ cs, isNumeralChar c = true := by
  have letters {name : List Char} (alpha : ∀ c ∈ name, c.isAlpha = true)
      (lower : cs.map Char.toLower = name) : ∀ c ∈ cs, isNumeralChar c = true := by
    intro c hc
    have mem : c.toLower ∈ name := lower ▸ List.mem_map_of_mem hc
    refine isNumeralChar_of_isAlpha ?_
    rw [← Char.isAlpha_toLower_eq_isAlpha]
    exact alpha _ mem
  unfold special? at h
  dsimp only at h
  split at h
  · rename_i infinity
    rcases infinity with lower | lower
    · exact letters (List.all_eq_true.mp rfl) lower
    · exact letters (List.all_eq_true.mp rfl) lower
  · split at h
    · rename_i lower
      exact letters (List.all_eq_true.mp rfl) lower
    · cases h

theorem isNumeralChar_of_ofChars? {cs : List Char} {numeral : Numeral}
    (h : ofChars? cs = some numeral) : ∀ c ∈ cs, isNumeralChar c = true := by
  intro c hc
  rcases mem_splitSign hc with sign | hc
  · exact sign
  cases decimal : decimal? (splitSign cs).1 (splitSign cs).2 with
  | some found => exact isNumeralChar_of_decimal? decimal c hc
  | none =>
    have special : special? (splitSign cs).1 (splitSign cs).2 = some numeral := by
      simpa [ofChars?, decimal] using h
    exact isNumeralChar_of_special? special c hc

end Numeral

/-! ## The characters of a number word -/

theorem isInk_of_asciiOf? {c a : Char} (h : asciiOf? c = some a) (ha : isNumeralChar a = true) :
    isInk c = true ∧ isBracket c = false := by
  unfold asciiOf? at h
  split at h
  · obtain rfl := Option.some.inj h
    refine ⟨isInk_of_isNumeralChar ha, ?_⟩
    have bounds := numeralChar_bounds ha
    rw [isBracket_eq_false_iff]
    constructor <;> rintro rfl <;> exact absurd bounds.1 (by decide)
  · rename_i wide
    split at h
    · obtain rfl := Option.some.inj h
      cases ha
    · rename_i ink
      refine ⟨by simpa [isInk] using ink, ?_⟩
      rw [isBracket_eq_false_iff]
      constructor <;> rintro rfl <;> exact absurd wide (by decide)

theorem isBlank_of_asciiOf? {c a : Char} (h : asciiOf? c = some a) (ha : isPadding a = true) :
    isBlank c = true := by
  unfold asciiOf? at h
  split at h
  · obtain rfl := Option.some.inj h
    exact isBlank_of_isPadding ha
  · split at h
    · assumption
    · obtain ⟨v, hv, rfl⟩ := Option.map_eq_some_iff.mp h
      have digit : (Nat.digitChar v).isDigit = true := by
        rw [Nat.isDigit_digitChar]
        exact decide_eq_true (digitValue?_lt hv)
      rw [isPadding_of_isNumeralChar (isNumeralChar_of_isDigit digit)] at ha
      cases ha

/-- Reading every character succeeds exactly when each of them is read. -/
theorem mapM_eq_some_iff {α β : Type} {f : α → Option β} {as : List α} {bs : List β} :
    as.mapM f = some bs ↔ as.map f = bs.map some := by
  induction as generalizing bs with
  | nil => cases bs <;> simp
  | cons a as ih =>
    rw [List.mapM_cons]
    cases bs with
    | nil => cases f a <;> cases as.mapM f <;> simp
    | cons b bs =>
      rw [List.map_cons, List.map_cons, List.cons.injEq, ← ih]
      cases f a <;> cases as.mapM f <;> simp

/-- A word is its trimmed form with padding on both sides. -/
theorem exists_padding (cs : List Char) :
    ∃ before after, cs = before ++ (trimPadding cs ++ after) ∧
      (∀ c ∈ before, isPadding c = true) ∧ ∀ c ∈ after, isPadding c = true := by
  generalize front : cs.dropWhile isPadding = rest
  refine ⟨cs.takeWhile isPadding, (rest.reverse.takeWhile isPadding).reverse, ?_,
    fun c hc => List.mem_takeWhile_imp hc, fun c hc => ?_⟩
  · have back : trimPadding cs ++ (rest.reverse.takeWhile isPadding).reverse = rest := by
      rw [trimPadding, front, ← List.reverse_append, List.takeWhile_append_dropWhile,
        List.reverse_reverse]
    rw [back, ← front, List.takeWhile_append_dropWhile]
  · exact List.mem_takeWhile_imp (List.mem_reverse.mp hc)

/-- A number word is a run of blanks, a core without blanks that is the same number, and a run of
blanks. -/
theorem exists_core_of_number? {word : List Char} {value : Double}
    (h : number? word = some value) :
    ∃ before core after, word = before ++ (core ++ after) ∧ (∀ c ∈ before, isBlank c = true) ∧
      (∀ c ∈ after, isBlank c = true) ∧ (∀ c ∈ core, isInk c = true ∧ isBracket c = false) ∧
      number? core = some value := by
  unfold number? at h
  split at h
  · cases h
  rename_i joined
  obtain ⟨ascii, read, value_eq⟩ := Option.bind_eq_some_iff.mp h
  obtain ⟨numeral, numeral_eq, -⟩ := Option.map_eq_some_iff.mp value_eq
  have chars := Numeral.isNumeralChar_of_ofChars? numeral_eq
  obtain ⟨front, back, ascii_eq, hfront, hback⟩ := exists_padding ascii
  rw [mapM_eq_some_iff, ascii_eq, List.map_append, List.map_append] at read
  obtain ⟨before, rest, rfl, before_eq, rest_eq⟩ := List.map_eq_append_iff.mp read
  obtain ⟨core, after, rfl, core_eq, after_eq⟩ := List.map_eq_append_iff.mp rest_eq
  -- Every character of a part stands for one of the corresponding part of the ASCII word.
  have stands {cs as : List Char} (h : cs.map asciiOf? = as.map some) :
      ∀ c ∈ cs, ∃ a ∈ as, asciiOf? c = some a := by
    intro c hc
    have mem : asciiOf? c ∈ as.map some := h ▸ List.mem_map_of_mem hc
    obtain ⟨a, ha, eq⟩ := List.mem_map.mp mem
    exact ⟨a, ha, eq.symm⟩
  refine ⟨before, core, after, rfl, fun c hc => ?_, fun c hc => ?_, fun c hc => ?_, ?_⟩
  · obtain ⟨a, ha, eq⟩ := stands before_eq c hc
    exact isBlank_of_asciiOf? eq (hfront a ha)
  · obtain ⟨a, ha, eq⟩ := stands after_eq c hc
    exact isBlank_of_asciiOf? eq (hback a ha)
  · obtain ⟨a, ha, eq⟩ := stands core_eq c hc
    exact isInk_of_asciiOf? eq (chars a ha)
  · have joined_core : '_' ∉ core := fun mem => joined (by simp [mem])
    have trimmed : trimPadding (trimPadding ascii) = trimPadding ascii :=
      trimPadding_of_forall fun c hc => isPadding_of_isNumeralChar (chars c hc)
    rw [number?, if_neg joined_core, mapM_eq_some_iff.mpr core_eq, Option.bind_some, trimmed,
      value_eq]

/-- A number word holds one word without blanks, which is the same number. -/
theorem exists_words_of_number? {word : List Char} {value : Double}
    (h : number? word = some value) :
    ∃ core, words word = [core] ∧ number? core = some value := by
  obtain ⟨before, core, after, rfl, hbefore, hafter, hcore, number⟩ := exists_core_of_number? h
  refine ⟨core, ?_, number⟩
  have nonempty : core ≠ [] := by
    rintro rfl
    cases number
  rw [words_between_blanks hbefore hafter, words_of_word nonempty fun c hc => (hcore c hc).1]

theorem isBracket_of_number? {word : List Char} {value : Double} (h : number? word = some value) :
    ∀ c ∈ word, isBracket c = false := by
  obtain ⟨before, core, after, rfl, hbefore, hafter, hcore, -⟩ := exists_core_of_number? h
  have blank {c : Char} (hc : isBlank c = true) : isBracket c = false := by
    rw [isBracket_eq_false_iff]
    constructor <;> rintro rfl <;> cases hc
  simp only [List.forall_mem_append]
  exact ⟨fun c hc => blank (hbefore c hc), fun c hc => (hcore c hc).2,
    fun c hc => blank (hafter c hc)⟩

end ExprCalculus

import Mathlib
import ExprCalculus.Proofs.CorrectRounding
import ExprCalculus.Proofs.NumeralGrammar
import ExprCalculus.Proofs.Padding

/-!
# The words that are numbers

A word is a number if it spells a numeral, whatever script its digits are in, with blanks around it.
Here that is said by the characters and the grammar alone, and the number is the double that the
numeral stands for.
-/

namespace ExprCalculus

/-! ## Characters -/

/-- A character and the ASCII character that it is read as: digits and blanks of any script have
one, and other characters only themselves. -/
inductive StandsFor : Char → Char → Prop where
  | ascii {c : Char} (narrow : c.toNat < 0x80) : StandsFor c c
  | blank {c : Char} (wide : 0x80 ≤ c.toNat) (hc : isBlank c = true) : StandsFor c ' '
  | digit {c : Char} {first v : Nat} (wide : 0x80 ≤ c.toNat) (hfirst : first ∈ digitZeros)
      (hv : v < 10) (place : c.toNat = first + v) : StandsFor c (Nat.digitChar v)

/-- The runs of digits do not overlap, and no digit is a blank. -/
theorem digitZeros_apart :
    (∀ a ∈ digitZeros, ∀ b ∈ digitZeros, a = b ∨ a + 10 ≤ b ∨ b + 10 ≤ a) ∧
      ∀ first ∈ digitZeros, ∀ v < 10, isBlank (Char.ofNat (first + v)) = false := by
  decide +kernel

theorem digitValue?_eq_some_iff {c : Char} {v : Nat} :
    digitValue? c = some v ↔ v < 10 ∧ ∃ first ∈ digitZeros, c.toNat = first + v := by
  constructor
  · intro h
    refine ⟨digitValue?_lt h, ?_⟩
    obtain ⟨first, found, rfl⟩ := Option.map_eq_some_iff.mp h
    have inside := List.find?_some found
    simp only [Bool.and_eq_true, decide_eq_true_eq] at inside
    exact ⟨first, List.mem_of_find?_eq_some found, by omega⟩
  · rintro ⟨hv, first, hfirst, place⟩
    unfold digitValue?
    cases found : digitZeros.find? fun first => first ≤ c.toNat && c.toNat < first + 10 with
    | none =>
      have outside := List.find?_eq_none.mp found first hfirst
      simp only [Bool.and_eq_true, decide_eq_true_eq] at outside
      omega
    | some run =>
      have inside := List.find?_some found
      simp only [Bool.and_eq_true, decide_eq_true_eq] at inside
      have same : run = first := by
        have apart := digitZeros_apart.1 run (List.mem_of_find?_eq_some found) first hfirst
        omega
      rw [same, Option.map_some, place, Nat.add_sub_cancel_left]

/-- No digit of any script is a blank. -/
theorem isBlank_of_digit {c : Char} {first v : Nat} (hfirst : first ∈ digitZeros) (hv : v < 10)
    (place : c.toNat = first + v) : isBlank c = false := by
  have ink := digitZeros_apart.2 first hfirst v hv
  rwa [← place, Char.ofNat_toNat] at ink

/-- The ASCII character that is computed for a character is the one that it stands for. -/
theorem asciiOf?_eq_some_iff {c a : Char} : asciiOf? c = some a ↔ StandsFor c a := by
  constructor
  · intro h
    unfold asciiOf? at h
    split at h
    · rename_i narrow
      obtain rfl := Option.some.inj h
      exact .ascii narrow
    · rename_i wide
      split at h
      · rename_i blank
        obtain rfl := Option.some.inj h
        exact .blank (Nat.not_lt.mp wide) blank
      · obtain ⟨v, hv, rfl⟩ := Option.map_eq_some_iff.mp h
        obtain ⟨lt, first, hfirst, place⟩ := digitValue?_eq_some_iff.mp hv
        exact .digit (Nat.not_lt.mp wide) hfirst lt place
  · intro h
    unfold asciiOf?
    cases h with
    | ascii narrow => rw [if_pos narrow]
    | blank wide hc => rw [if_neg (Nat.not_lt.mpr wide), if_pos hc]
    | digit wide hfirst hv place =>
      have ink := isBlank_of_digit hfirst hv place
      have value := digitValue?_eq_some_iff.mpr ⟨hv, _, hfirst, place⟩
      rw [if_neg (Nat.not_lt.mpr wide), ink, if_neg Bool.false_ne_true, value]
      rfl

/-! ## Words -/

/-- The ASCII characters of white space. -/
def asciiBlanks : List Char := [' ', '\t', '\n', '\x0b', '\x0c', '\r']

theorem isPadding_iff {c : Char} : isPadding c = true ↔ c ∈ asciiBlanks := by
  constructor
  · intro h
    simp only [isPadding, Bool.or_eq_true, beq_iff_eq, Bool.and_eq_true, decide_eq_true_eq] at h
    rcases h with rfl | ⟨low, high⟩
    · exact List.mem_cons_self
    · have each : ∀ n < 14, 9 ≤ n → Char.ofNat n ∈ asciiBlanks := by decide
      have mem := each c.toNat (by omega) low
      rwa [Char.ofNat_toNat] at mem
  · intro h
    have each : asciiBlanks.all isPadding = true := rfl
    exact List.all_eq_true.mp each c h

/-- The characters of the word, read in ASCII, are a numeral with white space around it. -/
def SpellsNumeral (word : List Char) (numeral : Numeral) : Prop :=
  ∃ before text after, List.Forall₂ StandsFor word (before ++ (text ++ after)) ∧
    (∀ c ∈ before, c ∈ asciiBlanks) ∧ (∀ c ∈ after, c ∈ asciiBlanks) ∧
    Numeral.IsNumeral text numeral

/-- A word has an ASCII form iff each of its characters stands for one of that form. -/
theorem mapM_asciiOf?_eq_some_iff {word ascii : List Char} :
    word.mapM asciiOf? = some ascii ↔ List.Forall₂ StandsFor word ascii := by
  rw [mapM_eq_some_iff, ← List.forall₂_eq_eq_eq, List.forall₂_map_left_iff,
    List.forall₂_map_right_iff]
  simp only [asciiOf?_eq_some_iff]

/-- Padding on both sides of a text without padding is taken off, and nothing else. -/
theorem trimPadding_append {before text after : List Char}
    (hbefore : ∀ c ∈ before, isPadding c = true) (htext : ∀ c ∈ text, isPadding c = false)
    (hafter : ∀ c ∈ after, isPadding c = true) :
    trimPadding (before ++ (text ++ after)) = text := by
  have trimmed := trimPadding_of_forall htext
  unfold trimPadding at trimmed ⊢
  rw [List.dropWhile_append_of_pos hbefore]
  cases text with
  | nil =>
    have all : after.dropWhile isPadding = [] := List.dropWhile_eq_nil_iff.mpr hafter
    rw [List.nil_append, all]
    rfl
  | cons c cs =>
    have ink := htext c List.mem_cons_self
    have stop (rest : List Char) : (c :: rest).dropWhile isPadding = c :: rest :=
      List.dropWhile_cons_of_neg (by rw [ink]; exact Bool.false_ne_true)
    rw [stop] at trimmed
    rw [List.cons_append, stop, ← List.cons_append, List.reverse_append,
      List.dropWhile_append_of_pos (by simpa using hafter), trimmed]

/-- What a word spells is what is read after it has been brought to ASCII and trimmed. -/
theorem spellsNumeral_iff {word : List Char} {numeral : Numeral} :
    SpellsNumeral word numeral ↔
      ∃ ascii, word.mapM asciiOf? = some ascii ∧
        Numeral.ofChars? (trimPadding ascii) = some numeral := by
  constructor
  · rintro ⟨before, text, after, reads, hbefore, hafter, hnumeral⟩
    have found := Numeral.ofChars?_eq_some_iff.mpr hnumeral
    have ink : ∀ c ∈ text, isPadding c = false := fun c hc =>
      isPadding_of_isNumeralChar (Numeral.isNumeralChar_of_ofChars? found c hc)
    refine ⟨_, mapM_asciiOf?_eq_some_iff.mpr reads, ?_⟩
    rw [trimPadding_append (fun c hc => isPadding_iff.mpr (hbefore c hc)) ink
      (fun c hc => isPadding_iff.mpr (hafter c hc)), found]
  · rintro ⟨ascii, reads, found⟩
    obtain ⟨before, after, ascii_eq, hbefore, hafter⟩ := exists_padding ascii
    refine ⟨before, trimPadding ascii, after, ?_, fun c hc => isPadding_iff.mp (hbefore c hc),
      fun c hc => isPadding_iff.mp (hafter c hc), Numeral.ofChars?_eq_some_iff.mp found⟩
    rw [← ascii_eq]
    exact mapM_asciiOf?_eq_some_iff.mp reads

theorem number?_eq_some_iff {word : List Char} {d : Double} :
    number? word = some d ↔
      '_' ∉ word ∧ ∃ numeral, SpellsNumeral word numeral ∧ numeral.Denotes d := by
  constructor
  · intro h
    unfold number? at h
    split at h
    · cases h
    rename_i joined
    obtain ⟨ascii, reads, value⟩ := Option.bind_eq_some_iff.mp h
    obtain ⟨numeral, found, value⟩ := Option.map_eq_some_iff.mp value
    have spells := spellsNumeral_iff.mpr ⟨ascii, reads, found⟩
    exact ⟨joined, numeral, spells, Numeral.value_eq_iff.mp value⟩
  · rintro ⟨joined, numeral, spells, denotes⟩
    obtain ⟨ascii, reads, found⟩ := spellsNumeral_iff.mp spells
    rw [number?, if_neg joined, reads, Option.bind_some, found, Option.map_some,
      Numeral.value_eq_iff.mpr denotes]

/-- A word is no number if it holds an underscore or spells no numeral. Otherwise it is the number
that the numeral stands for: for digits of any length the nearest double, of two the even one. -/
theorem number?_reads_numerals (word : List Char) :
    (number? word = none ↔ '_' ∈ word ∨ ∀ numeral, ¬ SpellsNumeral word numeral) ∧
      ∀ d, number? word = some d ↔
        '_' ∉ word ∧ ∃ numeral, SpellsNumeral word numeral ∧ numeral.Denotes d := by
  refine ⟨?_, fun d => number?_eq_some_iff⟩
  constructor
  · intro none
    by_contra other
    obtain ⟨joined, spelled⟩ := not_or.mp other
    obtain ⟨numeral, spells⟩ := not_forall_not.mp spelled
    have number := number?_eq_some_iff.mpr ⟨joined, numeral, spells, Numeral.value_eq_iff.mp rfl⟩
    rw [none] at number
    cases number
  · intro other
    by_contra number
    obtain ⟨d, some⟩ := Option.ne_none_iff_exists'.mp number
    obtain ⟨joined, numeral, spells, -⟩ := number?_eq_some_iff.mp some
    rcases other with mem | spelled
    · exact joined mem
    · exact spelled numeral spells

/-- One, in Arabic-Indic script behind an ideographic space; and twelve and a half in three scripts,
between an em space and a next-line character. -/
example : number? ['\u3000', '\u0661'] = some (.ofNat 1) ∧
    number? ['\u2003', '\u0661', '2', '.', '\uff15', '\u0085'] =
      some (.ofDecimal false ⟨125, -1⟩) := by
  decide +kernel

end ExprCalculus

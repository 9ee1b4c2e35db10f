import Mathlib
import ExprCalculus.Number.Layout
import ExprCalculus.Number.Numeral
import ExprCalculus.Proofs.NearestDouble
import ExprCalculus.Text.Cursor

/-!
# Literals are read back

A text of a double is made of few characters, none of which is padding, a gap or a bracket, so it is
a numeral as it stands. The layouts of a decimal differ in where the point is and in the power of
ten, and are all read as a decimal of the same value. For the shortest decimal of a code, and for an
integer, that value rounds to the code, and so the text is read as the double that it was written
for.
-/

namespace ExprCalculus

/- Powers of natural numbers are those of the core library. -/
attribute [local instance (20000)] instPowNat instNatPowNat

/-! ## The characters of a literal -/

/-- A character that occurs in the texts of doubles. -/
def isLiteralChar (c : Char) : Bool :=
  c.isDigit || decide (c ∈ ['.', '-', '+', 'e', 'i', 'n', 'f', 'a'])

theorem isLiteralChar_of_isDigit {c : Char} (h : c.isDigit = true) : isLiteralChar c = true := by
  rw [isLiteralChar, h, Bool.true_or]

/-- The characters of literals lie behind the brackets and before `'o'`. -/
theorem literalChar_bounds {c : Char} (h : isLiteralChar c = true) :
    43 ≤ c.toNat ∧ c.toNat ≤ 110 ∧ c.toNat ≠ 95 := by
  rcases (Bool.or_eq_true _ _).mp h with h | h
  · have : 48 ≤ c.toNat ∧ c.toNat ≤ 57 := Char.isDigit_iff_toNat.mp h
    omega
  · have mem := of_decide_eq_true h
    simp only [List.mem_cons, List.not_mem_nil, or_false] at mem
    rcases mem with rfl | rfl | rfl | rfl | rfl | rfl | rfl | rfl <;> decide

theorem isPadding_of_isLiteralChar {c : Char} (h : isLiteralChar c = true) :
    isPadding c = false := by
  have bounds := literalChar_bounds h
  have space : c ≠ ' ' := by
    rintro rfl
    exact absurd bounds.1 (by decide)
  simp only [isPadding, Bool.or_eq_false_iff, beq_eq_false_iff_ne, Bool.and_eq_false_iff,
    decide_eq_false_iff_not]
  exact ⟨space, .inr (by omega)⟩

theorem isWordChar_of_isLiteralChar {c : Char} (h : isLiteralChar c = true) :
    isWordChar c = true := by
  have gap : isGap c = false := by
    by_contra hg
    have padding := isPadding_of_isGap (by simpa using hg)
    rw [isPadding_of_isLiteralChar h] at padding
    cases padding
  have bracket : isBracket c = false := by
    have bounds := literalChar_bounds h
    rw [isBracket_eq_false_iff]
    constructor <;> rintro rfl <;> exact absurd bounds.1 (by decide)
  rw [isWordChar, gap, bracket]
  rfl

theorem mapM_asciiOf? {word : List Char} (h : ∀ c ∈ word, isLiteralChar c = true) :
    word.mapM asciiOf? = some word := by
  have each : ∀ c ∈ word, asciiOf? c = some c := by
    intro c hc
    have bounds := literalChar_bounds (h c hc)
    rw [asciiOf?, if_pos (by omega)]
  induction word with
  | nil => rfl
  | cons c cs ih =>
    have rest := ih (fun d hd => h d (List.mem_cons_of_mem _ hd))
      (fun d hd => each d (List.mem_cons_of_mem _ hd))
    rw [List.mapM_cons, each c List.mem_cons_self, rest]
    rfl

theorem trimPadding_of_forall {cs : List Char} (h : ∀ c ∈ cs, isPadding c = false) :
    trimPadding cs = cs := by
  have keep {cs : List Char} (hcs : ∀ c ∈ cs, isPadding c = false) :
      cs.dropWhile isPadding = cs := by
    cases cs with
    | nil => rfl
    | cons c cs =>
      rw [List.dropWhile_cons_of_neg]
      rw [hcs c List.mem_cons_self]
      decide
  rw [trimPadding, keep h, keep (by simpa using h), List.reverse_reverse]

theorem trimPadding_of_literal {word : List Char} (h : ∀ c ∈ word, isLiteralChar c = true) :
    trimPadding word = word :=
  trimPadding_of_forall fun c hc => isPadding_of_isLiteralChar (h c hc)

/-- A word of such characters is read as a numeral as it stands. -/
theorem number?_of_literal {word : List Char} (h : ∀ c ∈ word, isLiteralChar c = true) :
    number? word = (Numeral.ofChars? word).map Numeral.value := by
  have joined : '_' ∉ word := fun hc => absurd (literalChar_bounds (h _ hc)).2.2 (by decide)
  rw [number?, if_neg joined, mapM_asciiOf? h, Option.bind_some, trimPadding_of_literal h]

/-! ## Numerals -/

namespace Numeral

/-- The leading digits end where the first other character stands. -/
theorem splitDigits_append {ds rest : List Char} (hds : ∀ c ∈ ds, c.isDigit = true)
    (hrest : ∀ c ∈ rest.head?, c.isDigit = false) : splitDigits (ds ++ rest) = (ds, rest) := by
  have stop : rest.takeWhile Char.isDigit = [] ∧ rest.dropWhile Char.isDigit = rest := by
    cases rest with
    | nil => simp
    | cons c cs => simp [hrest c rfl]
  rw [splitDigits, List.takeWhile_append_of_pos hds, List.dropWhile_append_of_pos hds, stop.1,
    stop.2, List.append_nil]

/-- Digits, and then what is no further digit and no point. -/
theorem decimal?_whole (negative : Bool) {whole rest : List Char} (nonempty : whole ≠ [])
    (hwhole : ∀ c ∈ whole, c.isDigit = true)
    (hrest : ∀ c ∈ rest.head?, c.isDigit = false ∧ c ≠ '.') :
    decimal? negative (whole ++ rest) = (power? rest).map (decimal negative whole []) := by
  have fraction : splitFraction rest = ([], rest) := by
    cases rest with
    | nil => rfl
    | cons c cs =>
      have point : c ≠ '.' := (hrest c rfl).2
      simp [splitFraction, point]
  simp [decimal?, splitDigits_append hwhole fun c hc => (hrest c hc).1, fraction, nonempty]

/-- Digits on both sides of a point, and then what is no further digit. -/
theorem decimal?_point (negative : Bool) {whole fraction rest : List Char} (nonempty : whole ≠ [])
    (hwhole : ∀ c ∈ whole, c.isDigit = true) (hfraction : ∀ c ∈ fraction, c.isDigit = true)
    (hrest : ∀ c ∈ rest.head?, c.isDigit = false) :
    decimal? negative (whole ++ '.' :: (fraction ++ rest)) =
      (power? rest).map (decimal negative whole fraction) := by
  have point : ∀ c ∈ ('.' :: (fraction ++ rest)).head?, c.isDigit = false := by
    rintro c ⟨⟩
    decide
  simp [decimal?, splitDigits_append hwhole point, splitFraction,
    splitDigits_append hfraction hrest, nonempty]

theorem decimal?_point_nil (negative : Bool) {whole fraction : List Char} (nonempty : whole ≠ [])
    (hwhole : ∀ c ∈ whole, c.isDigit = true) (hfraction : ∀ c ∈ fraction, c.isDigit = true) :
    decimal? negative (whole ++ '.' :: fraction) = some (decimal negative whole fraction 0) := by
  have h : decimal? negative (whole ++ '.' :: (fraction ++ [])) = _ :=
    decimal?_point negative nonempty hwhole hfraction (by simp)
  rwa [List.append_nil] at h

/-- What is read as a numeral without sign does not begin with one. -/
theorem ofChars?_signed {negative : Bool} {cs : List Char} {numeral : Numeral}
    (h : (decimal? negative cs <|> special? negative cs) = some numeral) :
    ofChars? (signed negative cs) = some numeral := by
  cases negative with
  | true => exact h
  | false =>
    have unsigned : splitSign cs = (false, cs) := by
      unfold splitSign
      split
      · simp [decimal?, splitDigits, splitFraction, special?] at h
      · simp [decimal?, splitDigits, splitFraction, special?] at h
      · rfl
    simp only [ofChars?, signed, Bool.false_eq_true, if_false, unsigned]
    exact h

end Numeral

/-! ## Layouts -/

theorem isDigit_of_mem_toDigits {n : Nat} {c : Char} (h : c ∈ Nat.toDigits 10 n) :
    c.isDigit = true :=
  Nat.isDigit_of_mem_toDigits (by decide) (by decide) h

namespace Decimal

theorem SameValue.refl (decimal : Decimal) : decimal.SameValue decimal := rfl

/-- The text is read, without sign, as a decimal of the same value. -/
def WrittenAs (decimal : Decimal) (cs : List Char) : Prop :=
  ∃ whole fraction power,
    (∀ negative, Numeral.decimal? negative cs = some (.decimal negative whole fraction power)) ∧
    SameValue ⟨Nat.ofDigitChars 10 (whole ++ fraction) 0, power - fraction.length⟩ decimal

theorem isDigit_of_mem_digits {decimal : Decimal} {c : Char} (h : c ∈ decimal.digits) :
    c.isDigit = true :=
  isDigit_of_mem_toDigits h

theorem digits_ne_nil (decimal : Decimal) : decimal.digits ≠ [] := Nat.toDigits_ne_nil

theorem ofDigitChars_digits (decimal : Decimal) :
    Nat.ofDigitChars 10 decimal.digits 0 = decimal.coefficient :=
  Nat.ofDigitChars_toDigits (by decide) (by decide)

/-- A power of ten is read back. -/
theorem power?_powerText (power : Int) : Numeral.power? (powerText power) = some power := by
  have digits : ∃ ds, powerText power = 'e' :: (if power < 0 then '-' else '+') :: ds ∧
      ds ≠ [] ∧ (∀ c ∈ ds, c.isDigit = true) ∧ Nat.ofDigitChars 10 ds 0 = power.natAbs := by
    have value : Nat.ofDigitChars 10 (Nat.toDigits 10 power.natAbs) 0 = power.natAbs :=
      Nat.ofDigitChars_toDigits (by decide) (by decide)
    refine ⟨_, rfl, ?_⟩
    split
    · refine ⟨List.cons_ne_nil _ _, ?_, ?_⟩
      · intro c hc
        rcases List.mem_cons.mp hc with rfl | hc
        · decide
        · exact isDigit_of_mem_toDigits hc
      · rw [Nat.ofDigitChars_cons]
        exact value
    · exact ⟨Nat.toDigits_ne_nil, fun c => isDigit_of_mem_toDigits, value⟩
  obtain ⟨ds, text_eq, nonempty, each, value⟩ := digits
  have all : ds.all Char.isDigit = true := List.all_eq_true.mpr each
  rw [text_eq]
  by_cases negative : power < 0
  · have magnitude : -(power.natAbs : Int) = power := by omega
    simp [Numeral.power?, Numeral.splitSign, negative, nonempty, all, value, -Nat.cast_natAbs,
      magnitude]
  · have magnitude : (power.natAbs : Int) = power := by omega
    simp [Numeral.power?, Numeral.splitSign, negative, nonempty, all, value, -Nat.cast_natAbs,
      magnitude]

theorem writtenAs_scientific (decimal : Decimal) : decimal.WrittenAs decimal.scientific := by
  have value := decimal.ofDigitChars_digits
  have each := fun c => @isDigit_of_mem_digits decimal c
  have mark : ∀ c ∈ (powerText decimal.magnitude).head?, c.isDigit = false ∧ c ≠ '.' := by
    rintro c ⟨⟩
    decide
  unfold scientific
  cases hds : decimal.digits with
  | nil => exact absurd hds decimal.digits_ne_nil
  | cons d ds =>
    rw [hds] at value each
    have first : ∀ c ∈ [d], c.isDigit = true := fun c hc =>
      each c (List.mem_singleton.mp hc ▸ List.mem_cons_self)
    have rest : ∀ c ∈ ds, c.isDigit = true := fun c hc => each c (List.mem_cons_of_mem _ hc)
    have exponent_eq : decimal.magnitude - ds.length = decimal.exponent := by
      rw [magnitude, hds, List.length_cons]
      omega
    refine ⟨[d], ds, decimal.magnitude, fun negative => ?_, ?_⟩
    · cases ds with
      | nil =>
        have read := Numeral.decimal?_whole negative (List.cons_ne_nil d []) first mark
        rw [power?_powerText] at read
        exact read
      | cons e ds =>
        have read := Numeral.decimal?_point negative (List.cons_ne_nil d []) first rest
          fun c hc => (mark c hc).1
        rw [power?_powerText] at read
        simpa using read
    · rw [exponent_eq, List.singleton_append, value]
      exact .refl decimal

/-- Digits on both sides of a point are read as one coefficient, with a place for each digit behind
the point. -/
theorem writtenAs_point {decimal : Decimal} {whole fraction : List Char} (nonempty : whole ≠ [])
    (hwhole : ∀ c ∈ whole, c.isDigit = true) (hfraction : ∀ c ∈ fraction, c.isDigit = true)
    (same : SameValue ⟨Nat.ofDigitChars 10 (whole ++ fraction) 0, -fraction.length⟩ decimal) :
    decimal.WrittenAs (whole ++ '.' :: fraction) := by
  refine ⟨whole, fraction, 0, fun negative => ?_, by rwa [Int.zero_sub]⟩
  exact Numeral.decimal?_point_nil negative nonempty hwhole hfraction

/-- A whole number is written with one place more than it has. -/
theorem sameValue_point_zero {decimal : Decimal} (whole : 0 ≤ decimal.exponent) :
    SameValue ⟨10 ^ decimal.exponent.toNat * decimal.coefficient * 10, -1⟩ decimal := by
  have written : (⟨10 ^ decimal.exponent.toNat * decimal.coefficient * 10, -1⟩ : Decimal).ratio =
      (10 ^ decimal.exponent.toNat * decimal.coefficient * 10, 10) := rfl
  rw [SameValue, written, ratio, if_pos whole]
  ring

theorem isDigit_of_mem_zeros {n : Nat} : ∀ c ∈ List.replicate n '0', c.isDigit = true := by
  intro c hc
  rw [(List.mem_replicate.mp hc).2]
  decide

theorem writtenAs_positional (decimal : Decimal) : decimal.WrittenAs decimal.positional := by
  have value := decimal.ofDigitChars_digits
  have each := fun c => @isDigit_of_mem_digits decimal c
  have nonempty := decimal.digits_ne_nil
  unfold positional
  dsimp only
  generalize decimal.digits = ds at *
  split
  · rename_i whole
    have coefficient : Nat.ofDigitChars 10
        (ds ++ List.replicate decimal.exponent.toNat '0' ++ ['0']) 0 =
          10 ^ decimal.exponent.toNat * decimal.coefficient * 10 := by
      rw [List.append_assoc, Nat.ofDigitChars_append, value, Nat.ofDigitChars_append,
        Nat.ofDigitChars_replicate_zero]
      simp [Nat.ofDigitChars_cons, Nat.mul_comm]
    refine writtenAs_point (by simp [nonempty]) ?_ (@isDigit_of_mem_zeros 1) ?_
    · exact List.forall_mem_append.mpr ⟨each, isDigit_of_mem_zeros⟩
    · rw [coefficient]
      exact sameValue_point_zero whole
  rename_i fractional
  generalize hplaces : (-decimal.exponent).toNat = places
  have exponent_eq : -(places : Int) = decimal.exponent := by omega
  split
  · rename_i inside
    have front : ds.take (ds.length - places) ≠ [] := by
      rw [Ne, List.take_eq_nil_iff, not_or]
      exact ⟨by omega, nonempty⟩
    refine writtenAs_point front (fun c hc => each c (List.mem_of_mem_take hc))
      (fun c hc => each c (List.mem_of_mem_drop hc)) ?_
    rw [List.take_append_drop, value, List.length_drop, Nat.sub_sub_self inside.le, exponent_eq]
    exact .refl decimal
  · rename_i outside
    have coefficient : Nat.ofDigitChars 10
        (['0'] ++ (List.replicate (places - ds.length) '0' ++ ds)) 0 = decimal.coefficient := by
      rw [Nat.ofDigitChars_append, Nat.ofDigitChars_append, Nat.ofDigitChars_replicate_zero]
      exact value
    have length : (List.replicate (places - ds.length) '0' ++ ds).length = places := by
      rw [List.length_append, List.length_replicate]
      omega
    refine writtenAs_point (List.cons_ne_nil '0' []) (@isDigit_of_mem_zeros 1) ?_ ?_
    · exact List.forall_mem_append.mpr ⟨isDigit_of_mem_zeros, each⟩
    · rw [coefficient, length, exponent_eq]
      exact .refl decimal

/-- Whichever notation is chosen, it writes the decimal. -/
theorem writtenAs_layout (decimal : Decimal) : decimal.WrittenAs decimal.layout := by
  unfold layout
  split
  · exact writtenAs_positional decimal
  · exact writtenAs_scientific decimal

theorem writtenAs_natural (n : Nat) : WrittenAs ⟨n, 0⟩ (Nat.toDigits 10 n) := by
  refine ⟨Nat.toDigits 10 n, [], 0, fun negative => ?_, ?_⟩
  · have read : Numeral.decimal? negative (Nat.toDigits 10 n ++ []) = _ :=
      Numeral.decimal?_whole negative Nat.toDigits_ne_nil (fun c => isDigit_of_mem_toDigits)
        (by simp)
    rwa [List.append_nil] at read
  · rw [List.append_nil, Nat.ofDigitChars_toDigits (by decide) (by decide)]
    exact .refl _

theorem isLiteralChar_of_mem_toDigits {n : Nat} : ∀ c ∈ Nat.toDigits 10 n, isLiteralChar c = true :=
  fun _ hc => isLiteralChar_of_isDigit (isDigit_of_mem_toDigits hc)

theorem isLiteralChar_of_mem_layout (decimal : Decimal) :
    ∀ c ∈ decimal.layout, isLiteralChar c = true := by
  have digits : ∀ c ∈ decimal.digits, isLiteralChar c = true := isLiteralChar_of_mem_toDigits
  have zero : isLiteralChar '0' = true := rfl
  have zeros (k : Nat) : ∀ c ∈ List.replicate k '0', isLiteralChar c = true := by
    intro c hc
    rwa [(List.mem_replicate.mp hc).2]
  have point : isLiteralChar '.' = true := rfl
  unfold layout
  split
  · unfold positional
    dsimp only
    split
    · simp only [List.forall_mem_append, List.forall_mem_cons]
      exact ⟨⟨digits, zeros _⟩, point, zero, nofun⟩
    split
    · simp only [List.forall_mem_append, List.forall_mem_cons]
      exact ⟨fun c hc => digits c (List.mem_of_mem_take hc), point,
        fun c hc => digits c (List.mem_of_mem_drop hc)⟩
    · simp only [List.forall_mem_append, List.forall_mem_cons]
      exact ⟨zero, point, zeros _, digits⟩
  · unfold scientific
    rw [List.forall_mem_append]
    constructor
    · split
      · exact nofun
      · rename_i d hd
        exact hd ▸ digits
      · rename_i d ds _ hd
        simp only [hd, List.forall_mem_cons] at digits ⊢
        exact ⟨digits.1, point, digits.2⟩
    · have sign : isLiteralChar (if decimal.magnitude < 0 then '-' else '+') = true := by
        split <;> rfl
      unfold powerText
      simp only [List.forall_mem_cons]
      refine ⟨rfl, sign, ?_⟩
      split
      · exact List.forall_mem_cons.mpr ⟨zero, isLiteralChar_of_mem_toDigits⟩
      · exact isLiteralChar_of_mem_toDigits

end Decimal

/-! ## Doubles -/

namespace Double

theorem isLiteralChar_of_mem_signed (negative : Bool) {cs : List Char}
    (h : ∀ c ∈ cs, isLiteralChar c = true) : ∀ c ∈ signed negative cs, isLiteralChar c = true := by
  cases negative with
  | false => exact h
  | true => exact List.forall_mem_cons.mpr ⟨rfl, h⟩

theorem ofCode_of_lt (negative : Bool) (code : Fin codes) :
    ofCode negative code = .finite negative code :=
  dif_pos code.isLt

/-- A text of a decimal in the interval of a code is read, behind a sign, as the double. -/
theorem number?_signed (negative : Bool) {code : Fin codes} {decimal : Decimal} {cs : List Char}
    (chars : ∀ c ∈ cs, isLiteralChar c = true) (written : decimal.WrittenAs cs)
    (covers : Covers code decimal) :
    number? (signed negative cs) = some (.finite negative code) := by
  obtain ⟨whole, fraction, power, read, same⟩ := written
  have numeral : Numeral.ofChars? (signed negative cs) =
      some (.decimal negative whole fraction power) :=
    Numeral.ofChars?_signed (by rw [read]; rfl)
  rw [number?_of_literal (isLiteralChar_of_mem_signed negative chars), numeral, Option.map_some,
    Numeral.value, ofDecimal_of_covers negative (covers.congr same.symm), ofCode_of_lt]

theorem isLiteralChar_of_mem_text (d : Double) : ∀ c ∈ d.text, isLiteralChar c = true := by
  cases d with
  | nan => exact List.all_eq_true.mp rfl
  | infinite negative => exact isLiteralChar_of_mem_signed negative (List.all_eq_true.mp rfl)
  | finite negative code =>
    refine isLiteralChar_of_mem_signed negative ?_
    split
    · exact List.all_eq_true.mp rfl
    · exact Decimal.isLiteralChar_of_mem_layout _

/-- The text of a double is read as the double. -/
theorem number?_text (d : Double) : number? d.text = some d := by
  cases d with
  | nan => rfl
  | infinite negative => cases negative <;> rfl
  | finite negative code =>
    rw [text]
    split
    · rename_i zero_code
      have written : Decimal.WrittenAs ⟨0, -1⟩ ['0', '.', '0'] :=
        Decimal.writtenAs_positional ⟨0, -1⟩
      have covers : Covers code ⟨0, -1⟩ := zero_code ▸ covers_zero (-1)
      exact number?_signed negative (List.all_eq_true.mp rfl) written covers
    · exact number?_signed negative (Decimal.isLiteralChar_of_mem_layout _)
        (Decimal.writtenAs_layout _) (covers_shortest code)

theorem natAbs_of_sign {negative : Bool} {m : Nat} {n : Int}
    (h : (if negative then -(m : Int) else m) = n) : n.natAbs = m := by
  cases negative with
  | true =>
    have h : -(m : Int) = n := h
    omega
  | false =>
    have h : (m : Int) = n := h
    omega

/-- A double that is an integer has its magnitude, and its sign as far as it has one. -/
theorem toInt?_finite {negative : Bool} {code : Fin codes} {n : Int}
    (h : (finite negative code).toInt? = some n) :
    units code = n.natAbs * 2 ^ (1074 : Nat) ∧
      n = if negative then -(n.natAbs : Int) else n.natAbs := by
  have whole : units code % 2 ^ (1074 : Nat) = 0 := by
    by_contra fraction
    rw [toInt?, if_neg fraction] at h
    cases h
  rw [toInt?, if_pos whole] at h
  have value := Nat.div_mul_cancel (Nat.dvd_of_mod_eq_zero whole)
  have n_eq := Option.some.inj h
  rw [natAbs_of_sign n_eq]
  exact ⟨value.symm, n_eq.symm⟩

/-- The integer text of an integral double reads back as the double, minus zero apart. -/
theorem number?_integerText {d : Double} {n : Int} (h : d.toInt? = some n)
    (not_minus_zero : d ≠ zero true) : number? (integerText n) = some d := by
  cases d with
  | nan => cases h
  | infinite negative => cases h
  | finite negative code =>
    obtain ⟨magnitude, sign⟩ := toInt?_finite h
    have sign_eq : decide (n < 0) = negative := by
      cases negative with
      | false =>
        have : n = n.natAbs := sign
        exact decide_eq_false (by omega)
      | true =>
        have : n = -(n.natAbs : Int) := sign
        refine decide_eq_true ?_
        by_contra nonnegative
        have vanishes : n.natAbs = 0 := by omega
        have zero_units : units code = units 0 := by
          rw [magnitude, mul_eq_zero_of_left vanishes, units_zero]
        have zero_code : code = ⟨0, by decide⟩ := Fin.ext (units_injective zero_units)
        exact not_minus_zero (by rw [zero_code, zero])
    rw [integerText, sign_eq]
    exact number?_signed negative Decimal.isLiteralChar_of_mem_toDigits
      (Decimal.writtenAs_natural _) (covers_natural magnitude)

theorem isLiteralChar_of_mem_literal (d : Double) : ∀ c ∈ d.literal, isLiteralChar c = true := by
  unfold literal
  split
  · exact List.all_eq_true.mp rfl
  split
  · split
    · exact isLiteralChar_of_mem_signed _ Decimal.isLiteralChar_of_mem_toDigits
    · exact isLiteralChar_of_mem_text d
  · exact isLiteralChar_of_mem_text d

/-- The literal of a double is read as the double. -/
theorem number?_literal (d : Double) : number? d.literal = some d := by
  unfold literal
  split
  · rename_i minus_zero
    rw [minus_zero]
    rfl
  split
  · rename_i not_minus_zero _ n integer
    split
    · exact number?_integerText integer not_minus_zero
    · exact number?_text d
  · exact number?_text d

theorem literal_ne_nil (d : Double) : d.literal ≠ [] := by
  intro h
  have read := number?_literal d
  rw [h] at read
  cases read

end Double

end ExprCalculus

import Mathlib
import ExprCalculus.Proofs.Literal

/-!
# The grammar of numerals

A numeral is an optional sign and then either digits with a point and a power of ten, of which both
may be missing, or the name of an infinity or of not-a-number. The reader takes the longest run of
digits wherever one may stand. It finds no parse this way that the grammar lacks and misses none
that it has: what follows a run of digits never begins with a digit.
-/

namespace ExprCalculus.Numeral

/-! ## The grammar -/

/-- One digit or more. -/
def IsDigits (cs : List Char) : Prop := cs ≠ [] ∧ ∀ c ∈ cs, c.isDigit = true

/-- A sign, which may be missing, and whether it is a minus. -/
inductive IsSign : List Char → Bool → Prop where
  | missing : IsSign [] false
  | plus : IsSign ['+'] false
  | minus : IsSign ['-'] true

/-- Digits with or without a point, and the digits on both sides of it. -/
inductive IsMantissa : List Char → List Char → List Char → Prop where
  | whole {ds : List Char} (hds : IsDigits ds) : IsMantissa ds ds []
  | point {ds fs : List Char} (hds : IsDigits ds) (hfs : ∀ c ∈ fs, c.isDigit = true) :
      IsMantissa (ds ++ '.' :: fs) ds fs
  | fraction {fs : List Char} (hfs : IsDigits fs) : IsMantissa ('.' :: fs) [] fs

/-- A power of ten, which may be missing. -/
inductive IsPower : List Char → Int → Prop where
  | missing : IsPower [] 0
  | marked {mark : Char} {sign ds : List Char} {negative : Bool} (hmark : mark = 'e' ∨ mark = 'E')
      (hsign : IsSign sign negative) (hds : IsDigits ds) :
      IsPower (mark :: (sign ++ ds))
        (if negative then -(Nat.ofDigitChars 10 ds 0 : Int) else Nat.ofDigitChars 10 ds 0)

/-- A numeral and what it says. -/
inductive IsNumeral : List Char → Numeral → Prop where
  | decimal {sign mantissa scale whole fraction : List Char} {negative : Bool} {power : Int}
      (hsign : IsSign sign negative) (hmantissa : IsMantissa mantissa whole fraction)
      (hscale : IsPower scale power) :
      IsNumeral (sign ++ (mantissa ++ scale)) (.decimal negative whole fraction power)
  | infinity {sign name : List Char} {negative : Bool} (hsign : IsSign sign negative)
      (hname : name.map Char.toLower = ['i', 'n', 'f'] ∨
        name.map Char.toLower = ['i', 'n', 'f', 'i', 'n', 'i', 't', 'y']) :
      IsNumeral (sign ++ name) (.infinity negative)
  | nan {sign name : List Char} {negative : Bool} (hsign : IsSign sign negative)
      (hname : name.map Char.toLower = ['n', 'a', 'n']) : IsNumeral (sign ++ name) .nan

/-! ## Signs -/

/-- What is split off in front is a sign, possibly an empty one. -/
theorem exists_isSign_splitSign (cs : List Char) :
    ∃ sign, IsSign sign (splitSign cs).1 ∧ cs = sign ++ (splitSign cs).2 := by
  unfold splitSign
  split
  · exact ⟨['-'], .minus, rfl⟩
  · exact ⟨['+'], .plus, rfl⟩
  · exact ⟨[], .missing, rfl⟩

theorem splitSign_append {sign rest : List Char} {negative : Bool} (hsign : IsSign sign negative)
    (hrest : ∀ c ∈ rest.head?, c ≠ '-' ∧ c ≠ '+') :
    splitSign (sign ++ rest) = (negative, rest) := by
  cases hsign with
  | plus => rfl
  | minus => rfl
  | missing =>
    cases rest with
    | nil => rfl
    | cons c cs =>
      have := hrest c rfl
      simp [splitSign, this]

theorem not_sign_of_isAlphanum {c : Char} (h : c.isAlphanum = true) : c ≠ '-' ∧ c ≠ '+' := by
  constructor
  · rintro rfl
    cases h
  · rintro rfl
    cases h

theorem not_sign_of_isDigit {c : Char} (h : c.isDigit = true) : c ≠ '-' ∧ c ≠ '+' :=
  not_sign_of_isAlphanum (by rw [Char.isAlphanum, h, Bool.or_true])

theorem IsDigits.head? {ds : List Char} (h : IsDigits ds) (rest : List Char) :
    ∀ c ∈ (ds ++ rest).head?, c.isDigit = true := by
  obtain ⟨nonempty, each⟩ := h
  obtain ⟨d, ds, rfl⟩ := List.exists_cons_of_ne_nil nonempty
  rintro c ⟨⟩
  exact each _ List.mem_cons_self

/-! ## Powers of ten -/

/-- The reader of powers accepts exactly the powers of the grammar. -/
theorem power?_eq_some_iff {cs : List Char} {power : Int} :
    power? cs = some power ↔ IsPower cs power := by
  constructor
  · intro h
    cases cs with
    | nil =>
      cases h
      exact .missing
    | cons mark rest =>
      obtain ⟨sign, hsign, rest_eq⟩ := exists_isSign_splitSign rest
      rcases hsplit : splitSign rest with ⟨negative, ds⟩
      rw [hsplit] at hsign rest_eq
      simp only [power?, hsplit] at h
      split at h
      · rename_i marked
        obtain ⟨hmark, nonempty, digits⟩ := marked
        obtain rfl := Option.some.inj h
        rw [rest_eq]
        exact .marked hmark hsign ⟨nonempty, List.all_eq_true.mp digits⟩
      · cases h
  · intro h
    cases h with
    | missing => rfl
    | @marked mark sign ds negative hmark hsign hds =>
      have first := hds.head? []
      rw [List.append_nil] at first
      have split : splitSign (sign ++ ds) = (negative, ds) :=
        splitSign_append hsign fun c hc => not_sign_of_isDigit (first c hc)
      have all : ds.all Char.isDigit = true := List.all_eq_true.mpr hds.2
      simp [power?, split, hmark, hds.1, all]

theorem IsPower.head? {cs : List Char} {power : Int} (h : IsPower cs power) :
    ∀ c ∈ cs.head?, c.isDigit = false ∧ c ≠ '.' := by
  cases h with
  | missing => exact nofun
  | marked hmark hsign hds =>
    rintro c ⟨⟩
    rcases hmark with rfl | rfl
    · decide
    · decide

/-! ## Decimal numbers -/

/-- Digits behind a point only, and then what is no further digit. -/
theorem decimal?_fraction (negative : Bool) {fraction rest : List Char} (nonempty : fraction ≠ [])
    (hfraction : ∀ c ∈ fraction, c.isDigit = true) (hrest : ∀ c ∈ rest.head?, c.isDigit = false) :
    decimal? negative ('.' :: (fraction ++ rest)) =
      (power? rest).map (.decimal negative [] fraction) := by
  have front : splitDigits ('.' :: (fraction ++ rest)) = ([], '.' :: (fraction ++ rest)) := rfl
  simp [decimal?, front, splitFraction, splitDigits_append hfraction hrest, nonempty]

/-- A mantissa of the grammar is read off whole, and the power behind it decides. -/
theorem decimal?_mantissa (negative : Bool) {mantissa whole fraction scale : List Char}
    (h : IsMantissa mantissa whole fraction)
    (hscale : ∀ c ∈ scale.head?, c.isDigit = false ∧ c ≠ '.') :
    decimal? negative (mantissa ++ scale) =
      (power? scale).map (.decimal negative whole fraction) := by
  cases h with
  | whole hds => exact decimal?_whole negative hds.1 hds.2 hscale
  | point hds hfs =>
    rw [List.append_assoc, List.cons_append]
    exact decimal?_point negative hds.1 hds.2 hfs fun c hc => (hscale c hc).1
  | fraction hfs => exact decimal?_fraction negative hfs.1 hfs.2 fun c hc => (hscale c hc).1

theorem splitDigits_eq (cs : List Char) :
    cs = (splitDigits cs).1 ++ (splitDigits cs).2 ∧
      ∀ c ∈ (splitDigits cs).1, c.isDigit = true := by
  constructor
  · exact List.takeWhile_append_dropWhile.symm
  · intro c hc
    exact List.mem_takeWhile_imp hc

/-- What the reader splits off is a mantissa, unless there are no digits at all. -/
theorem isMantissa_of_split {cs whole rest fraction scale : List Char}
    (hwhole : splitDigits cs = (whole, rest)) (hfraction : splitFraction rest = (fraction, scale))
    (nonempty : ¬ (whole = [] ∧ fraction = [])) :
    ∃ mantissa, IsMantissa mantissa whole fraction ∧ cs = mantissa ++ scale := by
  obtain ⟨cs_eq, digits⟩ := splitDigits_eq cs
  rw [hwhole] at cs_eq digits
  unfold splitFraction at hfraction
  split at hfraction
  · rename_i behind
    obtain ⟨behind_eq, places⟩ := splitDigits_eq behind
    rw [hfraction] at behind_eq places
    by_cases h : whole = []
    · refine ⟨'.' :: fraction, ?_, by rw [cs_eq, h, behind_eq]; rfl⟩
      rw [h]
      exact .fraction ⟨fun none => nonempty ⟨h, none⟩, places⟩
    · exact ⟨whole ++ '.' :: fraction, .point ⟨h, digits⟩ places, by
        rw [cs_eq, behind_eq, List.append_assoc, List.cons_append]⟩
  · obtain ⟨rfl, rfl⟩ := Prod.mk.inj hfraction
    exact ⟨whole, .whole ⟨fun none => nonempty ⟨none, rfl⟩, digits⟩, cs_eq⟩

/-- The reader of decimals accepts exactly a mantissa with a power behind it. -/
theorem decimal?_eq_some_iff {negative : Bool} {cs : List Char} {numeral : Numeral} :
    decimal? negative cs = some numeral ↔
      ∃ mantissa whole fraction scale power, IsMantissa mantissa whole fraction ∧
        IsPower scale power ∧ cs = mantissa ++ scale ∧
        numeral = .decimal negative whole fraction power := by
  constructor
  · intro h
    rcases hwhole : splitDigits cs with ⟨whole, rest⟩
    rcases hfraction : splitFraction rest with ⟨fraction, scale⟩
    simp only [decimal?, hwhole, hfraction] at h
    split at h
    · cases h
    · rename_i nonempty
      obtain ⟨power, hpower, rfl⟩ := Option.map_eq_some_iff.mp h
      obtain ⟨mantissa, hmantissa, cs_eq⟩ := isMantissa_of_split hwhole hfraction nonempty
      exact ⟨mantissa, whole, fraction, scale, power, hmantissa, power?_eq_some_iff.mp hpower,
        cs_eq, rfl⟩
  · rintro ⟨mantissa, whole, fraction, scale, power, hmantissa, hpower, rfl, rfl⟩
    rw [decimal?_mantissa negative hmantissa hpower.head?, power?_eq_some_iff.mpr hpower]
    rfl

/-! ## Names -/

/-- The name of an infinity or of not-a-number, in any case. -/
def IsName (name : List Char) : Prop :=
  (name.map Char.toLower = ['i', 'n', 'f'] ∨
    name.map Char.toLower = ['i', 'n', 'f', 'i', 'n', 'i', 't', 'y']) ∨
    name.map Char.toLower = ['n', 'a', 'n']

theorem special?_of_infinity (negative : Bool) {name : List Char}
    (h : name.map Char.toLower = ['i', 'n', 'f'] ∨
      name.map Char.toLower = ['i', 'n', 'f', 'i', 'n', 'i', 't', 'y']) :
    special? negative name = some (.infinity negative) := if_pos h

theorem special?_of_nan (negative : Bool) {name : List Char}
    (h : name.map Char.toLower = ['n', 'a', 'n']) : special? negative name = some .nan := by
  simp [special?, h]

/-- A name begins with a letter. -/
theorem IsName.head? {name : List Char} (h : IsName name) :
    ∃ c rest, name = c :: rest ∧ c.isAlpha = true := by
  obtain ⟨c, rest, rfl⟩ : ∃ c rest, name = c :: rest := by
    cases name with
    | nil => rcases h with (h | h) | h <;> cases h
    | cons c rest => exact ⟨c, rest, rfl⟩
  refine ⟨c, rest, rfl, ?_⟩
  rw [← Char.isAlpha_toLower_eq_isAlpha]
  rcases h with (h | h) | h
  · rw [(List.cons.inj h).1]
    rfl
  · rw [(List.cons.inj h).1]
    rfl
  · rw [(List.cons.inj h).1]
    rfl

/-- No decimal begins with a letter. -/
theorem decimal?_of_isAlpha (negative : Bool) {c : Char} (rest : List Char)
    (h : c.isAlpha = true) : decimal? negative (c :: rest) = none := by
  have digit : c.isDigit = false := by
    grind [Char.isAlpha, Char.isDigit, Char.isUpper, Char.isLower]
  have point : c ≠ '.' := by
    rintro rfl
    cases h
  simp [decimal?, splitDigits, splitFraction, digit, point]

/-- A name after a sign is no decimal number, so it is read as a name. -/
theorem ofChars?_of_isName {sign name : List Char} {negative : Bool} (hsign : IsSign sign negative)
    (hname : IsName name) : ofChars? (sign ++ name) = special? negative name := by
  obtain ⟨c, rest, rfl, alpha⟩ := hname.head?
  have split : splitSign (sign ++ c :: rest) = (negative, c :: rest) := by
    refine splitSign_append hsign ?_
    rintro _ ⟨⟩
    exact not_sign_of_isAlphanum (by rw [Char.isAlphanum, alpha, Bool.true_or])
  simp only [ofChars?, split, decimal?_of_isAlpha negative rest alpha]
  rfl

/-! ## Numerals -/

theorem IsMantissa.head? {mantissa whole fraction : List Char}
    (h : IsMantissa mantissa whole fraction) (scale : List Char) :
    ∀ c ∈ (mantissa ++ scale).head?, c ≠ '-' ∧ c ≠ '+' := by
  cases h with
  | whole hds => exact fun c hc => not_sign_of_isDigit (hds.head? _ c hc)
  | point hds hfs =>
    rw [List.append_assoc]
    exact fun c hc => not_sign_of_isDigit (hds.head? _ c hc)
  | fraction hfs =>
    rintro c ⟨⟩
    decide

/-- The reader reads the grammar. -/
theorem ofChars?_eq_some_iff {cs : List Char} {numeral : Numeral} :
    ofChars? cs = some numeral ↔ IsNumeral cs numeral := by
  constructor
  · intro h
    obtain ⟨sign, hsign, cs_eq⟩ := exists_isSign_splitSign cs
    rcases hsplit : splitSign cs with ⟨negative, rest⟩
    rw [hsplit] at hsign cs_eq
    simp only [ofChars?, hsplit] at h
    subst cs_eq
    cases hdecimal : decimal? negative rest with
    | some found =>
      rw [hdecimal] at h
      obtain rfl := Option.some.inj h
      obtain ⟨mantissa, whole, fraction, scale, power, hmantissa, hpower, rfl, rfl⟩ :=
        decimal?_eq_some_iff.mp hdecimal
      exact .decimal hsign hmantissa hpower
    | none =>
      have special : special? negative rest = some numeral := by rwa [hdecimal] at h
      unfold special? at special
      dsimp only at special
      split at special
      · rename_i name
        obtain rfl := Option.some.inj special
        exact .infinity hsign name
      · split at special
        · rename_i name
          obtain rfl := Option.some.inj special
          exact .nan hsign name
        · cases special
  · intro h
    cases h with
    | @decimal sign mantissa scale whole fraction negative power hsign hmantissa hscale =>
      have read : decimal? negative (mantissa ++ scale) =
          some (.decimal negative whole fraction power) :=
        decimal?_eq_some_iff.mpr
          ⟨mantissa, whole, fraction, scale, power, hmantissa, hscale, rfl, rfl⟩
      simp only [ofChars?, splitSign_append hsign (hmantissa.head? scale), read]
      rfl
    | @infinity sign name negative hsign hname =>
      rw [ofChars?_of_isName hsign (.inl hname), special?_of_infinity negative hname]
    | @nan sign name negative hsign hname =>
      rw [ofChars?_of_isName hsign (.inr hname), special?_of_nan negative hname]

end ExprCalculus.Numeral

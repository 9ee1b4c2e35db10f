import ExprCalculus.Number.Rounding
import ExprCalculus.Text.Blank
import ExprCalculus.Text.Digit

/-!
# Reading numbers

A word is a number in three steps. It is first brought to ASCII: a digit of any script becomes the
ASCII digit and a blank outside ASCII becomes a space, while any other character outside ASCII
makes it no number. Padding is then trimmed on both sides. What is left must be a `Numeral`:

* `sign? ( digits ( "." digits? )? | "." digits ) ( ( "e" | "E" ) sign? digits )?`
* `sign? ( "inf" | "infinity" | "nan" )`, in any case.

A numeral's value is the nearest double at any length, so all rounding happens once, in `ofDecimal`.
A word with `_` is never a number.
-/

namespace ExprCalculus

/-- What a number says before it is rounded. -/
inductive Numeral where
  /-- A decimal number: its sign, the digits before and after the point, and the power of ten. -/
  | decimal (negative : Bool) (whole fraction : List Char) (power : Int)
  /-- An infinity. -/
  | infinity (negative : Bool)
  /-- Not a number, whose sign is not kept. -/
  | nan
deriving DecidableEq

namespace Numeral

/-- Splits off a sign; nothing stands for plus. -/
def splitSign : List Char → Bool × List Char
  | '-' :: rest => (true, rest)
  | '+' :: rest => (false, rest)
  | rest => (false, rest)

/-- Splits off the longest run of ASCII digits. -/
def splitDigits (cs : List Char) : List Char × List Char :=
  (cs.takeWhile Char.isDigit, cs.dropWhile Char.isDigit)

/-- Splits off a point and the digits behind it, if there is a point. -/
def splitFraction : List Char → List Char × List Char
  | '.' :: rest => splitDigits rest
  | rest => ([], rest)

/-- Reads the power of ten that ends a number: nothing, or a mark, a sign and digits. -/
def power? : List Char → Option Int
  | [] => some 0
  | mark :: rest =>
    let (negative, ds) := splitSign rest
    if (mark = 'e' ∨ mark = 'E') ∧ ds ≠ [] ∧ ds.all Char.isDigit then
      let magnitude : Int := Nat.ofDigitChars 10 ds 0
      some (if negative then -magnitude else magnitude)
    else none

/-- Reads an unsigned decimal number: digits on at least one side of the point. -/
def decimal? (negative : Bool) (cs : List Char) : Option Numeral :=
  let (whole, rest) := splitDigits cs
  let (fraction, rest) := splitFraction rest
  if whole = [] ∧ fraction = [] then none
  else (power? rest).map (decimal negative whole fraction)

/-- Reads a name for an infinity or for not-a-number, in any case. -/
def special? (negative : Bool) (cs : List Char) : Option Numeral :=
  let word := cs.map Char.toLower
  if word = ['i', 'n', 'f'] ∨ word = ['i', 'n', 'f', 'i', 'n', 'i', 't', 'y'] then
    some (infinity negative)
  else if word = ['n', 'a', 'n'] then some nan
  else none

/-- Reads an ASCII numeral. -/
def ofChars? (cs : List Char) : Option Numeral :=
  let (negative, rest) := splitSign cs
  decimal? negative rest <|> special? negative rest

/-- The value of a numeral: the digits on both sides of the point are one coefficient. -/
def value : Numeral → Double
  | decimal negative whole fraction power =>
    Double.ofDecimal negative ⟨Nat.ofDigitChars 10 (whole ++ fraction) 0, power - fraction.length⟩
  | infinity negative => .infinite negative
  | nan => .nan

end Numeral

/-- The ASCII character that a character of a number stands for. -/
def asciiOf? (c : Char) : Option Char :=
  if c.toNat < 0x80 then some c
  else if isBlank c then some ' '
  else (digitValue? c).map Nat.digitChar

/-- Drops the padding on both sides. -/
def trimPadding (cs : List Char) : List Char :=
  ((cs.dropWhile isPadding).reverse.dropWhile isPadding).reverse

/-- The number that a word denotes, if it denotes one. -/
def number? (word : List Char) : Option Double :=
  if '_' ∈ word then none
  else (word.mapM asciiOf?).bind fun ascii => (Numeral.ofChars? (trimPadding ascii)).map Numeral.value

end ExprCalculus

import ExprCalculus.Number.Shortest

/-!
# How doubles are written

A double has two texts. `Double.text` always shows that it is a double: the fewest digits that read
back, with a point and a digit after it, and with a power of ten from `10 ^ 16` on and below
`10 ^ (-4)`. `Double.literal` is what stands in an expression: an integer below `10 ^ 16` is written
without the point, and everything else as `text`.
-/

namespace ExprCalculus

/- Powers of natural numbers are those of the core library. -/
attribute [local instance (20000)] instPowNat instNatPowNat

namespace Decimal

/-- The digits of a decimal. -/
def digits (decimal : Decimal) : List Char := Nat.toDigits 10 decimal.coefficient

/-- The place of the first digit. -/
def magnitude (decimal : Decimal) : Int := decimal.exponent + decimal.digits.length - 1

/-- Positional text: at least one digit on each side of the point. -/
def positional (decimal : Decimal) : List Char :=
  let ds := decimal.digits
  if 0 ≤ decimal.exponent then
    ds ++ List.replicate decimal.exponent.toNat '0' ++ ['.', '0']
  else
    let places := (-decimal.exponent).toNat
    if places < ds.length then
      ds.take (ds.length - places) ++ '.' :: ds.drop (ds.length - places)
    else '0' :: '.' :: (List.replicate (places - ds.length) '0' ++ ds)

/-- The power of ten after the mantissa: its sign and at least two digits. -/
def powerText (power : Int) : List Char :=
  let ds := Nat.toDigits 10 power.natAbs
  'e' :: (if power < 0 then '-' else '+') :: (if ds.length < 2 then '0' :: ds else ds)

/-- Scientific text: one digit before the point, and no point when there are no more digits. -/
def scientific (decimal : Decimal) : List Char :=
  let mantissa := match decimal.digits with
    | [] => []
    | [d] => [d]
    | d :: ds => d :: '.' :: ds
  mantissa ++ powerText decimal.magnitude

/-- Positional from `10 ^ (-4)` to below `10 ^ 16`, scientific outside. -/
def layout (decimal : Decimal) : List Char :=
  if -4 ≤ decimal.magnitude ∧ decimal.magnitude < 16 then decimal.positional
  else decimal.scientific

end Decimal

/-- The text of a magnitude behind its sign. -/
def signed (negative : Bool) (magnitude : List Char) : List Char :=
  if negative then '-' :: magnitude else magnitude

/-- The decimal text of an integer. -/
def integerText (n : Int) : List Char := signed (decide (n < 0)) (Nat.toDigits 10 n.natAbs)

namespace Double

/-- The text of a double, with the fewest digits that read back. -/
def text : Double → List Char
  | nan => ['n', 'a', 'n']
  | infinite negative => signed negative ['i', 'n', 'f']
  | finite negative code =>
    signed negative (if code.val = 0 then ['0', '.', '0'] else (shortest code).layout)

/-- The integer that a double is, if it is one; both zeros are `0`. -/
def toInt? : Double → Option Int
  | finite negative code =>
    if units code % 2 ^ (1074 : Nat) = 0 then
      let magnitude : Int := (units code / 2 ^ (1074 : Nat) : Nat)
      some (if negative then -magnitude else magnitude)
    else none
  | _ => none

/-- The literal of a constant: an integer below `10 ^ 16` has no point, zero keeps its sign, and
every other double is written as `text`. -/
def literal (d : Double) : List Char :=
  if d = zero true then ['-', '0']
  else
    match d.toInt? with
    | some n => if n.natAbs < 10 ^ (16 : Nat) then integerText n else d.text
    | none => d.text

end Double

end ExprCalculus

import ExprCalculus.Text.Printable

/-!
# Quoted texts

A text is quoted so that it can be read on one line: between single quotes, or between double
quotes when it holds single quotes and no double ones. The quote itself and the backslash are
escaped by a backslash, line feed, return and tab have an escape of their own, and every other
unprintable character is given by its code point in hexadecimal, in as many digits as it needs: two,
four or eight.
-/

namespace ExprCalculus

/-- A number in lower-case hexadecimal, with zeros in front up to a width. -/
def hexadecimal (width n : Nat) : List Char :=
  let ds := Nat.toDigits 16 n
  List.replicate (width - ds.length) '0' ++ ds

/-- How a character is written between two marks. -/
def escaped (mark c : Char) : List Char :=
  if c = mark ∨ c = '\\' then ['\\', c]
  else if c = '\n' then ['\\', 'n']
  else if c = '\r' then ['\\', 'r']
  else if c = '\t' then ['\\', 't']
  else if isPrintable c then [c]
  else if c.toNat < 0x100 then '\\' :: 'x' :: hexadecimal 2 c.toNat
  else if c.toNat < 0x10000 then '\\' :: 'u' :: hexadecimal 4 c.toNat
  else '\\' :: 'U' :: hexadecimal 8 c.toNat

/-- A text between quotes. -/
def quoted (text : List Char) : List Char :=
  let mark := if '\'' ∈ text ∧ '"' ∉ text then '"' else '\''
  mark :: (text.flatMap (escaped mark) ++ [mark])

end ExprCalculus

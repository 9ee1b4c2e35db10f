import ExprCalculus.Expr.Operation
import ExprCalculus.Number.Layout
import ExprCalculus.Text.Cursor

/-!
# Why a bracketed text is rejected

A rejection names its cause and the piece of the text that shows it. Its position, its token and
its message are computed from these. Positions count characters from one, so the position of a piece
is its offset plus one, and the end of a text lies one past its length.
-/

namespace ExprCalculus

/-- What was awaited where a text ended. -/
inductive Awaited where
  /-- An expression. -/
  | expression
  /-- The bracket that closes a group. -/
  | closing
deriving DecidableEq

/-- Why a bracketed text is rejected. -/
inductive Rejection where
  /-- A lexeme that begins no expression stands in its place. -/
  | strayToken (token : Excerpt)
  /-- What stands in the place of a group's operation symbol is none. -/
  | notAnOperation (found : Excerpt)
  /-- A word that is no operand stands in the place of one. -/
  | misplacedWord (word : Excerpt)
  /-- A group's operation does not accept the number of its operands. -/
  | operandCount (symbol : List Char) (offset expected found : Nat)
  /-- The text ends too early. -/
  | endOfText (offset : Nat) (awaited : Awaited)
  /-- The text goes on behind the expression. -/
  | trailing (token : Excerpt)
deriving DecidableEq

/-- How what was awaited is called in a message. -/
def Awaited.description : Awaited → List Char
  | expression => "expression".toList
  | closing => "')'".toList

/-- A text between single quotes. -/
def inQuotes (text : List Char) : List Char := '\'' :: (text ++ ['\''])

namespace Rejection

/-- The offset that a rejection points at, counted from zero. -/
def offset : Rejection → Nat
  | strayToken token => token.start
  | notAnOperation found => found.start
  | misplacedWord word => word.start
  | operandCount _ offset _ _ => offset
  | endOfText offset _ => offset
  | trailing token => token.start

/-- The position that a rejection points at, counted from one. -/
def position (rejection : Rejection) : Nat := rejection.offset + 1

/-- The text that a rejection is about; at the end of the text there is none. -/
def token? : Rejection → Option (List Char)
  | strayToken token => some token.text
  | notAnOperation found => some found.text
  | misplacedWord word => some word.text
  | operandCount symbol _ _ _ => some symbol
  | endOfText _ _ => none
  | trailing token => some token.text

/-- The words that place a rejection. -/
def place (rejection : Rejection) : List Char :=
  " at pos ".toList ++ Nat.toDigits 10 rejection.position

/-- Is the word of a misplaced word an operation symbol? -/
def namesOperation (word : Excerpt) : Bool := (Op.ofSymbol? word.text).isSome

/-- The message of a rejection. -/
def message (rejection : Rejection) : List Char :=
  match rejection with
  | strayToken token => "Invalid token ".toList ++ inQuotes token.text ++ rejection.place
  | notAnOperation found =>
    "Expected operation".toList ++ rejection.place ++ ", found ".toList ++ inQuotes found.text
  | misplacedWord word =>
    (if namesOperation word then "Unexpected operation token ".toList
      else "Invalid argument ".toList) ++ inQuotes word.text ++ rejection.place
  | operandCount symbol _ expected found =>
    "Invalid argument count for ".toList ++ inQuotes symbol ++ rejection.place ++
      ": expected ".toList ++ Nat.toDigits 10 expected ++ ", found ".toList ++
      Nat.toDigits 10 found
  | endOfText _ awaited =>
    "Unexpected end of input".toList ++ rejection.place ++ ", expected ".toList ++
      awaited.description
  | trailing token =>
    "Expected end of input".toList ++ rejection.place ++ ", found ".toList ++ inQuotes token.text

end Rejection

end ExprCalculus

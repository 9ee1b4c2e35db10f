import ExprCalculus.Expr.Render
import ExprCalculus.Number.Numeral
import ExprCalculus.Parse.Rejection

/-!
# Reading bracketed texts

The reader is a machine that takes one lexeme after another. Its state is a stack of open groups,
or the finished expression. An opening bracket opens a group; a closing one finishes the innermost
group, whose expression then becomes an element of the group around it, or the result. Every other
lexeme is an element of the innermost group at once.

The two modes differ in where a group has its operation symbol, and so in what an element may be.
With the symbol in front, the first element must be one, and every later element must be an
operand. With the symbol behind, a word that is no operand is kept until it is known to be the last
element; if another element follows, it was misplaced. An element is checked when it is complete,
so what is wrong inside a group is found before the group's own place is looked at.
-/

namespace ExprCalculus

/-- The expression that a word is by itself: a number or the name of a variable. -/
def leaf? (word : List Char) : Option Expr :=
  match number? word with
  | some value => some (.const value)
  | none => (Variable.ofName? word).map .var

namespace Bracketed

/-- An element of a group. -/
inductive Element where
  /-- A word that is no operand. -/
  | word (source : Excerpt)
  /-- An operand and the piece of the text that it was read from. -/
  | operand (e : Expr) (source : Excerpt)

/-- The piece of the text that an element was read from. -/
def Element.source : Element → Excerpt
  | word source => source
  | operand _ source => source

/-- The element that a lexeme other than a bracket is. -/
def Element.ofLexeme (l : Excerpt) : Element :=
  match leaf? l.text with
  | some e => .operand e l
  | none => .word l

/-- A group that is still open. -/
structure Group where
  /-- The offset of its bracket. -/
  start : Nat
  /-- The word among its elements that is no operand; the mode says where it stands. -/
  word : Option Excerpt
  /-- Its operands so far, each with the piece of the text that it was read from. -/
  operands : List (Expr × Excerpt)

/-- The group that an opening bracket begins. -/
def Group.opened (start : Nat) : Group := ⟨start, none, []⟩

/-- The state of the reader. -/
inductive State where
  /-- Nothing has been read. -/
  | start
  /-- The innermost open group and the groups around it, from the inside out. -/
  | within (group : Group) (outer : List Group)
  /-- An expression is complete. -/
  | finished (e : Expr)

/-- Does the word name an operation? -/
def isSymbol (word : Excerpt) : Bool := (Op.ofSymbol? word.text).isSome

/-- Puts an element into a group, if it may stand there. -/
def Group.place (mode : Mode) (group : Group) (element : Element) : Except Rejection Group :=
  match mode, group.word, element with
  | .pre, none, .word source =>
    if isSymbol source then .ok { group with word := some source }
    else .error (.notAnOperation source)
  | .pre, none, .operand _ source => .error (.notAnOperation source)
  | .pre, some _, .word source => .error (.misplacedWord source)
  | .post, some word, _ => .error (.misplacedWord word)
  | .post, none, .word source => .ok { group with word := some source }
  | _, _, .operand e source => .ok { group with operands := group.operands ++ [(e, source)] }

/-- The piece of the text that a rejection names when a group without a word is closed: its last
operand, or the closing bracket if it has none. -/
def Group.lastElement (group : Group) (closing : Excerpt) : Excerpt :=
  match group.operands.getLast? with
  | some (_, source) => source
  | none => closing

/-- The offset that a wrong number of operands is reported at: just past the symbol in front, or at
the group's bracket when the symbol stands behind. -/
def Group.countOffset (mode : Mode) (group : Group) (word : Excerpt) : Nat :=
  match mode with
  | .pre => word.stop
  | .post => group.start

/-- The expression of a group at its closing bracket. -/
def Group.close (mode : Mode) (group : Group) (closing : Excerpt) : Except Rejection Expr :=
  match group.word with
  | none => .error (.notAnOperation (group.lastElement closing))
  | some word =>
    match Op.ofSymbol? word.text with
    | none => .error (.notAnOperation word)
    | some op =>
      match Expr.build op (group.operands.map Prod.fst) with
      | .ok e => .ok e
      | .error mismatch =>
        .error (.operandCount word.text (group.countOffset mode word) mismatch.expected
          mismatch.found)

/-- Puts an element into the innermost group. -/
def State.placed (mode : Mode) (group : Group) (outer : List Group) (element : Element) :
    Except Rejection State :=
  (group.place mode element).map fun group => .within group outer

/-- What one lexeme does to the reader. -/
def step (mode : Mode) (text : List Char) (state : State) (lexeme : Excerpt) :
    Except Rejection State :=
  match state with
  | .finished _ => .error (.trailing lexeme)
  | .start =>
    if lexeme.text = ['('] then .ok (.within (.opened lexeme.start) [])
    else
      match leaf? lexeme.text with
      | some e => .ok (.finished e)
      | none => .error (.strayToken lexeme)
  | .within group outer =>
    if lexeme.text = ['('] then .ok (.within (.opened lexeme.start) (group :: outer))
    else if lexeme.text = [')'] then
      match group.close mode lexeme, outer with
      | .error rejection, _ => .error rejection
      | .ok e, [] => .ok (.finished e)
      | .ok e, around :: outer =>
        State.placed mode around outer (.operand e (.between text group.start lexeme.stop))
    else
      match leaf? lexeme.text with
      | some e => State.placed mode group outer (.operand e lexeme)
      | none => State.placed mode group outer (.word lexeme)

/-- What the end of the text, at an offset, makes of a state. -/
def finish (offset : Nat) : State → Except Rejection Expr
  | .start => .error (.endOfText offset .expression)
  | .within _ _ => .error (.endOfText offset .closing)
  | .finished e => .ok e

end Bracketed

/-- The expression that a bracketed text of a mode denotes. -/
def parseBracketed (mode : Mode) (text : List Char) : Except Rejection Expr :=
  ((lexemes text).foldlM (Bracketed.step mode text) .start).bind (Bracketed.finish text.length)

end ExprCalculus

import ExprCalculus.Blueprint

/-!
# Reading bracketed texts by descent

A bracketed text may also be read without a stack of open groups: a group is read up to its closing
bracket, and a group inside it is read before the rest of it. What has been read of a group is the
bare list of its elements. Then the elements have to be checked while they are collected, and what
happens at the closing bracket may go wrong in ways that no rejection tells of: the last element of
a group is asked for, a word is looked up among the symbols, and an operation is put together from
whatever the elements hand to it.
-/

namespace ExprCalculus.Bracketed

/-- Why the descent breaks off. -/
inductive Breakdown where
  /-- The text is rejected. -/
  | rejected (rejection : Rejection)
  /-- A look-up or the construction of an operation fails. -/
  | fault (fault : Fault)
  /-- An element is taken from a group that has none. -/
  | noElement
deriving DecidableEq

/-! ## Elements of a group -/

/-- Is the element a word that is no operand? -/
def Element.isRaw : Element → Bool
  | word _ => true
  | operand _ _ => false

/-- Is the element an operation symbol? -/
def Element.isOperation : Element → Bool
  | word source => isSymbol source
  | operand _ _ => false

/-- What an element hands to the construction of an operation: a word that is no operand has nothing
to hand. -/
def Element.built : Element → Built
  | word _ => .inl .nothing
  | operand e _ => .inr e

/-- The element that is taken from a group. -/
def taken (element? : Option Element) : Except Breakdown Element :=
  match element? with
  | some element => .ok element
  | none => .error .noElement

/-- Checks the element that comes next, or with the symbol behind the one before it, which is now
known not to be the last. -/
def checkElement (mode : Mode) (elements : List Element) (element : Element) :
    Except Breakdown Unit :=
  match mode with
  | .pre =>
    if elements.isEmpty then
      if element.isOperation then .ok () else .error (.rejected (.notAnOperation element.source))
    else if element.isRaw then .error (.rejected (.misplacedWord element.source))
    else .ok ()
  | .post =>
    if elements.isEmpty then .ok ()
    else do
      let previous ← taken elements.getLast?
      if previous.isRaw then .error (.rejected (.misplacedWord previous.source)) else .ok ()

/-- The element of a group in the place of the symbol, and the other elements. -/
def splitElements (mode : Mode) (elements : List Element) (closing : Excerpt) :
    Except Breakdown (Element × List Element) :=
  if elements.isEmpty then .error (.rejected (.notAnOperation closing))
  else do
    let (operation, operands) ← match mode with
      | .pre => do .ok (← taken elements.head?, elements.tail)
      | .post => do .ok (← taken elements.getLast?, elements.dropLast)
    if operation.isOperation then .ok (operation, operands)
    else .error (.rejected (.notAnOperation operation.source))

/-- The expression of the elements between two brackets: the symbol is looked up, the operands are
counted, and the operation is constructed from them by its code. -/
def closeElements (mode : Mode) (start : Nat) (elements : List Element) (closing : Excerpt) :
    Except Breakdown Expr := do
  let (operation, operands) ← splitElements mode elements closing
  let symbol := operation.source.text
  let op ← (OpKey.symbol symbol).lookUp.mapError .fault
  if op.accepts operands.length then
    let built ← ((OpKey.code op.code).assemble (operands.map Element.built)).mapError .fault
    built.root.mapError .fault
  else
    let offset := match mode with
      | .pre => operation.source.stop
      | .post => start
    .error (.rejected (.operandCount symbol offset (op.arity.getD operands.length) operands.length))

/-! ## The descent -/

/-- Reads the rest of a group behind the elements that have been read of it, and moves the cursor
behind its closing bracket. -/
def readGroup (mode : Mode) (text : List Char) (start : Nat) (elements : List Element)
    (cursor : Cursor) : Except Breakdown (Expr × {after : Cursor // after.Follows cursor}) :=
  match h : cursor.next with
  | (none, after) => .error (.rejected (.endOfText after.pos .closing))
  | (some lexeme, after) =>
    have follows := Cursor.follows_of_next h
    have := follows.shorter
    if lexeme.text = [')'] then do
      let e ← closeElements mode start elements lexeme
      .ok (e, ⟨after, follows⟩)
    else do
      let (element, behind) : Element × {behind : Cursor // behind.Follows cursor} ←
        if lexeme.text = ['('] then do
          let (inner, behind) ← readGroup mode text lexeme.start [] after
          .ok (.operand inner (.between text lexeme.start behind.1.pos),
            ⟨behind, behind.2.trans follows⟩)
        else .ok (.ofLexeme lexeme, ⟨after, follows⟩)
      have := behind.2.shorter
      checkElement mode elements element
      let (e, final) ← readGroup mode text start (elements ++ [element]) behind
      .ok (e, ⟨final, final.2.trans behind.2⟩)
termination_by cursor.rest.length

/-- Reads one expression and moves the cursor behind it. -/
def readExpression (mode : Mode) (text : List Char) (cursor : Cursor) :
    Except Breakdown (Expr × Cursor) :=
  match cursor.next with
  | (none, after) => .error (.rejected (.endOfText after.pos .expression))
  | (some lexeme, after) =>
    if lexeme.text = ['('] then do
      let (e, behind) ← readGroup mode text lexeme.start [] after
      .ok (e, behind)
    else
      match leaf? lexeme.text with
      | some e => .ok (e, after)
      | none => .error (.rejected (.strayToken lexeme))

/-- The expression of a text, read by descent. -/
def descend (mode : Mode) (text : List Char) : Except Breakdown Expr := do
  let (e, cursor) ← readExpression mode text (.ofText text)
  match cursor.next.1 with
  | some lexeme => .error (.rejected (.trailing lexeme))
  | none => .ok e

end ExprCalculus.Bracketed

import Mathlib
import ExprCalculus.Parse.Rejection
import ExprCalculus.Proofs.Nesting
import ExprCalculus.Proofs.Stopping

/-!
# Where rejections point

What a rejection names is a lexeme of the text or something that an open group holds: its word, or
an operand, which is a lexeme of the text or a whole group of it. So the place of a rejection can be
checked against the text alone.
-/

namespace ExprCalculus

/-- The text goes on with `w` from the offset. -/
def HasAt (text : List Char) (offset : Nat) (w : List Char) : Prop :=
  (text.drop offset).take w.length = w

/-- The bracket at the offset opens a group with the symbol and a number of operands. -/
def GroupAt (mode : Mode) (text : List Char) (offset : Nat) (symbol : List Char) (count : Nat) :
    Prop :=
  ∃ body rest es words, text.drop offset = '(' :: (body ++ [')']) ++ rest ∧ Balanced body ∧
    tokens body = mode.order symbol words ∧ SpellsAll mode es words ∧ es.length = count

/-- The excerpt is a lexeme other than an opening bracket, or a group that the mode reads. -/
def Excerpt.IsElement (mode : Mode) (text : List Char) (source : Excerpt) : Prop :=
  source ∈ lexemes text ∧ source.text ≠ ['('] ∨
    IsGroup source.text ∧ ∃ e, parseBracketed mode source.text = .ok e

/-- The position of a rejection is where its token is. A wrong number of operands points just past
the symbol in front of them, or at the bracket of the group with the symbol behind them. -/
def Rejection.Pinpoints (mode : Mode) (text : List Char) (rejection : Rejection) : Prop :=
  let offset := rejection.position - 1
  match rejection with
  | .strayToken token | .misplacedWord token | .trailing token => HasAt text offset token.text
  | .notAnOperation found => HasAt text offset found.text ∧ found.IsElement mode text
  | .operandCount symbol _ _ found =>
    match mode with
    | .pre => symbol.length ≤ offset ∧ HasAt text (offset - symbol.length) symbol
    | .post => GroupAt .post text offset symbol found
  | .endOfText _ _ => offset = text.length

/-- The rejection points into the text, at its token. -/
structure Rejection.Located (mode : Mode) (text : List Char) (rejection : Rejection) : Prop where
  offset_le : rejection.offset ≤ text.length
  pinpoints : rejection.Pinpoints mode text

variable {mode : Mode} {text : List Char}

/-- An excerpt that stands in a text ends in it. -/
theorem Excerpt.StandsIn.stop_le {source : Excerpt} (h : source.StandsIn text) :
    source.stop ≤ text.length := by
  obtain ⟨a, b, rfl, start_eq⟩ := h
  rw [Excerpt.stop, List.length_append, List.length_append]
  omega

/-- It also begins in it. -/
theorem Excerpt.StandsIn.start_le {source : Excerpt} (h : source.StandsIn text) :
    source.start ≤ text.length :=
  (Nat.le_add_right _ _).trans h.stop_le

/-- The text has the characters of the excerpt at its offset. -/
theorem Excerpt.StandsIn.hasAt {source : Excerpt} (h : source.StandsIn text) :
    HasAt text source.start source.text := by
  obtain ⟨a, b, rfl, start_eq⟩ := h
  rw [HasAt, ← start_eq, List.drop_left, List.take_left]

namespace Bracketed

/-! ## What the groups of a state hold -/

/-- The element is in the group. -/
inductive Group.Holds (group : Group) : Element → Prop where
  | word {l : Excerpt} (h : group.word = some l) : Holds group (.word l)
  | operand {e : Expr} {source : Excerpt} (h : (e, source) ∈ group.operands) :
      Holds group (.operand e source)

/-- The element has been read from lexemes of the text that follow each other. -/
def Element.InText (mode : Mode) (text : List Char) (element : Element) : Prop :=
  ∃ ls, ls <:+: lexemes text ∧ element.ReadFrom mode text ls

/-- The group has been read from lexemes of the text that follow each other. -/
def Group.InText (mode : Mode) (text : List Char) (group : Group) : Prop :=
  ∃ ls, ls <:+: lexemes text ∧ group.ReadFrom mode text ls

/-- An element of a group was read from lexemes next to each other among those of the group. -/
theorem Group.ReadFrom.exists_infix {group : Group} {ls : List Excerpt} {element : Element}
    (h : group.ReadFrom mode text ls) (holds : group.Holds element) :
    ∃ els, els <:+: ls ∧ element.ReadFrom mode text els := by
  induction h with
  | opened h =>
    cases holds with
    | word h => cases h
    | operand h => cases h
  | @place group after new ls els before read placed ih =>
    have old : group.Holds element →
        ∃ fls, fls <:+: ls ++ els ∧ element.ReadFrom mode text fls := by
      intro holds
      obtain ⟨fls, inside, read⟩ := ih holds
      exact ⟨fls, inside.trans (List.prefix_append ls els).isInfix, read⟩
    have last : element = new → ∃ fls, fls <:+: ls ++ els ∧ element.ReadFrom mode text fls := by
      rintro rfl
      exact ⟨els, (List.suffix_append ls els).isInfix, read⟩
    rcases Group.place_eq_ok placed with ⟨l, rfl, free, -, rfl⟩ | ⟨e, source, rfl, takes, rfl⟩
    · cases holds with
      | word h => exact last (by rw [Option.some.inj h])
      | operand h => exact old (.operand h)
    · cases holds with
      | word h => exact old (.word h)
      | operand h =>
        rcases List.mem_append.mp h with h | h
        · exact old (.operand h)
        · obtain ⟨rfl, rfl⟩ := Prod.mk.inj (List.mem_singleton.mp h)
          exact last rfl

/-- The elements of a group in the text are in the text. -/
theorem Group.InText.element {group : Group} {element : Element} (h : group.InText mode text)
    (holds : group.Holds element) : element.InText mode text := by
  obtain ⟨ls, inside, read⟩ := h
  obtain ⟨els, within, element_read⟩ := read.exists_infix holds
  exact ⟨els, within.trans inside, element_read⟩

/-- What spans a single lexeme is that lexeme. -/
theorem Spans.singleton {source l : Excerpt} (h : Spans text source [l])
    (stands : l.StandsIn text) : source = l := by
  obtain ⟨first, last, head, tail, rfl⟩ := h
  obtain rfl : l = first := by simpa using head
  obtain rfl : l = last := by simpa using tail
  exact stands.eq_between.symm

/-- What spans a group is the piece of the text between its brackets. -/
theorem Spans.group {source opening closing : Excerpt} {body : List Excerpt}
    (h : Spans text source (opening :: (body ++ [closing]))) :
    source = .between text opening.start closing.stop := by
  obtain ⟨first, last, head, tail, rfl⟩ := h
  obtain rfl : opening = first := by simpa using head
  have end_eq : (opening :: (body ++ [closing])).getLast? = some closing := by
    rw [← List.cons_append, List.getLast?_concat]
  rw [end_eq] at tail
  rw [Option.some.inj tail]

/-- The piece of the text between the brackets of a group, with them, is read by itself. -/
theorem isGroup_of_spans {before after ls : List Excerpt} {source : Excerpt} {op : Op}
    {es : List Expr} {words : List (List Char)} (around : before ++ ls ++ after = lexemes text)
    (spans : Spans text source ls) (count : op.accepts es.length = true)
    (operands : SpellsAll mode es words)
    (hls : ls.map Excerpt.text = ['('] :: (mode.order op.symbol words ++ [[')']])) :
    source.StandsIn text ∧ IsGroup source.text ∧ ∃ e, parseBracketed mode source.text = .ok e := by
  obtain ⟨opening, body, closing, rfl, hopening, hbody, hclosing⟩ := exists_lexemes_of_group hls
  have cut : lexemes text = before ++ opening :: (body ++ closing :: after) := by
    rw [← around]
    simp
  obtain ⟨inner, piece, stands, inner_eq⟩ := exists_between_of_group cut hopening hclosing
  rw [hbody] at inner_eq
  have spelled : Spells mode (.app op es) (tokens ('(' :: (inner ++ [')']))) := by
    rw [tokens_group, inner_eq]
    exact .app count operands
  rw [spans.group]
  refine ⟨stands, ?_⟩
  rw [piece]
  exact ⟨⟨inner, rfl, balanced_of_spellsAll operands inner_eq⟩, _, parseBracketed_of_spells spelled⟩

/-- An element is one lexeme of the text, or a group of it. -/
theorem Element.InText.isElement {element : Element} (h : element.InText mode text) :
    element.source.StandsIn text ∧ element.source.IsElement mode text := by
  obtain ⟨ls, ⟨before, after, around⟩, read⟩ := h
  have lexeme {l : Excerpt} (hl : ls = [l]) (opening : l.text ≠ ['(']) :
      l.StandsIn text ∧ l.IsElement mode text := by
    have mem : l ∈ lexemes text := by
      rw [← around, hl]
      simp
    exact ⟨standsIn_of_mem_lexemes mem, .inl ⟨mem, opening⟩⟩
  cases read with
  | word opening closing raw => exact lexeme rfl opening
  | @operand e source ls spelled spans =>
    have leaf {l : Excerpt} (hl : ls = [l]) (opening : l.text ≠ ['(']) :
        source.StandsIn text ∧ source.IsElement mode text := by
      have stands := lexeme hl opening
      rw [hl] at spans
      rwa [spans.singleton stands.1]
    generalize hw : ls.map Excerpt.text = words at spelled
    cases spelled with
    | const number =>
      obtain ⟨l, hl, rfl⟩ := List.map_eq_singleton_iff.mp hw
      exact leaf hl fun opening => by rw [opening] at number; cases number
    | var v =>
      obtain ⟨l, hl, name⟩ := List.map_eq_singleton_iff.mp hw
      exact leaf hl fun opening => by rw [opening] at name; cases v <;> cases name
    | app count operands =>
      obtain ⟨stands, group⟩ := isGroup_of_spans around spans count operands hw
      exact ⟨stands, .inr group⟩

/-! ## Every rejection is located -/

/-- A rejection that names an element of the text is located. -/
theorem located_notAnOperation {element : Element} (h : element.InText mode text) :
    (Rejection.notAnOperation element.source).Located mode text where
  offset_le := h.isElement.1.start_le
  pinpoints := ⟨h.isElement.1.hasAt, h.isElement.2⟩

/-- An element that a group does not take is located by the rejection. -/
theorem located_of_place_error {group : Group} {element : Element} {r : Rejection}
    (inner : group.InText mode text) (next : element.InText mode text)
    (h : group.place mode element = .error r) : r.Located mode text := by
  rcases Group.place_eq_error h with ⟨-, -, -, rfl⟩ | ⟨l, rfl, misplaced⟩
  · exact located_notAnOperation next
  · have word : (Element.word l).InText mode text := by
      rcases misplaced with ⟨-, -, rfl⟩ | ⟨-, hword⟩
      · exact next
      · exact inner.element (.word hword)
    exact ⟨word.isElement.1.start_le, word.isElement.1.hasAt⟩

/-- A group that is closed stands in the text at its offset, with its symbol and its operands. -/
theorem groupAt_start {group : Group} {before ls after : List Excerpt} {closing word : Excerpt}
    {op : Op} (read : group.ReadFrom mode text ls)
    (hl : lexemes text = before ++ (ls ++ closing :: after)) (hclosing : closing.text = [')'])
    (hword : group.word = some word) (symbol : word.text = op.symbol) :
    group.start ≤ text.length ∧ GroupAt mode text group.start word.text group.operands.length := by
  obtain ⟨words, operands, tokens_eq, -⟩ := read.spells
  obtain ⟨bracket, head, -, start_eq⟩ := read.head?
  obtain ⟨opening, body, rfl, hopening, hbody⟩ := List.map_eq_cons_iff.mp tokens_eq
  obtain rfl : opening = bracket := by simpa using head
  obtain ⟨a, inner, b, text_eq, length_eq, -, inner_eq⟩ := exists_cut_of_group hl hopening hclosing
  have tokens_inner : tokens inner = mode.order word.text words := by
    rw [inner_eq, hbody, Group.tokensOf, hword]
  rw [← start_eq, ← length_eq]
  refine ⟨by rw [text_eq, List.length_append]; omega, inner, b, _, words, ?_, ?_, tokens_inner,
    operands, List.length_map _⟩
  · rw [text_eq, List.drop_left]
  · rw [symbol] at tokens_inner
    exact balanced_of_spellsAll operands tokens_inner

/-- What is wrong with a group at its closing bracket is located. -/
theorem located_of_close_error {group : Group} {before ls after : List Excerpt} {closing : Excerpt}
    {r : Rejection} (read : group.ReadFrom mode text ls)
    (hl : lexemes text = before ++ (ls ++ closing :: after)) (hclosing : closing.text = [')'])
    (h : group.close mode closing = .error r) : r.Located mode text := by
  have inner : group.InText mode text :=
    ⟨ls, ⟨before, closing :: after, by rw [hl, List.append_assoc]⟩, read⟩
  rcases Group.close_eq_error h with
    ⟨-, rfl⟩ | ⟨word, hword, ⟨-, rfl⟩ | ⟨op, expected, symbol, -, -, rfl⟩⟩
  · rcases group.lastElement_eq closing with ⟨-, last_eq⟩ | ⟨front, e, source, hops, last_eq⟩
    · have mem : closing ∈ lexemes text := by simp [hl]
      have stands := standsIn_of_mem_lexemes mem
      rw [last_eq]
      exact ⟨stands.start_le, stands.hasAt, .inl ⟨mem, by rw [hclosing]; decide⟩⟩
    · have holds : group.Holds (.operand e source) := .operand (by simp [hops])
      rw [last_eq]
      exact located_notAnOperation (inner.element holds)
  · exact located_notAnOperation (inner.element (.word hword))
  · cases mode with
    | pre =>
      have stands := (inner.element (.word hword)).isElement.1
      refine ⟨stands.stop_le, Nat.le_add_left _ _, ?_⟩
      have start_eq : word.stop - word.text.length = word.start := Nat.add_sub_cancel _ _
      show HasAt text (word.stop - word.text.length) word.text
      rw [start_eq]
      exact stands.hasAt
    | post =>
      obtain ⟨start_le, groupAt⟩ := groupAt_start read hl hclosing hword symbol
      exact ⟨start_le, groupAt⟩

end Bracketed

open Bracketed

/-- Every rejection of a text is located, by cases on where the reader stops. -/
theorem located_of_parseBracketed {r : Rejection} (h : parseBracketed mode text = .error r) :
    r.Located mode text := by
  have lexeme {l : Excerpt} (mem : l ∈ lexemes text) :
      l.start ≤ text.length ∧ HasAt text l.start l.text := by
    have stands := standsIn_of_mem_lexemes mem
    exact ⟨stands.start_le, stands.hasAt⟩
  cases stops_of_parseBracketed h with
  | first hl opening raw =>
    obtain ⟨start_le, hasAt⟩ := lexeme (hl ▸ List.mem_cons_self)
    exact ⟨start_le, hasAt⟩
  | @behind l before after e hl spelled =>
    obtain ⟨start_le, hasAt⟩ := lexeme (l := l) (by simp [hl])
    exact ⟨start_le, hasAt⟩
  | @place group element before ls els after r hl inner next error =>
    have group_inText : group.InText mode text := ⟨ls, ⟨before, els ++ after, by simp [hl]⟩, inner⟩
    have inText : element.InText mode text := ⟨els, ⟨before ++ ls, after, by simp [hl]⟩, next⟩
    exact located_of_place_error group_inText inText error
  | close hl hclosing inner error => exact located_of_close_error inner hl hclosing error
  | nothing hl => exact ⟨le_rfl, rfl⟩
  | unclosed groups => exact ⟨le_rfl, rfl⟩

end ExprCalculus

import ExprCalculus.Text.Blank

/-!
# Lexemes of a bracketed text

A bracketed text is cut into lexemes: each bracket is one, and between brackets and gaps every
longest run of other characters is one. A `Cursor` stands in the text and hands out one lexeme at a
time; `Cursor.lexemes` is the list of all that are left, each with its offset. Offsets count
characters from zero.
-/

namespace ExprCalculus

/-- An opening or a closing bracket. -/
def isBracket (c : Char) : Bool := c == '(' || c == ')'

theorem isBracket_eq_true_iff {c : Char} : isBracket c = true ↔ c = '(' ∨ c = ')' := by
  simp [isBracket]

theorem isBracket_eq_false_iff {c : Char} : isBracket c = false ↔ c ≠ '(' ∧ c ≠ ')' := by
  simp [isBracket]

theorem isBracket_of_isGap {c : Char} (h : isGap c = true) : isBracket c = false := by
  simp only [isGap, Bool.or_eq_true, beq_iff_eq] at h
  rcases h with ((rfl | rfl) | rfl) | rfl <;> rfl

/-- A character that may stand in a word of a bracketed text. -/
def isWordChar (c : Char) : Bool := !isGap c && !isBracket c

/-- Splits the first lexeme off a text that begins with `c`, no gap: a bracket alone, or else the
longest word. -/
def splitLexeme (c : Char) (cs : List Char) : List Char × List Char :=
  if isBracket c then ([c], cs) else (c :: cs.takeWhile isWordChar, cs.dropWhile isWordChar)

/-- A piece of a text and the offset of its first character. -/
structure Excerpt where
  /-- The characters. -/
  text : List Char
  /-- The offset of the first character. -/
  start : Nat
deriving DecidableEq

namespace Excerpt

/-- The offset just past an excerpt. -/
def stop (excerpt : Excerpt) : Nat := excerpt.start + excerpt.text.length

/-- The piece of a text between two offsets. -/
def between (text : List Char) (start stop : Nat) : Excerpt :=
  ⟨(text.drop start).take (stop - start), start⟩

end Excerpt

/-- A place in a text, with the place where the last lexeme was looked for. -/
structure Cursor where
  /-- What has not been read. -/
  rest : List Char
  /-- The offset of the rest. -/
  pos : Nat
  /-- The offset at which the last lexeme was looked for. -/
  lexemeStart : Nat
deriving DecidableEq

namespace Cursor

/-- The cursor before the first character of a text. -/
def ofText (text : List Char) : Cursor := ⟨text, 0, 0⟩

/-- The cursor behind the gap at its place. -/
def skipGap (cursor : Cursor) : Cursor where
  rest := cursor.rest.dropWhile isGap
  pos := cursor.pos + (cursor.rest.takeWhile isGap).length
  lexemeStart := cursor.lexemeStart

/-- The next lexeme and the cursor behind it; at the end of the text the cursor stays there. -/
def next (cursor : Cursor) : Option Excerpt × Cursor :=
  let here := cursor.skipGap
  match here.rest with
  | [] => (none, { here with lexemeStart := here.pos })
  | c :: cs =>
    let (word, rest) := splitLexeme c cs
    (some ⟨word, here.pos⟩, ⟨rest, here.pos + word.length, here.pos⟩)

/-- Is only a gap left? The cursor moves behind it. -/
def atEnd (cursor : Cursor) : Bool × Cursor :=
  let here := cursor.skipGap
  (here.rest.isEmpty, here)

theorem length_skipGap (cursor : Cursor) : cursor.skipGap.rest.length ≤ cursor.rest.length :=
  (List.dropWhile_suffix _).length_le

theorem length_splitLexeme (c : Char) (cs : List Char) :
    (splitLexeme c cs).2.length ≤ cs.length := by
  unfold splitLexeme
  split
  · exact Nat.le_refl _
  · exact (List.dropWhile_suffix _).length_le

/-- Handing out a lexeme shortens the rest. -/
theorem length_next {cursor : Cursor} {lexeme : Excerpt} {after : Cursor}
    (h : cursor.next = (some lexeme, after)) : after.rest.length < cursor.rest.length := by
  have skipped := cursor.length_skipGap
  unfold next at h
  dsimp only at h
  split at h
  · simp at h
  · rename_i c cs rest_eq
    have split := length_splitLexeme c cs
    rw [rest_eq] at skipped
    simp only [Prod.mk.injEq] at h
    rw [← h.2]
    simp only [List.length_cons] at skipped
    dsimp only
    omega

/-- All lexemes from the cursor on. -/
def lexemes (cursor : Cursor) : List Excerpt :=
  match _h : cursor.next with
  | (none, _) => []
  | (some lexeme, after) => lexeme :: after.lexemes
termination_by cursor.rest.length
decreasing_by exact length_next _h

/-- The cursor at the end of the text, after a lexeme has been looked for there. -/
def exhausted (cursor : Cursor) : Cursor :=
  let pos := cursor.pos + cursor.rest.length
  ⟨[], pos, pos⟩

/-- Nothing is lost when a lexeme is split off. -/
theorem splitLexeme_append (c : Char) (cs : List Char) :
    (splitLexeme c cs).1 ++ (splitLexeme c cs).2 = c :: cs := by
  unfold splitLexeme
  split
  · rfl
  · rw [List.cons_append, List.takeWhile_append_dropWhile]

/-- A cursor moves over a gap: over all that is left, or up to a lexeme and over it. -/
theorem next_cases (cursor : Cursor) :
    (∀ c ∈ cursor.rest, isGap c = true) ∧ cursor.next = (none, cursor.exhausted) ∨
      ∃ gap l rest, (∀ c ∈ gap, isGap c = true) ∧ cursor.rest = gap ++ (l.text ++ rest) ∧
        l.start = cursor.pos + gap.length ∧ cursor.next = (some l, ⟨rest, l.stop, l.start⟩) := by
  have split := List.takeWhile_append_dropWhile (p := isGap) (l := cursor.rest)
  have skipped : ∀ c ∈ cursor.rest.takeWhile isGap, isGap c = true :=
    List.all_eq_true.mp List.all_takeWhile
  cases here : cursor.rest.dropWhile isGap with
  | nil =>
    rw [here, List.append_nil] at split
    refine .inl ⟨split ▸ skipped, ?_⟩
    simp only [next, skipGap, here, exhausted, split]
  | cons c cs =>
    refine .inr ⟨cursor.rest.takeWhile isGap,
      ⟨(splitLexeme c cs).1, cursor.pos + (cursor.rest.takeWhile isGap).length⟩,
      (splitLexeme c cs).2, skipped, ?_, rfl, ?_⟩
    · rw [splitLexeme_append, ← here, split]
    · simp only [next, skipGap, here]
      rfl

/-- Where no lexeme is left, the cursor is exhausted. -/
theorem eq_exhausted_of_next_none {cursor after : Cursor} (h : cursor.next = (none, after)) :
    after = cursor.exhausted := by
  rcases cursor.next_cases with ⟨-, none⟩ | ⟨gap, l, rest, -, -, -, some⟩
  · exact congrArg Prod.snd (h.symm.trans none)
  · cases h.symm.trans some

/-! ## Moving on -/

/-- The cursor stands further on in the text: less is left of it, and its end has not moved. -/
structure Follows (after cursor : Cursor) : Prop where
  shorter : after.rest.length < cursor.rest.length
  stop_eq : after.pos + after.rest.length = cursor.pos + cursor.rest.length

/-- What stands further on than one that stands further on does so, too. -/
theorem Follows.trans {a b c : Cursor} (hab : a.Follows b) (hbc : b.Follows c) : a.Follows c :=
  ⟨Nat.lt_trans hab.shorter hbc.shorter, hab.stop_eq.trans hbc.stop_eq⟩

/-- Behind a lexeme the cursor stands further on. -/
theorem follows_of_next {cursor after : Cursor} {l : Excerpt}
    (h : cursor.next = (some l, after)) : after.Follows cursor where
  shorter := length_next h
  stop_eq := by
    rcases cursor.next_cases with ⟨-, none⟩ | ⟨gap, m, rest, -, split, start_eq, some⟩
    · cases h.symm.trans none
    · cases h.symm.trans some
      simp only [split, Excerpt.stop, start_eq, List.length_append, Nat.add_assoc]

/-! ## Moves -/

/-- A use of a cursor. -/
inductive Move where
  /-- Take the next lexeme. -/
  | next
  /-- Look for the end of the text. -/
  | atEnd
  /-- Take all lexemes that are left. -/
  | rest

/-- The lexemes that a move hands out, and the cursor after it. -/
def move (cursor : Cursor) : Move → List Excerpt × Cursor
  | .next => (cursor.next.1.toList, cursor.next.2)
  | .atEnd => ([], cursor.atEnd.2)
  | .rest => (cursor.lexemes, cursor.exhausted)

/-- The lexemes that moves one after another hand out, and the cursor after them. -/
def moves (cursor : Cursor) : List Move → List Excerpt × Cursor
  | [] => ([], cursor)
  | m :: ms =>
    ((cursor.move m).1 ++ ((cursor.move m).2.moves ms).1, ((cursor.move m).2.moves ms).2)

end Cursor

/-- The lexemes of a text. -/
def lexemes (text : List Char) : List Excerpt := (Cursor.ofText text).lexemes

end ExprCalculus

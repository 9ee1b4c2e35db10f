import Mathlib
import ExprCalculus.Proofs.Lexing

/-!
# Layouts of a bracketed text

A layout of a text says where its tokens stand: a gap in front, and then one token after another,
each with the gap behind it. Two words that follow each other need a gap between them, and no other
tokens do. Every text has exactly one layout. A cursor that is asked again and again finds its
tokens one by one, each at its place, and then finds no more.
-/

namespace ExprCalculus

/-- At least one character, and neither gap characters nor brackets. -/
def IsWord (cs : List Char) : Prop := cs ≠ [] ∧ ∀ c ∈ cs, isWordChar c = true

def IsToken (cs : List Char) : Prop := cs = ['('] ∨ cs = [')'] ∨ IsWord cs

/-- A token and the gap behind it. -/
@[ext] structure Piece where
  /-- The token. -/
  token : List Char
  /-- The gap, which may be empty. -/
  gap : List Char

namespace Piece

def text (piece : Piece) : List Char := piece.token ++ piece.gap

/-- The tokens of some pieces, the first of which begins at an offset. -/
def excerpts : Nat → List Piece → List Excerpt
  | _, [] => []
  | start, piece :: pieces => ⟨piece.token, start⟩ :: excerpts (start + piece.text.length) pieces

end Piece

/-- The pieces are tokens and gaps, and can be told apart where they meet. -/
structure Legible (pieces : List Piece) : Prop where
  token : ∀ piece ∈ pieces, IsToken piece.token
  gap : ∀ piece ∈ pieces, ∀ c ∈ piece.gap, isGap c = true
  apart : pieces.IsChain fun piece next => IsWord piece.token → IsWord next.token → piece.gap ≠ []

/-- A way to take a text apart into gaps and tokens. -/
@[ext] structure Layout (text : List Char) where
  /-- The gap in front of all tokens. -/
  indent : List Char
  /-- The tokens, each with the gap behind it. -/
  pieces : List Piece
  indent_gap : ∀ c ∈ indent, isGap c = true
  legible : Legible pieces
  text_eq : text = indent ++ pieces.flatMap Piece.text

namespace Layout

variable {text : List Char}

def tokens (layout : Layout text) : List (List Char) := layout.pieces.map Piece.token

/-- The offset of a token: the length of all that stands before it. -/
def start (layout : Layout text) (i : Nat) : Nat :=
  (layout.indent ++ (layout.pieces.take i).flatMap Piece.text).length

end Layout

/-- The cursor after the next lexeme has been asked for so many times. -/
def Cursor.called (cursor : Cursor) : Nat → Cursor
  | 0 => cursor
  | n + 1 => (cursor.called n).next.2

/-! ## Tokens and gaps -/

theorem IsToken.word_or_bracket {token : List Char} (h : IsToken token) :
    IsWord token ∨ ∃ c, token = [c] ∧ isGap c = false ∧ isBracket c = true := by
  rcases h with rfl | rfl | word
  · exact .inr ⟨'(', rfl, rfl, rfl⟩
  · exact .inr ⟨')', rfl, rfl, rfl⟩
  · exact .inl word

/-- A token begins with a character that no gap has. -/
theorem IsToken.exists_cons {token : List Char} (h : IsToken token) :
    ∃ c cs, token = c :: cs ∧ isGap c = false ∧ (isWordChar c = true → IsWord token) := by
  rcases h.word_or_bracket with word | ⟨c, rfl, gap, bracket⟩
  · obtain ⟨c, cs, rfl⟩ := List.exists_cons_of_ne_nil word.1
    have hc := word.2 c List.mem_cons_self
    simp only [isWordChar, Bool.and_eq_true, Bool.not_eq_true'] at hc
    exact ⟨c, cs, rfl, hc.1, fun _ => word⟩
  · refine ⟨c, [], rfl, gap, fun wordChar => ?_⟩
    rw [isWordChar_of_isBracket bracket] at wordChar
    cases wordChar

theorem Legible.tail {piece : Piece} {pieces : List Piece} (h : Legible (piece :: pieces)) :
    Legible pieces where
  token p hp := h.token p (List.mem_cons_of_mem _ hp)
  gap p hp := h.gap p (List.mem_cons_of_mem _ hp)
  apart := h.apart.tail

/-- What stands behind a word does not go on with it. -/
theorem Legible.isWordChar_behind {piece : Piece} {pieces : List Piece}
    (h : Legible (piece :: pieces)) (word : IsWord piece.token) :
    ∀ c ∈ (piece.gap ++ pieces.flatMap Piece.text).head?, isWordChar c = false := by
  intro c hc
  cases hgap : piece.gap with
  | cons d ds =>
    have skipped := h.gap piece List.mem_cons_self d (by rw [hgap]; exact List.mem_cons_self)
    obtain rfl : d = c := by simpa [hgap] using hc
    exact isWordChar_of_isGap skipped
  | nil =>
    cases pieces with
    | nil => simp [hgap] at hc
    | cons next pieces =>
      obtain ⟨d, ds, token_eq, -, continues⟩ := (h.token next (by simp)).exists_cons
      obtain rfl : d = c := by simpa [hgap, Piece.text, token_eq] using hc
      have apart := (List.isChain_cons_cons.mp h.apart).1 word
      by_contra wordChar
      exact apart (continues (by simpa using wordChar)) hgap

/-- Gaps are passed over, and the lexemes behind them start that much later. -/
theorem lexemesFrom_of_gap {gap : List Char} (h : ∀ c ∈ gap, isGap c = true) (start : Nat)
    (cs : List Char) : lexemesFrom start (gap ++ cs) = lexemesFrom (start + gap.length) cs := by
  induction gap generalizing start with
  | nil => rfl
  | cons c gap ih =>
    have rest := ih (fun d hd => h d (List.mem_cons_of_mem _ hd)) (start + 1)
    rw [List.cons_append, lexemesFrom_gap (h c List.mem_cons_self), rest, List.length_cons]
    congr 1
    omega

/-- The lexemes of pieces are their tokens. -/
theorem lexemesFrom_pieces {pieces : List Piece} (h : Legible pieces) (start : Nat) :
    lexemesFrom start (pieces.flatMap Piece.text) = Piece.excerpts start pieces := by
  induction pieces generalizing start with
  | nil => exact lexemesFrom_nil start
  | cons piece pieces ih =>
    have gap := h.gap piece List.mem_cons_self
    have token : lexemesFrom start (piece.token ++ (piece.gap ++ pieces.flatMap Piece.text)) =
        ⟨piece.token, start⟩ :: lexemesFrom (start + piece.token.length)
          (piece.gap ++ pieces.flatMap Piece.text) := by
      rcases (h.token piece List.mem_cons_self).word_or_bracket with
        word | ⟨c, token_eq, gap, bracket⟩
      · exact lexemesFrom_word word.1 word.2 (h.isWordChar_behind word) start
      · rw [token_eq]
        exact lexemesFrom_bracket gap bracket start _
    rw [List.flatMap_cons, Piece.text, List.append_assoc, token, lexemesFrom_of_gap gap,
      ih h.tail, Piece.excerpts, Piece.text, List.length_append, Nat.add_assoc]

namespace Layout

variable {text : List Char}

/-- The lexemes of a text are the tokens of its layout at the places where the layout has them. -/
theorem lexemes_eq (layout : Layout text) :
    lexemes text = Piece.excerpts layout.indent.length layout.pieces := by
  have h := lexemesFrom_of_gap layout.indent_gap 0 (layout.pieces.flatMap Piece.text)
  rw [← layout.text_eq, lexemesFrom_pieces layout.legible, Nat.zero_add] at h
  exact h

end Layout

theorem Piece.map_text_excerpts (start : Nat) (pieces : List Piece) :
    (Piece.excerpts start pieces).map Excerpt.text = pieces.map Piece.token := by
  induction pieces generalizing start with
  | nil => rfl
  | cons piece pieces ih => rw [Piece.excerpts, List.map_cons, List.map_cons, ih]

/-- A token begins where the pieces before it end. -/
theorem Piece.getElem?_excerpts (start : Nat) (pieces : List Piece) (i : Nat) :
    (Piece.excerpts start pieces)[i]? = pieces[i]?.map fun piece =>
      ⟨piece.token, start + ((pieces.take i).flatMap Piece.text).length⟩ := by
  induction pieces generalizing start i with
  | nil => rfl
  | cons piece pieces ih =>
    cases i with
    | zero => rfl
    | succ i =>
      rw [Piece.excerpts, List.getElem?_cons_succ, ih, List.getElem?_cons_succ, List.take_succ_cons,
        List.flatMap_cons, List.length_append, Nat.add_assoc]

/-! ## One layout for every text -/

/-- A gap in front of pieces goes on up to the first token. -/
theorem takeWhile_isGap_pieces {gap : List Char} (hgap : ∀ c ∈ gap, isGap c = true)
    {pieces : List Piece} (h : Legible pieces) :
    (gap ++ pieces.flatMap Piece.text).takeWhile isGap = gap := by
  rw [List.takeWhile_append_of_pos hgap]
  cases pieces with
  | nil => simp
  | cons piece pieces =>
    obtain ⟨c, cs, token_eq, first, -⟩ := (h.token piece List.mem_cons_self).exists_cons
    simp [Piece.text, token_eq, first]

/-- A text tells its gap from the tokens behind it. -/
theorem Legible.gap_eq {gap gap' : List Char} {pieces pieces' : List Piece} (h : Legible pieces)
    (hgap : ∀ c ∈ gap, isGap c = true) (hgap' : ∀ c ∈ gap', isGap c = true)
    (h' : Legible pieces')
    (same : gap ++ pieces.flatMap Piece.text = gap' ++ pieces'.flatMap Piece.text) :
    gap = gap' ∧ pieces.flatMap Piece.text = pieces'.flatMap Piece.text := by
  have gap_eq : gap = gap' := by
    rw [← takeWhile_isGap_pieces hgap h, same, takeWhile_isGap_pieces hgap' h']
  subst gap_eq
  exact ⟨rfl, List.append_cancel_left same⟩

/-- Pieces are told by their text, one after another: its first lexeme is the first token, and the
gap behind it goes on up to the next. -/
theorem Legible.unique {pieces pieces' : List Piece} (h : Legible pieces) (h' : Legible pieces')
    (same : pieces.flatMap Piece.text = pieces'.flatMap Piece.text) : pieces = pieces' := by
  induction pieces generalizing pieces' with
  | nil =>
    have excerpts_eq : Piece.excerpts 0 [] = Piece.excerpts 0 pieces' := by
      rw [← lexemesFrom_pieces h, same, lexemesFrom_pieces h']
    cases pieces' with
    | nil => rfl
    | cons piece' pieces' => cases excerpts_eq
  | cons piece pieces ih =>
    have excerpts_eq : Piece.excerpts 0 (piece :: pieces) = Piece.excerpts 0 pieces' := by
      rw [← lexemesFrom_pieces h, same, lexemesFrom_pieces h']
    cases pieces' with
    | nil => cases excerpts_eq
    | cons piece' pieces' =>
      have token_eq : piece.token = piece'.token :=
        congrArg Excerpt.text (List.cons.inj excerpts_eq).1
      simp only [List.flatMap_cons, Piece.text, token_eq, List.append_assoc] at same
      obtain ⟨gap_eq, rest⟩ := h.tail.gap_eq (h.gap piece List.mem_cons_self)
        (h'.gap piece' List.mem_cons_self) h'.tail (List.append_cancel_left same)
      rw [Piece.ext token_eq gap_eq, ih h.tail h'.tail rest]

/-- A text has one layout at most. -/
theorem Layout.subsingleton (text : List Char) : Subsingleton (Layout text) where
  allEq a b := by
    obtain ⟨indent_eq, rest⟩ := a.legible.gap_eq a.indent_gap b.indent_gap b.legible
      (a.text_eq.symm.trans b.text_eq)
    exact Layout.ext indent_eq (a.legible.unique b.legible rest)

/-- A token with its gap may stand in front of a legible list if the gap parts two words. -/
theorem Legible.cons {token gap : List Char} {pieces : List Piece} (htoken : IsToken token)
    (hgap : ∀ c ∈ gap, isGap c = true) (h : Legible pieces)
    (apart : ∀ next ∈ pieces.head?, IsWord token → IsWord next.token → gap ≠ []) :
    Legible (⟨token, gap⟩ :: pieces) where
  token := by
    rintro p (_ | ⟨_, hp⟩)
    · exact htoken
    · exact h.token p hp
  gap := by
    rintro p (_ | ⟨_, hp⟩)
    · exact hgap
    · exact h.gap p hp
  apart := List.isChain_cons.mpr ⟨apart, h.apart⟩

/-- A text is laid out as it is cut. -/
theorem Layout.nonempty (text : List Char) : Nonempty (Layout text) := by
  induction text using lexing_induction with
  | nil => exact ⟨[], [], nofun, ⟨nofun, nofun, .nil⟩, rfl⟩
  | gap c cs gap ih =>
    obtain ⟨indent, pieces, indent_gap, legible, rfl⟩ := ih
    refine ⟨c :: indent, pieces, ?_, legible, rfl⟩
    rintro d (_ | ⟨_, hd⟩)
    · exact gap
    · exact indent_gap d hd
  | bracket c cs gap bracket ih =>
    obtain ⟨indent, pieces, indent_gap, legible, rfl⟩ := ih
    have token : IsToken [c] := by
      rcases isBracket_eq_true_iff.mp bracket with rfl | rfl
      · exact .inl rfl
      · exact .inr (.inl rfl)
    refine ⟨[], ⟨[c], indent⟩ :: pieces, nofun, .cons token indent_gap legible ?_, ?_⟩
    · rintro next - ⟨-, word⟩
      have wordChar := word c List.mem_cons_self
      rw [isWordChar_of_isBracket bracket] at wordChar
      cases wordChar
    · simp [Piece.text]
  | word w cs nonempty hw hcs ih =>
    obtain ⟨indent, pieces, indent_gap, legible, rfl⟩ := ih
    refine ⟨[], ⟨w, indent⟩ :: pieces, nofun,
      .cons (.inr (.inr ⟨nonempty, hw⟩)) indent_gap legible ?_, ?_⟩
    · rintro next hnext - word rfl
      -- Without a gap the next token would go on with the word.
      obtain ⟨rest, rfl⟩ := List.head?_eq_some_iff.mp hnext
      obtain ⟨c, cs, token_eq⟩ := List.exists_cons_of_ne_nil word.1
      have stops := hcs c (by simp [Piece.text, token_eq])
      have wordChar := word.2 c (by simp [token_eq])
      rw [stops] at wordChar
      cases wordChar
    · simp [Piece.text]

/-! ## The tokens of a layout are handed out -/

namespace Cursor

theorem lexemes_next (cursor : Cursor) : cursor.next.2.lexemes = cursor.lexemes.tail := by
  rcases h : cursor.next with ⟨l?, after⟩
  cases l? with
  | none =>
    obtain rfl := eq_exhausted_of_next_none h
    rw [lexemes_of_next_none h, lexemes_exhausted, List.tail_nil]
  | some l => rw [lexemes_of_next_some h, List.tail_cons]

theorem head?_lexemes (cursor : Cursor) : cursor.lexemes.head? = cursor.next.1 := by
  rcases h : cursor.next with ⟨l?, after⟩
  cases l? with
  | none => rw [lexemes_of_next_none h, List.head?_nil]
  | some l => rw [lexemes_of_next_some h, List.head?_cons]

theorem lexemes_called (cursor : Cursor) (n : Nat) :
    (cursor.called n).lexemes = cursor.lexemes.drop n := by
  induction n with
  | zero => rfl
  | succ n ih => rw [called, lexemes_next, ih, List.tail_drop]

/-- The n-th time, the cursor hands out the n-th lexeme. -/
theorem fst_next_called (cursor : Cursor) (n : Nat) :
    (cursor.called n).next.1 = cursor.lexemes[n]? := by
  rw [← head?_lexemes, lexemes_called, List.head?_drop]

end Cursor

/-- The tokens of a text are those of its one layout. Its cursor hands them out one after another,
at their places in the layout, and then no more. -/
theorem tokens_eq_iff_exists_layout (text : List Char) :
    (∀ ts, tokens text = ts ↔ ∃ layout : Layout text, layout.tokens = ts) ∧
    Nonempty (Unique (Layout text)) ∧
    ∀ layout : Layout text,
      (∀ i piece, layout.pieces[i]? = some piece →
        ((Cursor.ofText text).called i).next.1 = some ⟨piece.token, layout.start i⟩ ∧
        ((Cursor.ofText text).called (i + 1)).lexemeStart = layout.start i ∧
        ((Cursor.ofText text).called (i + 1)).pos = layout.start i + piece.token.length) ∧
      ((Cursor.ofText text).called layout.pieces.length).next.1 = none := by
  have found (layout : Layout text) (i : Nat) : ((Cursor.ofText text).called i).next.1 =
      layout.pieces[i]?.map fun piece => ⟨piece.token, layout.start i⟩ := by
    rw [Cursor.fst_next_called, Layout.start, List.length_append, ← Piece.getElem?_excerpts,
      ← layout.lexemes_eq]
    rfl
  have tokens_eq (layout : Layout text) : tokens text = layout.tokens := by
    rw [tokens, layout.lexemes_eq, Piece.map_text_excerpts, Layout.tokens]
  obtain ⟨whole⟩ := Layout.nonempty text
  have one := Layout.subsingleton text
  refine ⟨fun ts => ⟨?_, ?_⟩, ⟨⟨⟨whole⟩, fun layout => one.elim layout whole⟩⟩,
    fun layout => ⟨?_, ?_⟩⟩
  · rintro rfl
    exact ⟨whole, (tokens_eq whole).symm⟩
  · rintro ⟨layout, rfl⟩
    exact tokens_eq layout
  · intro i piece hpiece
    have next := found layout i
    rw [hpiece] at next
    exact ⟨next, Cursor.places_of_next_some (Prod.ext next rfl)⟩
  · rw [found, List.getElem?_length]
    rfl

/-- A word that a bracket ends, and a gap between two words: `x(1` and `2 )` with a tab between. -/
theorem tokens_eq_iff_exists_layout_of_words :
    tokens ['x', '(', '1', '\t', '2', ' ', ')'] = [['x'], ['('], ['1'], ['2'], [')']] ∧
      ((Cursor.ofText ['x', '(', '1', '\t', '2', ' ', ')']).called 3).next.1 =
        some ⟨['2'], 4⟩ ∧
      ((Cursor.ofText ['x', '(', '1', '\t', '2', ' ', ')']).called 5).next.1 = none := by
  have legible :
      Legible [⟨['x'], []⟩, ⟨['('], []⟩, ⟨['1'], ['\t']⟩, ⟨['2'], [' ']⟩, ⟨[')'], []⟩] := by
    refine ⟨?_, ?_, ?_⟩
    · simp [IsToken, IsWord, isWordChar, isGap, isBracket]
    · simp [isGap]
    · simp [IsWord, isWordChar, isBracket]
  have unindented : ∀ c ∈ ([] : List Char), isGap c = true := by simp
  let layout : Layout ['x', '(', '1', '\t', '2', ' ', ')'] := ⟨[], _, unindented, legible, rfl⟩
  obtain ⟨tokens_iff, -, handed⟩ := tokens_eq_iff_exists_layout ['x', '(', '1', '\t', '2', ' ', ')']
  obtain ⟨each, none⟩ := handed layout
  exact ⟨(tokens_iff _).mpr ⟨layout, rfl⟩, (each 3 ⟨['2'], [' ']⟩ rfl).1, none⟩

end ExprCalculus

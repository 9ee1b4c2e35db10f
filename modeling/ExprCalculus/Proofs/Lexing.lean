import Mathlib
import ExprCalculus.Text.Cursor

/-!
# How a bracketed text is cut

A text is a gap character, a bracket or a longest word, and then the rest: `lexing_induction` is the
induction that follows these steps, and one equation per step computes the lexemes. From them come
the places of the lexemes in the text, and that a text may be cut at the start and at the end of any
lexeme without changing the lexemes on either side.
-/

namespace ExprCalculus

/-! ## One step at a time -/

/-- A text is nothing, or it begins with a gap character, a bracket or a longest word. -/
theorem lexing_induction {motive : List Char → Prop} (nil : motive [])
    (gap : ∀ c cs, isGap c = true → motive cs → motive (c :: cs))
    (bracket : ∀ c cs, isGap c = false → isBracket c = true → motive cs → motive (c :: cs))
    (word : ∀ w cs, w ≠ [] → (∀ c ∈ w, isWordChar c = true) →
      (∀ c ∈ cs.head?, isWordChar c = false) → motive cs → motive (w ++ cs))
    (text : List Char) : motive text := by
  induction h : text.length using Nat.strong_induction_on generalizing text with
  | _ n ih =>
    cases text with
    | nil => exact nil
    | cons c cs =>
      simp only [List.length_cons] at h
      by_cases hg : isGap c = true
      · exact gap c cs hg (ih cs.length (by omega) cs rfl)
      · by_cases hb : isBracket c = true
        · exact bracket c cs (by simpa using hg) hb (ih cs.length (by omega) cs rfl)
        · have hw : isWordChar c = true := by
            simp only [isWordChar, Bool.and_eq_true, Bool.not_eq_true']
            exact ⟨by simpa using hg, by simpa using hb⟩
          have shorter := (List.dropWhile_suffix isWordChar (l := cs)).length_le
          have rest := ih (cs.dropWhile isWordChar).length (by omega) _ rfl
          have whole := word (c :: cs.takeWhile isWordChar) (cs.dropWhile isWordChar)
            (List.cons_ne_nil _ _) ?_ ?_ rest
          · rwa [List.cons_append, List.takeWhile_append_dropWhile] at whole
          · intro d hd
            rcases List.mem_cons.mp hd with rfl | hd
            · exact hw
            · exact List.mem_takeWhile_imp hd
          · intro d hd
            have head := List.head?_dropWhile_not isWordChar cs
            rw [Option.mem_def.mp hd] at head
            simpa using head

/-- The lexemes of a text whose first character has the offset `start`. -/
def lexemesFrom (start : Nat) (text : List Char) : List Excerpt :=
  (⟨text, start, start⟩ : Cursor).lexemes

namespace Cursor

theorem lexemes_of_next_none {cursor after : Cursor} (h : cursor.next = (none, after)) :
    cursor.lexemes = [] := by
  rw [lexemes]
  split
  · rfl
  · rename_i h'
    rw [h] at h'
    cases h'

theorem lexemes_of_next_some {cursor after : Cursor} {lexeme : Excerpt}
    (h : cursor.next = (some lexeme, after)) : cursor.lexemes = lexeme :: after.lexemes := by
  rw [lexemes]
  split
  · rename_i h'
    rw [h] at h'
    cases h'
  · rename_i h'
    rw [h] at h'
    cases h'
    rfl

theorem lexemes_eq_cons {cursor after : Cursor} {lexeme : Excerpt} {rest : List Excerpt}
    (h : cursor.next = (some lexeme, after)) (hrest : after.lexemes = rest) :
    cursor.lexemes = lexeme :: rest := by
  rw [lexemes_of_next_some h, hrest]

theorem lexemes_congr {a b : Cursor} (h : a.next = b.next) : a.lexemes = b.lexemes := by
  rcases hb : b.next with ⟨lexeme?, after⟩
  cases lexeme? with
  | none => rw [lexemes_of_next_none hb, lexemes_of_next_none (h.trans hb)]
  | some lexeme => rw [lexemes_of_next_some hb, lexemes_of_next_some (h.trans hb)]

/-- The lexemes ahead do not depend on where the last one was looked for. -/
theorem lexemes_eq (cursor : Cursor) : cursor.lexemes = lexemesFrom cursor.pos cursor.rest :=
  lexemes_congr rfl

end Cursor

@[simp] theorem lexemesFrom_nil (start : Nat) : lexemesFrom start [] = [] :=
  Cursor.lexemes_of_next_none rfl

theorem lexemesFrom_gap {c : Char} (h : isGap c = true) (start : Nat) (cs : List Char) :
    lexemesFrom start (c :: cs) = lexemesFrom (start + 1) cs := by
  refine Cursor.lexemes_congr ?_
  have pos : start + ((cs.takeWhile isGap).length + 1) =
      start + 1 + (cs.takeWhile isGap).length := by omega
  simp [Cursor.next, Cursor.skipGap, h, pos]

theorem lexemesFrom_bracket {c : Char} (gap : isGap c = false) (h : isBracket c = true)
    (start : Nat) (cs : List Char) :
    lexemesFrom start (c :: cs) = ⟨[c], start⟩ :: lexemesFrom (start + 1) cs := by
  have next : (⟨c :: cs, start, start⟩ : Cursor).next =
      (some ⟨[c], start⟩, ⟨cs, start + 1, start⟩) := by
    simp [Cursor.next, Cursor.skipGap, gap, splitLexeme, h]
  rw [lexemesFrom, Cursor.lexemes_of_next_some next, Cursor.lexemes_eq]

/-- A longest run of word characters is one lexeme. -/
theorem lexemesFrom_word {w cs : List Char} (nonempty : w ≠ []) (hw : ∀ c ∈ w, isWordChar c = true)
    (hcs : ∀ c ∈ cs.head?, isWordChar c = false) (start : Nat) :
    lexemesFrom start (w ++ cs) = ⟨w, start⟩ :: lexemesFrom (start + w.length) cs := by
  obtain ⟨c, w, rfl⟩ := List.exists_cons_of_ne_nil nonempty
  have hc := hw c List.mem_cons_self
  simp only [isWordChar, Bool.and_eq_true, Bool.not_eq_true'] at hc
  have stop : cs.takeWhile isWordChar = [] ∧ cs.dropWhile isWordChar = cs := by
    cases cs with
    | nil => simp
    | cons d cs => simp [hcs d rfl]
  have rest : ∀ d ∈ w, isWordChar d = true := fun d hd => hw d (List.mem_cons_of_mem _ hd)
  have next : (⟨c :: (w ++ cs), start, start⟩ : Cursor).next =
      (some ⟨c :: w, start⟩, ⟨cs, start + (c :: w).length, start⟩) := by
    simp [Cursor.next, Cursor.skipGap, hc.1, hc.2, splitLexeme, List.takeWhile_append_of_pos rest,
      List.dropWhile_append_of_pos rest, stop]
  rw [List.cons_append, lexemesFrom, Cursor.lexemes_of_next_some next, Cursor.lexemes_eq]

/-- Moving a text moves its lexemes along. -/
theorem lexemesFrom_add (start offset : Nat) (text : List Char) :
    lexemesFrom (start + offset) text =
      (lexemesFrom start text).map fun l => ⟨l.text, l.start + offset⟩ := by
  induction text using lexing_induction generalizing start with
  | nil => simp
  | gap c cs h ih => rw [lexemesFrom_gap h, lexemesFrom_gap h, Nat.add_right_comm, ih]
  | bracket c cs gap h ih =>
    rw [lexemesFrom_bracket gap h, lexemesFrom_bracket gap h, Nat.add_right_comm, ih, List.map_cons]
  | word w cs nonempty hw hcs ih =>
    rw [lexemesFrom_word nonempty hw hcs, lexemesFrom_word nonempty hw hcs, Nat.add_right_comm, ih,
      List.map_cons]

/-! ## Cutting a text -/

theorem isWordChar_of_isGap {c : Char} (h : isGap c = true) : isWordChar c = false := by
  rw [isWordChar, h]
  rfl

theorem isWordChar_of_isBracket {c : Char} (h : isBracket c = true) : isWordChar c = false := by
  rw [isWordChar, h, Bool.not_true, Bool.and_false]

/-- Two texts meet where no word goes on from one into the other. -/
def CutsBetween (a b : List Char) : Prop :=
  ∀ c ∈ a.getLast?, ∀ d ∈ b.head?, isWordChar c = true → isWordChar d = false

/-- Whether two texts are cut apart depends on the end of the first alone. -/
theorem CutsBetween.of_append {a b c : List Char} (h : CutsBetween (a ++ b) c) :
    CutsBetween b c := by
  intro d hd
  refine h d ?_
  rw [Option.mem_def] at hd
  simp [List.getLast?_append, hd]

theorem cutsBetween_cons {c : Char} (h : isWordChar c = false) (a cs : List Char) :
    CutsBetween a (c :: cs) := by
  rintro d - e he -
  obtain rfl : c = e := by simpa using he
  exact h

/-- The lexemes of a text that is cut where no word goes on are those of its two parts. -/
theorem lexemesFrom_append {a b : List Char} (cut : CutsBetween a b) (start : Nat) :
    lexemesFrom start (a ++ b) = lexemesFrom start a ++ lexemesFrom (start + a.length) b := by
  induction a using lexing_induction generalizing start with
  | nil => simp
  | gap c cs h ih =>
    have tail : CutsBetween cs b := CutsBetween.of_append (a := [c]) cut
    rw [List.cons_append, lexemesFrom_gap h, lexemesFrom_gap h, ih tail, List.length_cons,
      Nat.add_right_comm, Nat.add_assoc]
  | bracket c cs gap h ih =>
    have tail : CutsBetween cs b := CutsBetween.of_append (a := [c]) cut
    rw [List.cons_append, lexemesFrom_bracket gap h, lexemesFrom_bracket gap h, ih tail,
      List.length_cons, Nat.add_right_comm, Nat.add_assoc, List.cons_append]
  | word w cs nonempty hw hcs ih =>
    have first : ∀ d ∈ (cs ++ b).head?, isWordChar d = false := by
      intro d hd
      cases cs with
      | nil =>
        -- The word ends at the cut, so what follows there does not continue it.
        rw [List.append_nil] at cut
        have last := List.getLast_mem nonempty
        exact cut _ (List.getLast?_eq_some_getLast nonempty) d hd (hw _ last)
      | cons c cs => exact hcs d hd
    rw [List.append_assoc, lexemesFrom_word nonempty hw first, lexemesFrom_word nonempty hw hcs,
      ih cut.of_append, List.length_append, Nat.add_assoc, List.cons_append]

/-- Every lexeme stands in the text at its offset, and what stands before and behind it has the
lexemes before and behind it. -/
theorem exists_cut_of_lexemesFrom {start : Nat} {text : List Char} {before after : List Excerpt}
    {l : Excerpt} (h : lexemesFrom start text = before ++ l :: after) :
    ∃ a b, text = a ++ (l.text ++ b) ∧ l.start = start + a.length ∧
      lexemesFrom start a = before ∧ lexemesFrom l.stop b = after := by
  induction text using lexing_induction generalizing start before with
  | nil => simp at h
  | gap c cs gap ih =>
    rw [lexemesFrom_gap gap] at h
    obtain ⟨a, b, rfl, start_eq, before_eq, after_eq⟩ := ih h
    refine ⟨c :: a, b, rfl, ?_, ?_, after_eq⟩
    · rw [start_eq, List.length_cons, Nat.add_right_comm, Nat.add_assoc]
    · rw [lexemesFrom_gap gap, before_eq]
  | bracket c cs gap bracket ih =>
    rw [lexemesFrom_bracket gap bracket] at h
    cases before with
    | nil =>
      obtain ⟨rfl, rfl⟩ := List.cons.inj h
      exact ⟨[], cs, rfl, rfl, by simp, rfl⟩
    | cons first before =>
      obtain ⟨rfl, rest⟩ := List.cons.inj h
      obtain ⟨a, b, rfl, start_eq, before_eq, after_eq⟩ := ih rest
      refine ⟨c :: a, b, rfl, ?_, ?_, after_eq⟩
      · rw [start_eq, List.length_cons, Nat.add_right_comm, Nat.add_assoc]
      · rw [lexemesFrom_bracket gap bracket, before_eq]
  | word w cs nonempty hw hcs ih =>
    rw [lexemesFrom_word nonempty hw hcs] at h
    cases before with
    | nil =>
      obtain ⟨rfl, rfl⟩ := List.cons.inj h
      exact ⟨[], cs, rfl, rfl, by simp, rfl⟩
    | cons first before =>
      obtain ⟨rfl, rest⟩ := List.cons.inj h
      obtain ⟨a, b, rfl, start_eq, before_eq, after_eq⟩ := ih rest
      refine ⟨w ++ a, b, by rw [List.append_assoc], ?_, ?_, after_eq⟩
      · rw [start_eq, List.length_append, Nat.add_assoc]
      · have first : ∀ d ∈ a.head?, isWordChar d = false := by
          intro d hd
          refine hcs d ?_
          rw [Option.mem_def] at hd
          simp [List.head?_append, hd]
        rw [lexemesFrom_word nonempty hw first, before_eq]

/-- The excerpt stands in the text at its place. -/
def Excerpt.StandsIn (text : List Char) (excerpt : Excerpt) : Prop :=
  ∃ before after, text = before ++ (excerpt.text ++ after) ∧ before.length = excerpt.start

theorem Excerpt.between_append (a w b : List Char) :
    Excerpt.between (a ++ (w ++ b)) a.length (a.length + w.length) = ⟨w, a.length⟩ := by
  rw [between, List.drop_left, Nat.add_sub_cancel_left, List.take_left]

theorem Excerpt.StandsIn.eq_between {text : List Char} {excerpt : Excerpt}
    (h : excerpt.StandsIn text) : excerpt = .between text excerpt.start excerpt.stop := by
  obtain ⟨w, start⟩ := excerpt
  obtain ⟨a, b, rfl, rfl⟩ := h
  exact (Excerpt.between_append a w b).symm

/-- Every lexeme of a text stands in the text where it says that it starts. -/
theorem standsIn_of_mem_lexemes {text : List Char} {l : Excerpt} (h : l ∈ lexemes text) :
    l.StandsIn text := by
  obtain ⟨before, after, hl⟩ := List.append_of_mem h
  obtain ⟨a, b, text_eq, start_eq, -, -⟩ := exists_cut_of_lexemesFrom hl
  exact ⟨a, b, text_eq, by rw [start_eq, Nat.zero_add]⟩

/-- A lexeme is a bracket alone, or it is a word. -/
theorem bracket_or_word_of_mem_lexemesFrom {start : Nat} {text : List Char} {l : Excerpt}
    (h : l ∈ lexemesFrom start text) :
    (∃ c, isBracket c = true ∧ l.text = [c]) ∨
      (l.text ≠ [] ∧ ∀ c ∈ l.text, isWordChar c = true) := by
  induction text using lexing_induction generalizing start with
  | nil => simp at h
  | gap c cs gap ih =>
    rw [lexemesFrom_gap gap] at h
    exact ih h
  | bracket c cs gap bracket ih =>
    rw [lexemesFrom_bracket gap bracket] at h
    rcases List.mem_cons.mp h with rfl | h
    · exact .inl ⟨c, bracket, rfl⟩
    · exact ih h
  | word w cs nonempty hw hcs ih =>
    rw [lexemesFrom_word nonempty hw hcs] at h
    rcases List.mem_cons.mp h with rfl | h
    · exact .inr ⟨nonempty, hw⟩
    · exact ih h

/-! ## Moving a cursor -/

namespace Cursor

/-- Behind a lexeme the cursor stands at its end, and knows where it began. -/
theorem places_of_next_some {cursor after : Cursor} {l : Excerpt}
    (h : cursor.next = (some l, after)) : after.lexemeStart = l.start ∧ after.pos = l.stop := by
  rcases cursor.next_cases with ⟨-, none⟩ | ⟨gap, m, rest, -, -, -, some⟩
  · cases h.symm.trans none
  · cases h.symm.trans some
    exact ⟨rfl, rfl⟩

/-- At the end of the text the cursor stands at its length. -/
theorem pos_of_next_none {cursor after : Cursor} (h : cursor.next = (none, after)) :
    after.pos = cursor.pos + cursor.rest.length := by
  rw [eq_exhausted_of_next_none h]
  rfl

@[simp] theorem lexemes_exhausted (cursor : Cursor) : cursor.exhausted.lexemes = [] := by
  rw [lexemes_eq]
  exact lexemesFrom_nil _

end Cursor

/-! ## Tokens -/

/-- The lexemes of a text without their places. -/
def tokens (text : List Char) : List (List Char) := (lexemes text).map Excerpt.text

theorem lexemes_eq_lexemesFrom (text : List Char) : lexemes text = lexemesFrom 0 text := rfl

/-- The tokens of a text do not depend on where it begins. -/
theorem map_text_lexemesFrom (start : Nat) (text : List Char) :
    (lexemesFrom start text).map Excerpt.text = tokens text := by
  have h := lexemesFrom_add 0 start text
  rw [Nat.zero_add] at h
  rw [h, tokens, lexemes_eq_lexemesFrom, List.map_map]
  rfl

@[simp] theorem tokens_nil : tokens [] = [] := by
  rw [tokens, lexemes_eq_lexemesFrom, lexemesFrom_nil, List.map_nil]

/-- The tokens of two texts that are cut apart are those of the one and then those of the other. -/
theorem tokens_append {a b : List Char} (cut : CutsBetween a b) :
    tokens (a ++ b) = tokens a ++ tokens b := by
  rw [tokens, lexemes_eq_lexemesFrom, lexemesFrom_append cut, List.map_append,
    map_text_lexemesFrom, map_text_lexemesFrom]

theorem tokens_word {w cs : List Char} (nonempty : w ≠ []) (hw : ∀ c ∈ w, isWordChar c = true)
    (hcs : ∀ c ∈ cs.head?, isWordChar c = false) : tokens (w ++ cs) = w :: tokens cs := by
  rw [tokens, lexemes_eq_lexemesFrom, lexemesFrom_word nonempty hw hcs, List.map_cons,
    map_text_lexemesFrom]

theorem tokens_of_word {w : List Char} (nonempty : w ≠ [])
    (hw : ∀ c ∈ w, isWordChar c = true) : tokens w = [w] := by
  have h : tokens (w ++ []) = _ := tokens_word nonempty hw (by simp)
  rwa [List.append_nil, tokens_nil] at h

theorem tokens_bracket {c : Char} (gap : isGap c = false) (h : isBracket c = true)
    (cs : List Char) : tokens (c :: cs) = [c] :: tokens cs := by
  rw [tokens, lexemes_eq_lexemesFrom, lexemesFrom_bracket gap h, List.map_cons,
    map_text_lexemesFrom]

theorem tokens_gap {c : Char} (h : isGap c = true) (cs : List Char) :
    tokens (c :: cs) = tokens cs := by
  rw [tokens, lexemes_eq_lexemesFrom, lexemesFrom_gap h, map_text_lexemesFrom]

/-- The tokens of a text in brackets are those of the text between the two brackets. -/
theorem tokens_group (body : List Char) :
    tokens ('(' :: (body ++ [')'])) = ['('] :: (tokens body ++ [[')']]) := by
  rw [tokens_bracket rfl rfl, tokens_append (cutsBetween_cons rfl body []), tokens_bracket rfl rfl,
    tokens_nil]

end ExprCalculus

import Mathlib
import ExprCalculus.Proofs.Layout

/-!
# Moves of a cursor in any order

A cursor hands out the next lexeme, tells whether only a gap is left, or hands out all lexemes that
are left. The three may follow each other in any order. A move hands out the lexemes that it passes
and goes no further, so what has been handed out and what lies ahead are together the lexemes of the
text. That is the invariant of every run; the places of the cursor are read off it.
-/

namespace ExprCalculus

namespace Cursor

/-- The lexemes have been handed out, and the cursor stands in the text behind them. -/
structure Took (text : List Char) (taken : List Excerpt) (cursor : Cursor) : Prop where
  lexemeStart_le : cursor.lexemeStart ≤ cursor.pos
  pos_le : cursor.pos ≤ text.length
  rest_eq : cursor.rest = text.drop cursor.pos
  lexemes_eq : taken ++ cursor.lexemes = ExprCalculus.lexemes text

variable {text : List Char} {taken : List Excerpt} {cursor : Cursor}

/-! ## One move -/

/-- Only a gap is left exactly when no lexeme is. -/
theorem lexemes_eq_nil_iff (cursor : Cursor) :
    cursor.lexemes = [] ↔ ∀ c ∈ cursor.rest, isGap c = true := by
  constructor
  · intro none
    rcases cursor.next_cases with ⟨gap, -⟩ | ⟨gap, l, rest, -, -, -, some⟩
    · exact gap
    · rw [lexemes_of_next_some some] at none
      cases none
  · intro gap
    have h := lexemesFrom_of_gap gap cursor.pos []
    rw [List.append_nil, lexemesFrom_nil] at h
    rw [lexemes_eq, h]

/-- A cursor says that it is at the end iff no lexeme is left to it. -/
theorem fst_atEnd_eq_true_iff (cursor : Cursor) : cursor.atEnd.1 = true ↔ cursor.lexemes = [] := by
  rw [lexemes_eq_nil_iff, atEnd, List.isEmpty_iff, skipGap, List.dropWhile_eq_nil_iff]

/-- A part of what is left lies between the cursor and the place behind the part. -/
theorem Took.behind {front rest : List Char} (h : Took text taken cursor)
    (split : cursor.rest = front ++ rest) :
    cursor.pos + front.length ≤ text.length ∧ rest = text.drop (cursor.pos + front.length) := by
  have split' : text.drop cursor.pos = front ++ rest := h.rest_eq ▸ split
  have length := congrArg List.length split'
  rw [List.length_drop, List.length_append] at length
  have le := h.pos_le
  refine ⟨by omega, ?_⟩
  rw [← List.drop_drop, split', List.drop_left]

/-- A cursor that has moved over its text is exhausted at the end of the text. -/
theorem Took.exhausted (h : Took text taken cursor) :
    cursor.exhausted = ⟨[], text.length, text.length⟩ := by
  have stop : cursor.pos + cursor.rest.length = text.length := by
    have le := h.pos_le
    rw [h.rest_eq, List.length_drop]
    omega
  rw [Cursor.exhausted, stop]

/-- What a move does: it hands out the lexemes that it passes, and never goes back. -/
theorem Took.move (h : Took text taken cursor) (m : Move) :
    Took text (taken ++ (cursor.move m).1) (cursor.move m).2 ∧
      cursor.pos ≤ (cursor.move m).2.pos := by
  have finished {more : List Excerpt} (all : more = cursor.lexemes) :
      Took text (taken ++ more) cursor.exhausted ∧ cursor.pos ≤ cursor.exhausted.pos := by
    refine ⟨⟨le_rfl, ?_, ?_, ?_⟩, Nat.le_add_right _ _⟩
    · rw [h.exhausted]
    · rw [h.exhausted, List.drop_length]
    · rw [lexemes_exhausted, List.append_nil, all, h.lexemes_eq]
  cases m with
  | next =>
    rcases cursor.next_cases with ⟨-, none⟩ | ⟨gap, l, rest, -, split, start_eq, some⟩
    · simp only [Cursor.move, none]
      exact finished (lexemes_of_next_none none).symm
    · have ahead := lexemes_of_next_some some
      have stop_eq : l.stop = cursor.pos + (gap ++ l.text).length := by
        rw [Excerpt.stop, start_eq, List.length_append, Nat.add_assoc]
      rw [← List.append_assoc] at split
      obtain ⟨le, rest_eq⟩ := h.behind split
      rw [← stop_eq] at le rest_eq
      simp only [Cursor.move, some]
      refine ⟨⟨Nat.le_add_right _ _, le, rest_eq, ?_⟩, ?_⟩
      · rw [← h.lexemes_eq, ahead]
        simp
      · rw [stop_eq]
        exact Nat.le_add_right _ _
  | atEnd =>
    have split := List.takeWhile_append_dropWhile (p := isGap) (l := cursor.rest)
    have gap : ∀ c ∈ cursor.rest.takeWhile isGap, isGap c = true :=
      fun c hc => List.mem_takeWhile_imp hc
    obtain ⟨le, rest_eq⟩ := h.behind split.symm
    have ahead : cursor.skipGap.lexemes = cursor.lexemes := by
      rw [Cursor.lexemes_eq, Cursor.lexemes_eq cursor, skipGap, ← lexemesFrom_of_gap gap, split]
    have onward : cursor.pos ≤ cursor.skipGap.pos := Nat.le_add_right _ _
    refine ⟨⟨h.lexemeStart_le.trans onward, le, rest_eq, ?_⟩, onward⟩
    simp only [Cursor.move, atEnd, List.append_nil]
    rw [ahead, h.lexemes_eq]
  | rest => exact finished rfl

/-! ## A run of moves -/

theorem took_ofText (text : List Char) : Took text [] (ofText text) :=
  ⟨le_rfl, Nat.zero_le _, rfl, rfl⟩

/-- Moves keep what a cursor has taken from its text, and never move it back. -/
theorem Took.moves (h : Took text taken cursor) (ms : List Move) :
    Took text (taken ++ (cursor.moves ms).1) (cursor.moves ms).2 ∧
      cursor.pos ≤ (cursor.moves ms).2.pos := by
  induction ms generalizing taken cursor with
  | nil =>
    refine ⟨?_, le_rfl⟩
    simpa [Cursor.moves] using h
  | cons m ms ih =>
    obtain ⟨step, onward⟩ := h.move m
    obtain ⟨run, further⟩ := ih step
    refine ⟨?_, onward.trans further⟩
    rwa [List.append_assoc] at run

/-- At the end of the text a cursor stays as it is. -/
theorem moves_at_end (n : Nat) (ms : List Move) :
    (⟨[], n, n⟩ : Cursor).moves ms = ([], ⟨[], n, n⟩) := by
  induction ms with
  | nil => rfl
  | cons m ms ih =>
    have stays : (⟨[], n, n⟩ : Cursor).move m = ([], ⟨[], n, n⟩) := by
      cases m with
      | next => rfl
      | atEnd => rfl
      | rest => exact Prod.ext (lexemesFrom_nil n) rfl
    rw [Cursor.moves, stays, ih]
    rfl

/-- Taking all lexemes that are left is taking the next one until there is none. -/
theorem move_rest_eq_moves_next (cursor : Cursor) :
    cursor.move .rest = cursor.moves (.replicate (cursor.lexemes.length + 1) .next) := by
  induction hn : cursor.lexemes.length generalizing cursor with
  | zero =>
    have none := List.eq_nil_of_length_eq_zero hn
    rcases cursor.next_cases with ⟨-, next⟩ | ⟨gap, l, rest, -, -, -, next⟩
    · simp [Cursor.moves, Cursor.move, next, none]
    · rw [lexemes_of_next_some next] at none
      cases none
  | succ n ih =>
    rcases cursor.next_cases with ⟨-, next⟩ | ⟨gap, l, rest, -, split, start_eq, next⟩
    · rw [lexemes_of_next_none next] at hn
      cases hn
    · have ahead := lexemes_of_next_some next
      have same_end : (⟨rest, l.stop, l.start⟩ : Cursor).exhausted = cursor.exhausted := by
        simp only [Cursor.exhausted, split, Excerpt.stop, start_eq, List.length_append,
          Nat.add_assoc]
      rw [ahead, List.length_cons, Nat.add_right_cancel_iff] at hn
      have rest_eq := ih (cursor.move .next).2 (by simpa [Cursor.move, next] using hn)
      rw [List.replicate_succ, Cursor.moves, ← rest_eq]
      simp [Cursor.move, next, ahead, same_end]

end Cursor

open Cursor

/-- However a cursor is used, it stays in its text, never goes back, and hands out the tokens of the
text one after another. It finds itself at the end exactly when all have been handed out, and once
it has found none it stays there. A lexeme that it has just found stands between its places. -/
theorem moves_ofText (text : List Char) (ms : List Move) :
    let taken := ((ofText text).moves ms).1
    let cursor := ((ofText text).moves ms).2
    (cursor.lexemeStart ≤ cursor.pos ∧ cursor.pos ≤ text.length) ∧
    (∀ later, cursor.pos ≤ (cursor.moves later).2.pos) ∧
    taken.map Excerpt.text <+: tokens text ∧
    (cursor.atEnd.1 = true ↔ taken.map Excerpt.text = tokens text) ∧
    (cursor.next.1 = none → ∀ later,
      let last := (cursor.next.2.moves later).2
      last.next = (none, last) ∧ last.pos = text.length ∧ last.lexemeStart = text.length) ∧
    (∀ l, cursor.next.1 = some l →
      .between text cursor.next.2.lexemeStart cursor.next.2.pos = l) ∧
    cursor.move .rest = cursor.moves (.replicate (cursor.lexemes.length + 1) .next) := by
  intro taken cursor
  obtain ⟨took, -⟩ := (took_ofText text).moves ms
  replace took : Took text taken cursor := took
  refine ⟨⟨took.lexemeStart_le, took.pos_le⟩, fun later => (took.moves later).2, ?_, ?_, ?_, ?_,
    move_rest_eq_moves_next cursor⟩
  · rw [tokens, ← took.lexemes_eq, List.map_append]
    exact List.prefix_append _ _
  · rw [fst_atEnd_eq_true_iff, tokens, ← took.lexemes_eq, List.map_append,
      List.self_eq_append_right, List.map_eq_nil_iff]
  · intro none later
    have finished : cursor.next.2 = cursor.exhausted :=
      eq_exhausted_of_next_none (Prod.ext none rfl)
    rw [finished, took.exhausted, moves_at_end]
    exact ⟨rfl, rfl, rfl⟩
  · intro l found
    have next : cursor.next = (some l, cursor.next.2) := Prod.ext found rfl
    obtain ⟨start_eq, stop_eq⟩ := places_of_next_some next
    have ahead : cursor.lexemes = l :: cursor.next.2.lexemes := lexemes_of_next_some next
    have mem : l ∈ lexemes text := by
      rw [← took.lexemes_eq, ahead]
      simp
    rw [start_eq, stop_eq, ← (standsIn_of_mem_lexemes mem).eq_between]

/-- A look for the end does not lose the bracket in `a(` behind a gap, and nothing is found once all
has been taken. -/
theorem moves_ofText_of_word_and_bracket :
    let text := [' ', 'a', ' ', '(', '\n']
    Excerpt.between text 3 4 = ⟨['('], 3⟩ ∧
      (((ofText text).moves [.atEnd, .next, .atEnd, .rest]).2.next.2.moves [.next, .atEnd]).2.pos =
        5 := by
  obtain ⟨-, -, -, -, -, found, -⟩ :=
    moves_ofText [' ', 'a', ' ', '(', '\n'] [.atEnd, .next, .atEnd]
  obtain ⟨-, -, -, -, finished, -, -⟩ :=
    moves_ofText [' ', 'a', ' ', '(', '\n'] [.atEnd, .next, .atEnd, .rest]
  exact ⟨found ⟨['('], 3⟩ rfl, (finished rfl [.next, .atEnd]).2.1⟩

end ExprCalculus

import Mathlib
import ExprCalculus.Text.Words

/-!
# How a bracket-free text is cut

A text is a blank or a longest word, and then the rest. One equation per step computes the words;
from them comes that a text may be cut wherever a blank follows.
-/

namespace ExprCalculus

theorem isInk_eq_false_iff {c : Char} : isInk c = false ↔ isBlank c = true := by
  rw [isInk, Bool.not_eq_false']

/-- Between the brackets and the end of the letters there are no blanks. -/
theorem isInk_of_bounds {c : Char} (low : 43 ≤ c.toNat) (high : c.toNat ≤ 122) :
    isInk c = true := by
  simp only [isInk, isBlank, Bool.not_eq_true', Bool.or_eq_false_iff, Bool.and_eq_false_iff,
    decide_eq_false_iff_not, beq_eq_false_iff_ne]
  omega

@[simp] theorem words_nil : words [] = [] := by
  rw [words]
  rfl

theorem words_blank {c : Char} (h : isBlank c = true) (cs : List Char) :
    words (c :: cs) = words cs := by
  have skip : (c :: cs).dropWhile isBlank = cs.dropWhile isBlank := List.dropWhile_cons_of_pos h
  rw [words, words.eq_def cs, skip]

/-- A word, and then nothing or a blank. -/
theorem words_word {w cs : List Char} (nonempty : w ≠ []) (hw : ∀ c ∈ w, isInk c = true)
    (hcs : ∀ c ∈ cs.head?, isInk c = false) : words (w ++ cs) = w :: words cs := by
  obtain ⟨c, w, rfl⟩ := List.exists_cons_of_ne_nil nonempty
  have start : (c :: (w ++ cs)).dropWhile isBlank = c :: (w ++ cs) := by
    rw [List.dropWhile_cons_of_neg]
    simpa [isInk] using hw c List.mem_cons_self
  have rest : ∀ d ∈ w, isInk d = true := fun d hd => hw d (List.mem_cons_of_mem _ hd)
  have stop : cs.takeWhile isInk = [] ∧ cs.dropWhile isInk = cs := by
    cases cs with
    | nil => exact ⟨rfl, rfl⟩
    | cons d cs => simp [hcs d rfl]
  rw [List.cons_append, words, start]
  simp [List.takeWhile_append_of_pos rest, List.dropWhile_append_of_pos rest, stop]

theorem words_of_blanks {cs : List Char} (h : ∀ c ∈ cs, isBlank c = true) : words cs = [] := by
  induction cs with
  | nil => exact words_nil
  | cons c cs ih =>
    rw [words_blank (h c List.mem_cons_self), ih fun d hd => h d (List.mem_cons_of_mem _ hd)]

/-- A text is nothing, or it begins with a blank or a longest word. -/
theorem wording_induction {motive : List Char → Prop} (nil : motive [])
    (blank : ∀ c cs, isBlank c = true → motive cs → motive (c :: cs))
    (word : ∀ w cs, w ≠ [] → (∀ c ∈ w, isInk c = true) →
      (∀ c ∈ cs.head?, isInk c = false) → motive cs → motive (w ++ cs))
    (text : List Char) : motive text := by
  induction h : text.length using Nat.strong_induction_on generalizing text with
  | _ n ih =>
    cases text with
    | nil => exact nil
    | cons c cs =>
      simp only [List.length_cons] at h
      by_cases hb : isBlank c = true
      · exact blank c cs hb (ih cs.length (by omega) cs rfl)
      · have shorter := (List.dropWhile_suffix isInk (l := cs)).length_le
        have rest := ih (cs.dropWhile isInk).length (by omega) _ rfl
        have whole := word (c :: cs.takeWhile isInk) (cs.dropWhile isInk) (List.cons_ne_nil _ _)
          ?_ ?_ rest
        · rwa [List.cons_append, List.takeWhile_append_dropWhile] at whole
        · intro d hd
          rcases List.mem_cons.mp hd with rfl | hd
          · simpa [isInk] using hb
          · exact List.mem_takeWhile_imp hd
        · intro d hd
          have head := List.head?_dropWhile_not isInk cs
          rw [Option.mem_def.mp hd] at head
          simpa using head

/-- The words of a text that is cut in front of a blank are those of its two parts. -/
theorem words_append {a b : List Char} (cut : ∀ c ∈ b.head?, isInk c = false) :
    words (a ++ b) = words a ++ words b := by
  induction a using wording_induction with
  | nil => rw [words_nil, List.nil_append, List.nil_append]
  | blank c cs h ih => rw [List.cons_append, words_blank h, words_blank h, ih]
  | word w cs nonempty hw hcs ih =>
    have first : ∀ c ∈ (cs ++ b).head?, isInk c = false := by
      intro c hc
      cases cs with
      | nil => exact cut c hc
      | cons d cs => exact hcs c hc
    rw [List.append_assoc, words_word nonempty hw first, words_word nonempty hw hcs, ih,
      List.cons_append]

/-- Blanks in front of a text and behind it are no part of its words. -/
theorem words_between_blanks {before text after : List Char}
    (hbefore : ∀ c ∈ before, isBlank c = true) (hafter : ∀ c ∈ after, isBlank c = true) :
    words (before ++ (text ++ after)) = words text := by
  have front : words (before ++ (text ++ after)) = words (text ++ after) := by
    induction before with
    | nil => rfl
    | cons c cs ih =>
      rw [List.cons_append, words_blank (hbefore c List.mem_cons_self)]
      exact ih fun d hd => hbefore d (List.mem_cons_of_mem _ hd)
  have cut : ∀ c ∈ after.head?, isInk c = false := fun c hc =>
    isInk_eq_false_iff.mpr (hafter c (List.mem_of_mem_head? hc))
  rw [front, words_append cut, words_of_blanks hafter, List.append_nil]

theorem words_of_word {w : List Char} (nonempty : w ≠ []) (hw : ∀ c ∈ w, isInk c = true) :
    words w = [w] := by
  have h : words (w ++ []) = _ := words_word nonempty hw (by simp)
  rwa [List.append_nil, words_nil] at h

end ExprCalculus

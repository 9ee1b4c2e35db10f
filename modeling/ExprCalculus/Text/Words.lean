import ExprCalculus.Text.Blank

/-!
# Words between blanks

A bracket-free text is a stream of words: the longest runs of characters that are no blanks.
-/

namespace ExprCalculus

/-- Is the character part of a word of a bracket-free text? -/
def isInk (c : Char) : Bool := !isBlank c

/-- The words of a text, in order. -/
def words (text : List Char) : List (List Char) :=
  match _h : text.dropWhile isBlank with
  | [] => []
  | c :: rest => (c :: rest.takeWhile isInk) :: words (rest.dropWhile isInk)
termination_by text.length
decreasing_by
  have shorter := (List.dropWhile_suffix isBlank (l := text)).length_le
  have rest_shorter := (List.dropWhile_suffix isInk (l := rest)).length_le
  rw [_h, List.length_cons] at shorter
  omega

end ExprCalculus

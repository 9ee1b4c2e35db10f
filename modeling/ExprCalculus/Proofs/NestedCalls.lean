import Mathlib
import ExprCalculus.NestingLimit
import ExprCalculus.Proofs.Descent
import ExprCalculus.Proofs.RoundTrip
import ExprCalculus.Proofs.Traversal

/-!
# How deep calls are nested

How large a limit on nested calls has to be is told by depths. The depth of an expression is what a
computation on it needs, no more and no less. A descent needs what the brackets of its text ask for:
`FitsIn` follows the brackets only, where an opening one takes up room and a closing one gives it
back. A text in which they fit is read with the limit as it is without, and the brackets around an
expression fit in with its depth.
-/

namespace ExprCalculus

namespace Expr

/-! ## Depths -/

theorem depth_pos (e : Expr) : 0 < e.depth := by
  have nonempty : e.level 0 ≠ [] := List.cons_ne_nil _ _
  exact (level_ne_nil_iff e 0).mp nonempty

theorem depth_app_le_iff {op : Op} {es : List Expr} {n : Nat} :
    (app op es).depth ≤ n + 1 ↔ ∀ e ∈ es, e.depth ≤ n := by
  have deeper : n < (es.map depth).max?.getD 0 ↔ ∃ e ∈ es, n < e.depth := by
    rw [lt_max?_getD_iff]
    simp only [List.mem_map, exists_exists_and_eq_and]
  rw [depth_app, Nat.add_comm, Nat.add_le_add_iff_right, ← not_lt, deeper]
  simp only [not_exists, not_and, not_lt]

/-! ## Computing from the leaves up -/

/-- Values that are there under a condition are all there if all conditions hold. -/
theorem mapM_ite {β γ : Type} {p : β → Prop} [DecidablePred p] {g : β → γ} (bs : List β) :
    (bs.mapM fun b => if p b then some (g b) else none) =
      if ∀ b ∈ bs, p b then some (bs.map g) else none := by
  induction bs with
  | nil => simp
  | cons b bs ih =>
    rw [List.mapM_cons, ih, if_congr List.forall_mem_cons rfl rfl]
    by_cases head : p b
    · by_cases tail : ∀ c ∈ bs, p c
      · rw [if_pos head, if_pos tail, if_pos ⟨head, tail⟩]
        rfl
      · have fails : ¬ (p b ∧ ∀ c ∈ bs, p c) := fun all => tail all.2
        rw [if_pos head, if_neg tail, if_neg fails]
        rfl
    · have fails : ¬ (p b ∧ ∀ c ∈ bs, p c) := fun all => head all.1
      rw [if_neg head, if_neg fails]
      rfl

/-- The limit is enough exactly when it is at least the depth. -/
theorem foldWithin_eq {α : Type} (const : Double → α) (var : Variable → α) (app : Op → List α → α)
    (limit : Nat) (e : Expr) : foldWithin const var app limit e =
    if e.depth ≤ limit then some (fold const var app e) else none := by
  induction limit generalizing e with
  | zero =>
    have := e.depth_pos
    rw [foldWithin, if_neg (by omega)]
  | succ limit ih =>
    cases e with
    | const value => simp [foldWithin]
    | var v => simp [foldWithin]
    | app op es =>
      rw [foldWithin, funext ih, mapM_ite, fold_app]
      simp only [depth_app_le_iff]
      split
      · rfl
      · rfl

end Expr

/-! ## Room for brackets -/

/-- With room for a number of groups, no opening bracket among the tokens finds no room left. -/
def FitsIn : Nat → List (List Char) → Prop
  | _, [] => True
  | room, w :: ws =>
    if w = ['('] then 0 < room ∧ FitsIn (room - 1) ws
    else if w = [')'] then FitsIn (room + 1) ws
    else FitsIn room ws

section FitsIn

variable {room : Nat} {w : List Char} {ws : List (List Char)}

theorem fitsIn_opening : FitsIn (room + 1) (['('] :: ws) ↔ FitsIn room ws := by
  simp [FitsIn]

theorem not_fitsIn_opening : ¬ FitsIn 0 (['('] :: ws) := by
  simp [FitsIn]

theorem fitsIn_closing : FitsIn room ([')'] :: ws) ↔ FitsIn (room + 1) ws := by
  simp [FitsIn]

theorem fitsIn_word (opening : w ≠ ['(']) (closing : w ≠ [')']) :
    FitsIn room (w :: ws) ↔ FitsIn room ws := by
  simp [FitsIn, opening, closing]

end FitsIn

variable {mode : Mode}

/-- The spellings of an expression fit in, and leave the room that there was. -/
def SpellingsFit (mode : Mode) (e : Expr) : Prop :=
  ∀ {words : List (List Char)}, Spells mode e words → ∀ {room : Nat}, e.depth ≤ room →
    ∀ {rest : List (List Char)}, FitsIn room rest → FitsIn room (words ++ rest)

/-- The words of operands that fit leave the room for the rest as it was. -/
theorem fitsIn_of_spellsAll {es : List Expr} (each : ∀ e ∈ es, SpellingsFit mode e)
    {words : List (List Char)} (h : SpellsAll mode es words) {room : Nat}
    (shallow : ∀ e ∈ es, e.depth ≤ room) {rest : List (List Char)} (fits : FitsIn room rest) :
    FitsIn room (words ++ rest) := by
  induction es generalizing words with
  | nil =>
    cases h
    exact fits
  | cons e es ih =>
    cases h with
    | cons head tail =>
      have behind := ih (fun f hf => each f (List.mem_cons_of_mem _ hf)) tail
        (fun f hf => shallow f (List.mem_cons_of_mem _ hf))
      rw [List.append_assoc]
      exact each e List.mem_cons_self head (shallow e List.mem_cons_self) behind

theorem fitsIn_symbol {op : Op} {room : Nat} {ws : List (List Char)} :
    FitsIn room (op.symbol :: ws) ↔ FitsIn room ws := by
  refine fitsIn_word ?_ ?_
  · cases op <;> decide
  · cases op <;> decide

/-- An expression takes up as much room as it is deep. -/
theorem spellingsFit (e : Expr) : SpellingsFit mode e := by
  induction e with
  | const value =>
    intro words h room shallow rest fits
    cases h with
    | @const word _ number =>
      have opening : word ≠ ['('] := by rintro rfl; cases number
      have closing : word ≠ [')'] := by rintro rfl; cases number
      exact (fitsIn_word opening closing).mpr fits
  | var v =>
    intro words h room shallow rest fits
    cases h
    refine (fitsIn_word ?_ ?_).mpr fits
    · cases v <;> decide
    · cases v <;> decide
  | app op es ih =>
    intro words h room shallow rest fits
    cases h with
    | @app _ _ words count operands =>
      obtain ⟨room, rfl⟩ : ∃ inner, room = inner + 1 :=
        ⟨room - 1, by have := (Expr.app op es).depth_pos; omega⟩
      have closed : FitsIn room ([')'] :: rest) := fitsIn_closing.mpr fits
      have inside {rest : List (List Char)} : FitsIn room rest → FitsIn room (words ++ rest) :=
        fitsIn_of_spellsAll ih operands (Expr.depth_app_le_iff.mp shallow)
      rw [List.cons_append, fitsIn_opening, List.append_assoc, List.singleton_append]
      cases mode with
      | pre => exact fitsIn_symbol.mpr (inside closed)
      | post =>
        rw [Mode.order, List.append_assoc]
        exact inside (fitsIn_symbol.mpr closed)

/-- The tokens that are left. -/
def Cursor.tokens (cursor : Cursor) : List (List Char) := cursor.lexemes.map Excerpt.text

theorem Cursor.tokens_of_next_some {cursor after : Cursor} {l : Excerpt}
    (h : cursor.next = (some l, after)) : cursor.tokens = l.text :: after.tokens := by
  rw [tokens, lexemes_of_next_some h, List.map_cons, tokens]

namespace Bracketed

/-! ## The limit is not reached -/

/-- What is computed with a limit is what is computed without, and a result has the property. -/
inductive Unlimited {α : Type} (P : α → Prop) : Except Overrun α → Except Breakdown α → Prop where
  | ok {a : α} (h : P a) : Unlimited P (.ok a) (.ok a)
  | breakdown (cause : Breakdown) : Unlimited P (.error (.breakdown cause)) (.error cause)

namespace Unlimited

variable {α β : Type} {P : α → Prop} {Q : β → Prop}

/-- A computation that never overruns has the result of the unlimited one. -/
theorem eq_mapError {x : Except Overrun α} {y : Except Breakdown α} (h : Unlimited P x y) :
    x = y.mapError .breakdown := by
  cases h with
  | ok h => rfl
  | breakdown cause => rfl

theorem of_mapError (y : Except Breakdown α) :
    Unlimited (fun _ => True) (y.mapError .breakdown) y := by
  cases y with
  | error cause => exact .breakdown cause
  | ok a => exact .ok trivial

/-- Two steps that never overrun do not overrun one after the other. -/
theorem bind {x : Except Overrun α} {y : Except Breakdown α} {f : α → Except Overrun β}
    {g : α → Except Breakdown β} (h : Unlimited P x y) (each : ∀ a, P a → Unlimited Q (f a) (g a)) :
    Unlimited Q (x >>= f) (y >>= g) := by
  cases h with
  | ok h => exact each _ h
  | breakdown cause => exact .breakdown cause

end Unlimited

variable {text : List Char}

/-- An element is checked and collected as without a limit if the rest behind it is read so. -/
theorem Unlimited.collect {limit : Nat} {cursor behind : Cursor} (follows : behind.Follows cursor)
    {start : Nat} {elements : List Element} (element : Element)
    (rest : Unlimited (fun found => FitsIn (limit + 1) found.2.1.tokens)
      (readGroupWithin limit mode text start (elements ++ [element]) behind)
      (readGroup mode text start (elements ++ [element]) behind)) :
    Unlimited (fun found : Expr × {after : Cursor // after.Follows cursor} =>
        FitsIn (limit + 1) found.2.1.tokens)
      (do
        (checkElement mode elements element).mapError .breakdown
        let (e, final) ← readGroupWithin limit mode text start (elements ++ [element]) behind
        .ok (e, ⟨final, final.2.trans follows⟩))
      (do
        checkElement mode elements element
        let (e, final) ← readGroup mode text start (elements ++ [element]) behind
        .ok (e, ⟨final, final.2.trans follows⟩)) := by
  refine (of_mapError _).bind fun _ _ => rest.bind ?_
  rintro ⟨e, final⟩ fits
  exact .ok fits

/-- Where the brackets that are left fit in, the rest of a group is read as without a limit, and
behind the group there is room for one group more. By induction on what is left of the text. -/
theorem unlimited_readGroupWithin {limit : Nat} {cursor : Cursor} (fits : FitsIn limit cursor.tokens)
    (start : Nat) (elements : List Element) :
    Unlimited (fun found => FitsIn (limit + 1) found.2.1.tokens)
      (readGroupWithin limit mode text start elements cursor)
      (readGroup mode text start elements cursor) := by
  induction hn : cursor.rest.length using Nat.strong_induction_on
    generalizing cursor limit start elements with
  | _ n ih =>
    subst hn
    -- Both look at the lexeme that is next, and have the same one.
    rw [readGroup]
    split <;> rename_i next <;> rw [readGroupWithin] <;> split <;> rename_i next' <;>
      cases next.symm.trans next'
    · exact .breakdown _
    · rename_i l after
      have follows := Cursor.follows_of_next next
      rw [Cursor.tokens_of_next_some next] at fits
      by_cases closing : l.text = [')']
      · rw [closing, fitsIn_closing] at fits
        rw [if_pos closing, if_pos closing]
        exact (Unlimited.of_mapError _).bind fun e _ => .ok fits
      rw [if_neg closing, if_neg closing]
      by_cases opening : l.text = ['(']
      · rw [if_pos opening, if_pos opening]
        rw [opening] at fits
        cases limit with
        | zero => exact absurd fits not_fitsIn_opening
        | succ limit =>
          have inside := ih _ follows.shorter (fitsIn_opening.mp fits) l.start [] rfl
          refine inside.bind ?_
          rintro ⟨inner, behind, behind_follows⟩ fits_behind
          have behind_cursor := behind_follows.trans follows
          exact .collect behind_cursor _ (ih _ behind_cursor.shorter fits_behind start _ rfl)
      · rw [if_neg opening, if_neg opening]
        rw [fitsIn_word opening closing] at fits
        exact .collect follows _ (ih _ follows.shorter fits start _ rfl)

/-- Reading within a limit that the tokens fit in is reading without a limit. -/
theorem unlimited_readExpressionWithin {limit : Nat} {cursor : Cursor}
    (fits : FitsIn limit cursor.tokens) :
    Unlimited (fun _ => True) (readExpressionWithin limit mode text cursor)
      (readExpression mode text cursor) := by
  rw [readExpressionWithin, readExpression]
  rcases next : cursor.next with ⟨_ | l, after⟩
  · exact .breakdown _
  · dsimp only
    by_cases opening : l.text = ['(']
    · rw [if_pos opening, if_pos opening]
      rw [Cursor.tokens_of_next_some next, opening] at fits
      cases limit with
      | zero => exact absurd fits not_fitsIn_opening
      | succ limit =>
        refine (unlimited_readGroupWithin (fitsIn_opening.mp fits) l.start []).bind ?_
        rintro ⟨e, behind⟩ -
        exact .ok trivial
    · rw [if_neg opening, if_neg opening]
      cases leaf? l.text with
      | some e => exact .ok trivial
      | none => exact .breakdown _

/-- A text in which the brackets fit is read by descent as without a limit. -/
theorem descendWithin_eq {limit : Nat} (fits : FitsIn limit (tokens text)) :
    descendWithin limit mode text = (descend mode text).mapError .breakdown := by
  have expression : Unlimited (fun _ => True) (readExpressionWithin limit mode text (.ofText text))
      (readExpression mode text (.ofText text)) := unlimited_readExpressionWithin fits
  refine Unlimited.eq_mapError (P := fun _ => True) (expression.bind ?_)
  rintro ⟨e, cursor⟩ -
  dsimp only
  cases cursor.next.1 with
  | some l => exact .breakdown _
  | none => exact .ok trivial

end Bracketed

/-- The brackets of an expression's text fit in with its depth. -/
theorem fitsIn_bracketed {e : Expr} (h : e.WellFormed) (mode : Mode) {limit : Nat}
    (shallow : e.depth ≤ limit) : FitsIn limit (tokens (e.bracketed mode)) := by
  have fits : FitsIn limit (tokens (e.bracketed mode) ++ []) :=
    spellingsFit e (e.spells_bracketed mode h) shallow trivial
  rwa [List.append_nil] at fits

/-- No more calls are nested than the limit allows when the expression is evaluated, when its texts
are written, and when one of the bracketed texts is read back by descent. -/
structure Expr.ComputedWithin (limit : Nat) (e : Expr) : Prop where
  eval : ∀ {α : Type} (A : Arithmetic α) (point : Variable → α),
    e.evalWithin limit A point = some (e.eval A point)
  bracketed : ∀ mode, e.bracketedWithin limit mode = some (e.bracketed mode)
  flat : e.flatWithin limit = some e.flat
  descend : ∀ mode, Bracketed.descendWithin limit mode (e.bracketed mode) = .ok e

/-- An expression is computed with within a limit that is at least its depth. -/
theorem Expr.WellFormed.computedWithin {e : Expr} (h : e.WellFormed) {limit : Nat}
    (shallow : e.depth ≤ limit) : e.ComputedWithin limit where
  eval A point := by
    rw [evalWithin, foldWithin_eq, if_pos shallow, Expr.eval]
  bracketed mode := by
    rw [bracketedWithin, foldWithin_eq, if_pos shallow, Expr.bracketed]
  flat := by
    rw [flatWithin, foldWithin_eq, if_pos shallow, Expr.flat]
  descend mode := by
    rw [Bracketed.descendWithin_eq (fitsIn_bracketed h mode shallow), Bracketed.descend_eq,
      parseBracketed_of_spells (e.spells_bracketed mode h)]
    rfl

/-- Two groups, one inside the other, need room for two. -/
example : Bracketed.descendWithin 1 .pre
    (Expr.app .negate [.app .negate [.var .x]] |>.bracketed .pre) = .error .tooDeep := by
  cbv

end ExprCalculus

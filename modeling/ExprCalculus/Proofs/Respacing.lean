import Mathlib
import ExprCalculus.Proofs.Descent

/-!
# Texts with the same tokens

Two texts with the same tokens may differ in their gaps, and so in the places of their tokens. The
reader does not see the difference: it accepts both as the same expression, or it rejects both for
the same cause. What the two rejections name is then the same token, or a group that has the same
tokens in both texts, and they point at the same token, behind the same token, or at the end.

The two readers are run side by side. Their states are alike after as many lexemes, and one lexeme
of each text, in the same place among the tokens, keeps them so or makes both reject alike.
-/

namespace ExprCalculus

variable {s t : List Char} {mode : Mode}

/-! ## What is alike in two texts -/

/-- The lexemes have the same place among the lexemes of their texts, and are the same token. -/
def SameLexeme (s t : List Char) (a b : Excerpt) : Prop :=
  ∃ k : Nat, (lexemes s)[k]? = some a ∧ (lexemes t)[k]? = some b ∧ a.text = b.text

/-- The excerpts are the same lexeme, or each is the group from the same opening bracket to the same
closing one, and they have the same tokens. -/
inductive SameElement (s t : List Char) : Excerpt → Excerpt → Prop where
  | lexeme {a b : Excerpt} (same : SameLexeme s t a b) : SameElement s t a b
  | group {opening closing opening' closing' : Excerpt} (opens : SameLexeme s t opening opening')
      (closes : SameLexeme s t closing closing') (hopening : opening.text = ['('])
      (hclosing : closing.text = [')'])
      (tokens_eq : tokens (Excerpt.between s opening.start closing.stop).text =
        tokens (Excerpt.between t opening'.start closing'.stop).text) :
      SameElement s t (.between s opening.start closing.stop)
        (.between t opening'.start closing'.stop)

/-- The rejections have the same cause and the same counts, and name the same. What they name begins
where they point. Only a symbol in front of a wrong number of operands ends there, and one behind
them is named at the bracket of its group. At the end of a text nothing is named. -/
inductive Rejection.Alike (s t : List Char) : Mode → Rejection → Rejection → Prop where
  | strayToken {mode : Mode} {a b : Excerpt} (same : SameLexeme s t a b) :
      Alike s t mode (.strayToken a) (.strayToken b)
  | notAnOperation {mode : Mode} {a b : Excerpt} (same : SameElement s t a b) :
      Alike s t mode (.notAnOperation a) (.notAnOperation b)
  | misplacedWord {mode : Mode} {a b : Excerpt} (same : SameLexeme s t a b) :
      Alike s t mode (.misplacedWord a) (.misplacedWord b)
  | countBehindSymbol {a b : Excerpt} (same : SameLexeme s t a b) (expected found : Nat) :
      Alike s t .pre (.operandCount a.text a.stop expected found)
        (.operandCount b.text b.stop expected found)
  | countAtBracket {opening opening' : Excerpt} (opens : SameLexeme s t opening opening')
      (hopening : opening.text = ['(']) (symbol : List Char) (expected found : Nat) :
      Alike s t .post (.operandCount symbol opening.start expected found)
        (.operandCount symbol opening'.start expected found)
  | endOfText {mode : Mode} (awaited : Awaited) :
      Alike s t mode (.endOfText s.length awaited) (.endOfText t.length awaited)
  | trailing {mode : Mode} {a b : Excerpt} (same : SameLexeme s t a b) :
      Alike s t mode (.trailing a) (.trailing b)

/-- Both results are errors or none is, and they are related as errors or as values. -/
inductive Agree {ε α : Type} (E : ε → ε → Prop) (V : α → α → Prop) :
    Except ε α → Except ε α → Prop where
  | ok {a b : α} (h : V a b) : Agree E V (.ok a) (.ok b)
  | error {q r : ε} (h : E q r) : Agree E V (.error q) (.error r)

/-- Results that agree still agree after a step that keeps the agreement. -/
theorem Agree.bind {ε α β : Type} {E : ε → ε → Prop} {V : α → α → Prop} {W : β → β → Prop}
    {x y : Except ε α} {f g : α → Except ε β} (h : Agree E V x y)
    (each : ∀ a b, V a b → Agree E W (f a) (g b)) : Agree E W (x.bind f) (y.bind g) := by
  cases h with
  | ok h => exact each _ _ h
  | error h => exact .error h

theorem Agree.map {ε α β : Type} {E : ε → ε → Prop} {V : α → α → Prop} {W : β → β → Prop}
    {x y : Except ε α} {f g : α → β} (h : Agree E V x y)
    (each : ∀ a b, V a b → W (f a) (g b)) : Agree E W (x.map f) (y.map g) := by
  cases h with
  | ok h => exact .ok (each _ _ h)
  | error h => exact .error h

/-! ## The same place in two texts -/

theorem getElem?_tokens (text : List Char) (k : Nat) :
    (tokens text)[k]? = (lexemes text)[k]?.map Excerpt.text := by
  rw [tokens, List.getElem?_map]

theorem SameLexeme.text_eq {a b : Excerpt} (h : SameLexeme s t a b) : a.text = b.text := by
  obtain ⟨-, -, -, text_eq⟩ := h
  exact text_eq

/-- The lexemes at one index of two texts with the same tokens correspond. -/
theorem sameLexeme_of_getElem? (same : tokens s = tokens t) {k : Nat} {a b : Excerpt}
    (ha : (lexemes s)[k]? = some a) (hb : (lexemes t)[k]? = some b) : SameLexeme s t a b := by
  have text_eq : (tokens s)[k]? = (tokens t)[k]? := by rw [same]
  rw [getElem?_tokens, getElem?_tokens, ha, hb] at text_eq
  exact ⟨k, ha, hb, Option.some.inj text_eq⟩

theorem exists_append_of_getElem? {α : Type} {l : List α} {i : Nat} {a : α} (h : l[i]? = some a) :
    ∃ before after, l = before ++ a :: after ∧ before.length = i := by
  obtain ⟨lt, rfl⟩ := List.getElem?_eq_some_iff.mp h
  refine ⟨l.take i, l.drop (i + 1), ?_, ?_⟩
  · rw [← List.drop_eq_getElem_cons lt, List.take_append_drop]
  · rw [List.length_take]
    omega

/-- The tokens of a group of the text are those of the text from its opening bracket to its closing
one. -/
theorem tokens_between {text : List Char} {i k : Nat} {opening closing : Excerpt}
    (hi : (lexemes text)[i]? = some opening) (hk : (lexemes text)[k]? = some closing) (lt : i < k)
    (hopening : opening.text = ['(']) (hclosing : closing.text = [')']) :
    tokens (Excerpt.between text opening.start closing.stop).text =
      ((tokens text).drop i).take (k + 1 - i) := by
  obtain ⟨before, rest, hl, rfl⟩ := exists_append_of_getElem? hi
  obtain ⟨m, rfl⟩ := Nat.exists_eq_add_of_lt lt
  have behind : rest[m]? = some closing := by
    rw [hl, List.getElem?_append_right (by omega)] at hk
    rw [show before.length + m + 1 - before.length = m + 1 by omega] at hk
    simpa using hk
  obtain ⟨body, after, rfl, rfl⟩ := exists_append_of_getElem? behind
  obtain ⟨inner, piece, -, inner_eq⟩ := exists_between_of_group hl hopening hclosing
  have tokens_eq : tokens text = before.map Excerpt.text ++
      ((['('] :: (body.map Excerpt.text ++ [[')']])) ++ after.map Excerpt.text) := by
    rw [tokens, hl]
    simp [hopening, hclosing]
  have count : before.length + body.length + 1 + 1 - before.length =
      (['('] :: (body.map Excerpt.text ++ [[')']])).length := by
    simp
    omega
  rw [piece, tokens_group, inner_eq, tokens_eq, count]
  rw [List.drop_left' (List.length_map _), List.take_left]

namespace Bracketed

/-! ## Groups and states that are alike -/

/-- The elements are the same word, or the same expression read from the same place. -/
inductive Element.Alike (s t : List Char) : Element → Element → Prop where
  | word {a b : Excerpt} (same : SameLexeme s t a b) : Alike s t (.word a) (.word b)
  | operand {a b : Excerpt} (e : Expr) (same : SameElement s t a b) :
      Alike s t (.operand e a) (.operand e b)

/-- The groups begin at the same one of the first `n` lexemes, and hold the same. -/
structure Group.Alike (s t : List Char) (n : Nat) (g h : Group) : Prop where
  start : ∃ i opening opening', i < n ∧ (lexemes s)[i]? = some opening ∧
    (lexemes t)[i]? = some opening' ∧ opening.text = ['('] ∧ opening'.text = ['('] ∧
    g.start = opening.start ∧ h.start = opening'.start
  word : Option.Rel (SameLexeme s t) g.word h.word
  operands : List.Forall₂ (fun p q => p.1 = q.1 ∧ SameElement s t p.2 q.2) g.operands h.operands

/-- The states are the same but for the places in their texts, after `n` lexemes. -/
inductive State.Alike (s t : List Char) (n : Nat) : State → State → Prop where
  | start : Alike s t n .start .start
  | within {g h : Group} {outer outer' : List Group} (inner : g.Alike s t n h)
      (around : List.Forall₂ (Group.Alike s t n) outer outer') :
      Alike s t n (.within g outer) (.within h outer')
  | finished (e : Expr) : Alike s t n (.finished e) (.finished e)

theorem Group.Alike.succ {n : Nat} {g h : Group} (groups : g.Alike s t n h) :
    g.Alike s t (n + 1) h := by
  obtain ⟨⟨i, opening, opening', lt, rest⟩, word, operands⟩ := groups
  exact ⟨⟨i, opening, opening', by omega, rest⟩, word, operands⟩

theorem Group.Alike.opened {n : Nat} {l m : Excerpt} (hl : (lexemes s)[n]? = some l)
    (hm : (lexemes t)[n]? = some m) (opening : l.text = ['(']) (opening' : m.text = ['(']) :
    (Group.opened l.start).Alike s t (n + 1) (.opened m.start) :=
  ⟨⟨n, l, m, by omega, hl, hm, opening, opening', rfl, rfl⟩, .none, .nil⟩

theorem Element.Alike.ofLexeme {l m : Excerpt} (same : SameLexeme s t l m) :
    (Element.ofLexeme l).Alike s t (.ofLexeme m) := by
  have text_eq := same.text_eq
  cases leaf : leaf? l.text with
  | some e =>
    rw [Element.ofLexeme_of_leaf leaf, Element.ofLexeme_of_leaf (text_eq ▸ leaf)]
    exact .operand e (.lexeme same)
  | none =>
    rw [Element.ofLexeme_of_raw leaf, Element.ofLexeme_of_raw (text_eq ▸ leaf)]
    exact .word same

/-- Groups that are alike take or refuse the same elements. -/
theorem Group.Alike.place {n : Nat} {g h : Group} (groups : g.Alike s t n h) {x y : Element}
    (elements : x.Alike s t y) :
    Agree (Rejection.Alike s t mode) (Group.Alike s t n) (g.place mode x) (h.place mode y) := by
  obtain ⟨start, word, operands⟩ := groups
  obtain ⟨gstart, gword, goperands⟩ := g
  obtain ⟨hstart, hword, hoperands⟩ := h
  dsimp only at start word operands
  cases word with
  | none =>
    cases elements with
    | @word a b same =>
      have symbol_eq : isSymbol a = isSymbol b := by rw [isSymbol, isSymbol, same.text_eq]
      have taken : Group.Alike s t n ⟨gstart, some a, goperands⟩ ⟨hstart, some b, hoperands⟩ :=
        ⟨start, .some same, operands⟩
      cases mode with
      | pre =>
        simp only [Group.place, symbol_eq]
        split
        · exact .ok taken
        · exact .error (.notAnOperation (.lexeme same))
      | post => exact .ok taken
    | operand e same =>
      cases mode with
      | pre => exact .error (.notAnOperation same)
      | post => exact .ok ⟨start, .none, List.rel_append operands (.cons ⟨rfl, same⟩ .nil)⟩
  | some same =>
    cases mode with
    | post => exact .error (.misplacedWord same)
    | pre =>
      cases elements with
      | word misplaced => exact .error (.misplacedWord misplaced)
      | operand e source =>
        exact .ok ⟨start, .some same, List.rel_append operands (.cons ⟨rfl, source⟩ .nil)⟩

/-- The last elements of groups that are alike are the same. -/
theorem Group.Alike.lastElement {n : Nat} {g h : Group} (groups : g.Alike s t n h) {c d : Excerpt}
    (closing : SameLexeme s t c d) :
    SameElement s t (g.lastElement c) (h.lastElement d) := by
  have reversed := List.forall₂_reverse_iff.mpr groups.operands
  rw [Group.lastElement, Group.lastElement, List.getLast?_eq_head?_reverse,
    List.getLast?_eq_head?_reverse]
  generalize g.operands.reverse = ps at reversed ⊢
  generalize h.operands.reverse = qs at reversed ⊢
  cases reversed with
  | nil => exact .lexeme closing
  | cons last rest => exact last.2

theorem Group.Alike.operands_eq {n : Nat} {g h : Group} (groups : g.Alike s t n h) :
    g.operands.map Prod.fst = h.operands.map Prod.fst := by
  have operands := groups.operands
  generalize g.operands = ps at operands ⊢
  generalize h.operands = qs at operands ⊢
  induction operands with
  | nil => rfl
  | cons first rest ih => rw [List.map_cons, List.map_cons, first.1, ih]

/-- Groups that are alike give the same expression at their closing brackets, or are refused. -/
theorem Group.Alike.close {n : Nat} {g h : Group} (groups : g.Alike s t n h) {c d : Excerpt}
    (closing : SameLexeme s t c d) :
    Agree (Rejection.Alike s t mode) Eq (g.close mode c) (h.close mode d) := by
  have last := groups.lastElement closing
  have operands_eq := groups.operands_eq
  have word := groups.word
  obtain ⟨i, opening, opening', -, hi, hi', hopening, hopening', gstart, hstart⟩ := groups.start
  have opens : SameLexeme s t opening opening' := ⟨i, hi, hi', hopening.trans hopening'.symm⟩
  unfold Group.close
  generalize g.word = gword at word
  generalize h.word = hword at word
  cases word with
  | none => exact .error (.notAnOperation last)
  | @some a b same =>
    dsimp only
    rw [operands_eq, ← same.text_eq]
    cases Op.ofSymbol? a.text with
    | none => exact .error (.notAnOperation (.lexeme same))
    | some op =>
      dsimp only
      cases Expr.build op (h.operands.map Prod.fst) with
      | ok e => exact .ok rfl
      | error mismatch =>
        cases mode with
        | pre =>
          have behind := Rejection.Alike.countBehindSymbol same mismatch.expected mismatch.found
          rw [← same.text_eq] at behind
          exact .error behind
        | post =>
          simp only [Group.countOffset, gstart, hstart]
          exact .error (.countAtBracket opens hopening _ _ _)

/-- Groups that are closed by the same bracket are the same element of the groups around them. -/
theorem Group.Alike.sameElement (same : tokens s = tokens t) {n : Nat} {g h : Group}
    (groups : g.Alike s t n h) {c d : Excerpt} (hc : (lexemes s)[n]? = some c)
    (hd : (lexemes t)[n]? = some d) (closing : c.text = [')']) :
    SameElement s t (.between s g.start c.stop) (.between t h.start d.stop) := by
  obtain ⟨i, opening, opening', lt, hi, hi', hopening, hopening', gstart, hstart⟩ := groups.start
  have closes := sameLexeme_of_getElem? same hc hd
  rw [gstart, hstart]
  refine .group ⟨i, hi, hi', hopening.trans hopening'.symm⟩ closes hopening closing ?_
  rw [tokens_between hi hc lt hopening closing,
    tokens_between hi' hd lt hopening' (closes.text_eq.symm.trans closing), same]

/-! ## Two runs side by side -/

/-- Placing corresponding elements into corresponding groups gives corresponding results. -/
theorem State.Alike.placed {n : Nat} {g h : Group} {outer outer' : List Group}
    (groups : g.Alike s t n h) (around : List.Forall₂ (Group.Alike s t n) outer outer')
    {x y : Element} (elements : x.Alike s t y) :
    Agree (Rejection.Alike s t mode) (State.Alike s t n) (State.placed mode g outer x)
      (State.placed mode h outer' y) :=
  (groups.place elements).map fun _ _ taken => .within taken around

/-- A lexeme of each text in the same place does the same to states that are alike. -/
theorem State.Alike.step (same : tokens s = tokens t) {n : Nat} {x y : State}
    (states : x.Alike s t n y) {l m : Excerpt} (hl : (lexemes s)[n]? = some l)
    (hm : (lexemes t)[n]? = some m) :
    Agree (Rejection.Alike s t mode) (State.Alike s t (n + 1)) (Bracketed.step mode s x l)
      (Bracketed.step mode t y m) := by
  have lexeme := sameLexeme_of_getElem? same hl hm
  have text_eq := lexeme.text_eq
  cases states with
  | finished e => exact .error (.trailing lexeme)
  | start =>
    simp only [Bracketed.step, ← text_eq]
    by_cases opening : l.text = ['(']
    · rw [if_pos opening, if_pos opening]
      exact .ok (.within (.opened hl hm opening (text_eq ▸ opening)) .nil)
    · rw [if_neg opening, if_neg opening]
      cases leaf? l.text with
      | some e => exact .ok (.finished e)
      | none => exact .error (.strayToken lexeme)
  | @within g h outer outer' inner around =>
    have around' : List.Forall₂ (Group.Alike s t (n + 1)) outer outer' :=
      around.imp fun _ _ groups => groups.succ
    by_cases opening : l.text = ['(']
    · have opening' : m.text = ['('] := text_eq ▸ opening
      rw [step_opening opening, step_opening opening']
      exact .ok (.within (.opened hl hm opening opening') (.cons inner.succ around'))
    by_cases closing : l.text = [')']
    · have closing' : m.text = [')'] := text_eq ▸ closing
      rw [step_closing closing, step_closing closing']
      refine (inner.close lexeme).bind ?_
      rintro e _ rfl
      cases around' with
      | nil => exact .ok (.finished e)
      | cons first rest =>
        exact State.Alike.placed first rest (.operand e (inner.sameElement same hl hm closing))
    · have element : Element.Alike s t (.ofLexeme l) (.ofLexeme m) := .ofLexeme lexeme
      rw [step_element opening closing, step_element (text_eq ▸ opening) (text_eq ▸ closing)]
      exact State.Alike.placed inner.succ around' element

/-- From states that are alike on, both texts are read alike. -/
theorem State.Alike.run (same : tokens s = tokens t) {before before' ls ms : List Excerpt}
    (hs : lexemes s = before ++ ls) (ht : lexemes t = before' ++ ms)
    (lengths : before.length = before'.length) {x y : State}
    (states : x.Alike s t before.length y) :
    Agree (Rejection.Alike s t mode) (State.Alike s t (lexemes s).length)
      (Bracketed.run mode s x ls) (Bracketed.run mode t y ms) := by
  have total : (lexemes s).length = (lexemes t).length := by
    simpa [tokens] using congrArg List.length same
  induction ls generalizing before before' ms x y with
  | nil =>
    have none : ms = [] := by
      refine List.eq_nil_of_length_eq_zero ?_
      simp only [hs, ht, List.length_append, List.length_nil] at total
      omega
    subst none
    rw [hs, List.append_nil]
    exact .ok states
  | cons l ls ih =>
    cases ms with
    | nil =>
      simp only [hs, ht, List.length_append, List.length_nil, List.length_cons] at total
      omega
    | cons m ms =>
      have hl : (lexemes s)[before.length]? = some l := by simp [hs]
      have hm : (lexemes t)[before.length]? = some m := by simp [ht, lengths]
      rw [run_cons, run_cons]
      have hs' : lexemes s = (before ++ [l]) ++ ls := by simp [hs]
      have ht' : lexemes t = (before' ++ [m]) ++ ms := by simp [ht]
      have further : (before ++ [l]).length = (before' ++ [m]).length := by simp [lengths]
      refine (states.step same hl hm).bind fun x y next => ih hs' ht' further ?_
      rwa [List.length_append, List.length_singleton]

/-- Corresponding states come to corresponding results at the ends of their texts. -/
theorem State.Alike.finish {n : Nat} {x y : State} (states : x.Alike s t n y) :
    Agree (Rejection.Alike s t mode) Eq (Bracketed.finish s.length x)
      (Bracketed.finish t.length y) := by
  cases states with
  | start => exact .error (.endOfText .expression)
  | within inner around => exact .error (.endOfText .closing)
  | finished e => exact .ok rfl

end Bracketed

open Bracketed

end ExprCalculus

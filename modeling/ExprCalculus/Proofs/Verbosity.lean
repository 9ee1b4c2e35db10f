import Mathlib
import ExprCalculus.Journal

/-!
# A level is a filter

A logger that is in place is used by reading a text or by leaving a note. What is read, and which
notes are left, depends on the text alone. The level is asked once for each note, and decides only
whether that note is passed on.

So two loggers at different levels that are put to the same uses read the same, and the lower one
passes on those notes of the higher one that its own level admits. Each of them keeps its level and
its handlers, whatever is read.
-/

namespace ExprCalculus

namespace Use

/-- What a use reads, if it reads, when no journal is kept. -/
def result? : Use → Option (Except Fault Expr)
  | readBracketed mode text => some ((parseBracketed mode text).mapError .rejected)
  | readFlat text => some (((parseStack text).map StackResult.expr).mapError .stack)
  | _ => none

/-- The notes that a use leaves, whether they are passed on or not. -/
def notes : Use → List Note
  | info required message => [.info required message]
  | warning message => [.warning message]
  | debug message => [.debug message]
  | readBracketed mode text => bracketedNotes mode text (parseBracketed mode text)
  | readFlat text => stackNotes text (parseStack text)

end Use

/-- All notes that were passed on, in order. -/
def passedOn (entries : List Entry) : List Note := entries.flatMap fun entry => entry.output.records

namespace Journal

variable {journal : Journal} {level : Level}

/-! ## One use -/

/-- A use reads, and writes its notes, and then asks for the level. -/
theorem perform_action (time : List Char) (journal : Journal) (use : Use) :
    journal.perform time use.action = entry use.result? (journal.write time use.notes) := by
  cases use <;> rfl

/-- Where there is a logger, using the journal makes none. -/
theorem used_of_level? (made : journal.level? = some level) : journal.used = journal := by
  rw [used, made]

/-- The level is that of the logger if there is one. -/
theorem level_of_level? (made : journal.level? = some level) : journal.level = level := by
  rw [Journal.level, made, Option.getD_some]

/-- What a use of a logger does: it reads what it would read without a journal, and passes on the
notes that the level admits. The level and the handlers are afterwards what they were before. -/
structure Serves (level : Level) (journal : Journal) (use : Use) (entry : Entry)
    (after : Journal) : Prop where
  result?_eq : entry.result? = use.result?
  records_eq : entry.output.records = use.notes.filter fun note => level.admits note.required
  level?_eq : after.level? = some level
  handlers_eq : after.handlers = journal.handlers

/-- Performing the action of a use serves it. -/
theorem serves_perform (made : journal.level? = some level) (time : List Char) (use : Use) :
    journal.Serves level use (journal.perform time use.action).1
      (journal.perform time use.action).2 := by
  have kept : (journal.write time use.notes).2.level? = some level := by
    rw [write, used_of_level? made]
    exact made
  -- There is a logger afterwards, so that asking for its level makes none.
  rw [perform_action, entry, used_of_level? kept]
  constructor
  · rfl
  · simp only [write, used_of_level? made, level_of_level? made]
  · exact kept
  · rw [write, used_of_level? made]

/-! ## A run -/

/-- Uses keep the level and the handlers, by induction on them. -/
theorem later_uses (made : journal.level? = some level) (time : List Char) (uses : List Use) :
    (journal.later time (uses.map Use.action)).level? = some level ∧
      (journal.later time (uses.map Use.action)).handlers = journal.handlers := by
  induction uses generalizing journal with
  | nil => exact ⟨made, rfl⟩
  | cons use uses ih =>
    have step := serves_perform made time use
    obtain ⟨level_eq, handlers_eq⟩ := ih step.level?_eq
    exact ⟨level_eq, handlers_eq.trans step.handlers_eq⟩

theorem run_cons (time : List Char) (journal : Journal) (action : Action)
    (actions : List Action) : (journal.run time (action :: actions)).1 =
      (journal.perform time action).1 :: ((journal.perform time action).2.run time actions).1 :=
  rfl

/-- A run reads what is read without a journal. -/
theorem map_result?_run (made : journal.level? = some level) (time : List Char)
    (uses : List Use) :
    (journal.run time (uses.map Use.action)).1.map Entry.result? = uses.map Use.result? := by
  induction uses generalizing journal with
  | nil => rfl
  | cons use uses ih =>
    have step := serves_perform made time use
    rw [List.map_cons, run_cons, List.map_cons, List.map_cons, step.result?_eq, ih step.level?_eq]

/-- A run passes on the notes that the level admits, in the order of the uses. -/
theorem passedOn_run (made : journal.level? = some level) (time : List Char) (uses : List Use) :
    passedOn (journal.run time (uses.map Use.action)).1 =
      (uses.flatMap Use.notes).filter fun note => level.admits note.required := by
  induction uses generalizing journal with
  | nil => rfl
  | cons use uses ih =>
    have step := serves_perform made time use
    rw [List.map_cons, run_cons, passedOn, List.flatMap_cons, ← passedOn, step.records_eq,
      ih step.level?_eq, List.flatMap_cons, List.filter_append]

/-- What a level admits is admitted by every level above it. -/
theorem filter_admits {lower upper : Level} (le : lower.rank ≤ upper.rank) (notes : List Note) :
    notes.filter (fun note => lower.admits note.required) =
      (notes.filter fun note => upper.admits note.required).filter
        fun note => note.required.rank ≤ lower.rank := by
  rw [List.filter_filter]
  refine List.filter_congr fun note _ => ?_
  have above : note.required.rank ≤ lower.rank → note.required.rank ≤ upper.rank := by omega
  by_cases h : note.required.rank ≤ lower.rank
  · simp [Level.admits, h, above h]
  · simp [Level.admits, h]

/-- Two loggers at different levels are put to the same uses. Every reading has the same result in
both runs, the one that it has without a journal; the lower logger passes on exactly those of the
notes passed on by the higher one that are wanted from its level or below, in the same order; and
both still have their levels and handlers at the end. So has any logger after any one use. -/
theorem run_at_levels (time : List Char) {lower upper : Level} (le : lower.rank ≤ upper.rank)
    {quiet loud : Journal} (atLower : quiet.level? = some lower)
    (atUpper : loud.level? = some upper) (uses : List Use) :
    let quietly := (quiet.run time (uses.map Use.action)).1
    let loudly := (loud.run time (uses.map Use.action)).1
    quietly.map Entry.result? = loudly.map Entry.result? ∧
    loudly.map Entry.result? = uses.map Use.result? ∧
    passedOn quietly = (passedOn loudly).filter (fun note => note.required.rank ≤ lower.rank) ∧
    ((quiet.later time (uses.map Use.action)).level? = some lower ∧
      (quiet.later time (uses.map Use.action)).handlers = quiet.handlers) ∧
    ((loud.later time (uses.map Use.action)).level? = some upper ∧
      (loud.later time (uses.map Use.action)).handlers = loud.handlers) ∧
    ∀ (journal : Journal) (level : Level), journal.level? = some level → ∀ use : Use,
      (journal.perform time use.action).2.level? = some level ∧
        (journal.perform time use.action).2.handlers = journal.handlers := by
  intro quietly loudly
  have low : quietly.map Entry.result? = uses.map Use.result? := map_result?_run atLower time uses
  have high : loudly.map Entry.result? = uses.map Use.result? := map_result?_run atUpper time uses
  refine ⟨low.trans high.symm, high, ?_, later_uses atLower time uses,
    later_uses atUpper time uses, fun journal level made use => ?_⟩
  · rw [passedOn_run atLower, passedOn_run atUpper, filter_admits le]
  · have step := serves_perform made time use
    exact ⟨step.level?_eq, step.handlers_eq⟩

/-- A rejected text, a text that leaves an operand unused, and a note for finding faults. -/
theorem run_at_moderate_and_verbose :
    let quiet := fresh.make .moderate none
    let loud := (fresh.make .silent (some ['f'])).setLevel .verbose
    let uses : List Use := [.readBracketed .pre [')'], .readFlat ['x', ' ', 'y'], .debug ['d']]
    let quietly := (quiet.run ['T'] (uses.map Use.action)).1
    let loudly := (loud.run ['T'] (uses.map Use.action)).1
    Level.moderate.rank ≤ Level.verbose.rank ∧ quiet.level? = some .moderate ∧
    loud.level? = some .verbose ∧ quietly.map Entry.result? = loudly.map Entry.result? ∧
    passedOn quietly =
      (passedOn loudly).filter (fun note => note.required.rank ≤ Level.moderate.rank) ∧
    (passedOn quietly).map Note.severity = [.warning, .info] ∧
    (passedOn loudly).map Note.severity = [.info, .warning, .info, .debug, .debug] := by
  intro quiet loud uses quietly loudly
  have atLower : quiet.level? = some .moderate := rfl
  have atUpper : loud.level? = some .verbose := rfl
  have rejected : parseBracketed .pre [')'] = .error (.strayToken ⟨[')'], 0⟩) := by cbv
  have unused : parseStack ['x', ' ', 'y'] = .ok ⟨.var .y, [.var .x]⟩ := by cbv
  obtain ⟨results, -, records, -, -, -⟩ := run_at_levels ['T'] (by decide) atLower atUpper uses
  refine ⟨by decide, atLower, atUpper, results, records, ?_, ?_⟩
  · rw [passedOn_run atLower]
    simp only [uses, List.flatMap_cons, Use.notes, rejected, unused]
    rfl
  · rw [passedOn_run atUpper]
    simp only [uses, List.flatMap_cons, Use.notes, rejected, unused]
    rfl

end Journal

end ExprCalculus

import Mathlib
import ExprCalculus.Journal

/-!
# What reaches the console

A line reaches the console once for each console handler that there is. Handlers come and go only
when a logger is made, so their number is settled by the level at which the logger in force was
made, and no later call changes it. The level that decides whether a note is admitted is another
one: the one that was set last.

The two differ when a logger that was made silent is given a higher level. It then admits notes, and
none of them is seen on the console.
-/

namespace ExprCalculus

/-- The level at which the logger was made that is in force after a call, from the one before. -/
def Call.makingLevel? (made? : Option Level) : Call → Option Level
  | configure level _ => some level
  | setLevel level => some (made?.getD level)
  | get => some (made?.getD .minimal)
  | note _ => some (made?.getD .minimal)

/-- The level at which the logger was made that a note finds after calls from the first use on. -/
def makingLevel (calls : List Call) : Level :=
  (calls.foldl Call.makingLevel? none).getD .minimal

namespace Journal

variable {time : List Char} {journal : Journal}

/-! ## Lines -/

/-- Making the logger that is used does not change the level. -/
@[simp] theorem level_used (journal : Journal) : journal.used.level = journal.level := by
  unfold used level
  split
  · rfl
  · rename_i none
    rw [none]
    rfl

/-- Handlers for the console write the line once each, and the other handlers nothing. -/
theorem console_foldl_emit (line : List Char) (handlers : List Handler)
    (written : List Char × Files) : (handlers.foldl (Handler.emit line) written).1 =
      written.1 ++ (List.replicate (handlers.count .console) line).flatten := by
  induction handlers generalizing written with
  | nil => simp
  | cons handler handlers ih =>
    rw [List.foldl_cons, ih]
    cases handler with
    | console => simp [Handler.emit, List.replicate_succ]
    | file name => simp [Handler.emit]

/-- An admitted note is on the console as often as there are handlers for it. -/
theorem console_write (time : List Char) (journal : Journal) (note : Note) :
    (journal.write time [note]).1.console =
      if journal.level.admits note.required then
        (List.replicate (journal.used.handlers.count .console) (note.line time)).flatten
      else [] := by
  by_cases h : journal.level.admits note.required = true
  · simp [write, h, emit, console_foldl_emit]
  · simp [write, h]

/-! ## Handlers -/

/-- The logger was made at the level, and the console has one handler unless that level is silence.
Without a level there is no logger yet. -/
def Made (journal : Journal) : Option Level → Prop
  | none => journal.level? = none
  | some level => journal.level?.isSome = true ∧
      journal.handlers.count .console = if level = .silent then 0 else 1

/-- A new logger has one handler for the console, unless it is made silent. -/
theorem made_make (level : Level) (file? : Option (List Char)) (journal : Journal) :
    (journal.make level file?).Made (some level) := by
  refine ⟨rfl, ?_⟩
  cases file? <;> by_cases h : level = .silent <;> simp [make, h]

/-- A use makes a logger at the least level that admits warnings if there is none, and changes
nothing else. -/
theorem Made.used {made? : Option Level} (h : journal.Made made?) :
    journal.used.Made (some (made?.getD .minimal)) := by
  cases made? with
  | none =>
    rw [Journal.used, show journal.level? = none from h]
    exact made_make .minimal none journal
  | some made =>
    obtain ⟨level, hlevel⟩ := Option.isSome_iff_exists.mp h.1
    rw [Journal.used, hlevel]
    exact h

/-- A change of level makes a logger at that level if there is none, and leaves the handlers alone
otherwise. -/
theorem Made.setLevel {made? : Option Level} (h : journal.Made made?) (level : Level) :
    (journal.setLevel level).Made (some (made?.getD level)) := by
  cases made? with
  | none =>
    rw [Journal.setLevel, show journal.level? = none from h]
    exact made_make level none journal
  | some made =>
    obtain ⟨before, hbefore⟩ := Option.isSome_iff_exists.mp h.1
    rw [Journal.setLevel, hbefore]
    exact ⟨rfl, h.2⟩

/-- What a call does to the making level, it does to the handlers. -/
theorem Made.call {made? : Option Level} (h : journal.Made made?) (c : Call) :
    (journal.call time c).Made (c.makingLevel? made?) := by
  cases c with
  | configure level file? => exact made_make level file? journal
  | setLevel level => exact h.setLevel level
  | get => exact h.used
  | note note => exact h.used

/-- So do calls one after another. -/
theorem Made.foldl_call {made? : Option Level} (h : journal.Made made?) (calls : List Call) :
    (calls.foldl (Journal.call time) journal).Made (calls.foldl Call.makingLevel? made?) := by
  induction calls generalizing journal made? with
  | nil => exact h
  | cons c calls ih => exact ih (h.call c)

/-- A note that comes after some calls finds one handler for the console, or none if its logger was
made silent. -/
theorem count_console_after (time : List Char) (calls : List Call) :
    (after time calls).used.handlers.count .console =
      if makingLevel calls = .silent then 0 else 1 := by
  have unmade : fresh.Made none := rfl
  exact (unmade.foldl_call calls).used.2

/-! ## The console -/

/-- What is written on the console for a note that comes after some calls. -/
def consoleAfter (time : List Char) (calls : List Call) (note : Note) : List Char :=
  ((after time calls).write time [note]).1.console

/-- The console shows the line of an admitted note, unless the logger was made silent. -/
theorem consoleAfter_eq (time : List Char) (calls : List Call) (note : Note) :
    consoleAfter time calls note =
      if (after time calls).level.admits note.required = true ∧ makingLevel calls ≠ .silent then
        note.line time
      else [] := by
  rw [consoleAfter, console_write, count_console_after]
  by_cases silent : makingLevel calls = .silent
  · simp [silent]
  · simp [silent]

/-- A line is not empty, so the console shows under which condition it was written. -/
theorem line_or_nil_eq_iff (time : List Char) (note : Note) {p q : Prop} [Decidable p]
    [Decidable q] : ((if p then note.line time else []) = if q then note.line time else []) ↔
      (p ↔ q) := by
  have line : note.line time ≠ [] := by simp [Note.line]
  by_cases hp : p <;> by_cases hq : q <;> simp [hp, hq, line, line.symm]

/-- After any calls, the console gets the line of a note exactly once if the level admits the note
and the logger was not made silent, and nothing otherwise. So the console follows the level alone
except for a note that is admitted by a logger that was made silent, and two histories that end at
one level agree on an admitted note exactly when both or neither end with such a logger. -/
theorem consoleAfter_eq_line_iff (time : List Char) (calls : List Call) (note : Note) :
    consoleAfter time calls note =
        (if (after time calls).level.admits note.required = true ∧ makingLevel calls ≠ .silent then
          note.line time
        else []) ∧
    (consoleAfter time calls note =
        (if (after time calls).level.admits note.required = true then note.line time else []) ↔
      ((after time calls).level.admits note.required = true → makingLevel calls ≠ .silent)) ∧
    ∀ calls' : List Call, (after time calls').level = (after time calls).level →
      (after time calls).level.admits note.required = true →
        (consoleAfter time calls' note = consoleAfter time calls note ↔
          (makingLevel calls' = .silent ↔ makingLevel calls = .silent)) := by
  refine ⟨consoleAfter_eq time calls note, ?_, fun calls' same admitted => ?_⟩
  · rw [consoleAfter_eq, line_or_nil_eq_iff]
    exact and_iff_left_iff_imp
  · rw [consoleAfter_eq, consoleAfter_eq, same, line_or_nil_eq_iff]
    simp only [admitted, true_and]
    exact not_iff_not

/-- A logger that was made silent and then given the highest level admits a warning, and the console
shows nothing; a logger that was made at that level shows it. -/
theorem consoleAfter_silence_eq_nil :
    (after ['T'] [.configure .silent none, .setLevel .verbose]).level = .verbose ∧
    (after ['T'] [.configure .verbose none]).level = .verbose ∧
    Level.verbose.admits (Note.warning ['w']).required = true ∧
    consoleAfter ['T'] [.configure .silent none, .setLevel .verbose] (.warning ['w']) = [] ∧
    consoleAfter ['T'] [.configure .verbose none] (.warning ['w']) =
      (Note.warning ['w']).line ['T'] := by
  decide

end Journal

end ExprCalculus

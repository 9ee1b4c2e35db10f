import ExprCalculus.Fault
import ExprCalculus.Parse.Bracketed

/-!
# The journal of readings

Reading a text leaves notes in a journal. Each note has a severity and a level from which on it is
wanted, and the journal's logger passes on the notes that its level admits. A note that is passed on
becomes one line for each handler, on the console or in a file. The handlers are put in place when
a logger is made: one for the console, unless it is made silent, and one for the file that it is
given, if any. A later change of level changes what is admitted and not where it goes.

There may be no logger. The next use then makes one that admits only warnings. The handlers of a
logger that is dropped stay in place until then.
-/

namespace ExprCalculus

/-- How much the journal passes on. -/
inductive Level where
  /-- Nothing. -/
  | silent
  /-- Warnings. -/
  | minimal
  /-- Summaries of readings. -/
  | moderate
  /-- Rejected texts as well. -/
  | detailed
  /-- Everything. -/
  | verbose
deriving DecidableEq

namespace Level

/-- The levels, from less to more. -/
def all : List Level := [silent, minimal, moderate, detailed, verbose]

/-- The place of a level among all of them. -/
def rank : Level → Nat
  | silent => 0
  | minimal => 1
  | moderate => 2
  | detailed => 3
  | verbose => 4

/-- The name of a level. -/
def name : Level → List Char
  | silent => "SILENT".toList
  | minimal => "MINIMAL".toList
  | moderate => "MODERATE".toList
  | detailed => "DETAILED".toList
  | verbose => "VERBOSE".toList

/-- The level with a name, if there is one. -/
def ofName? (word : List Char) : Option Level := all.find? fun level => level.name = word

/-- Does a level admit what is wanted from another level on? -/
def admits (level required : Level) : Bool := decide (required.rank ≤ level.rank)

end Level

/-- How severe a note is. -/
inductive Severity where
  /-- For finding faults. -/
  | debug
  /-- For information. -/
  | info
  /-- A warning. -/
  | warning
deriving DecidableEq

/-- The name of a severity. -/
def Severity.name : Severity → List Char
  | debug => "DEBUG".toList
  | info => "INFO".toList
  | warning => "WARNING".toList

/-- A note for the journal. -/
structure Note where
  /-- Its severity. -/
  severity : Severity
  /-- The level from which on it is wanted. -/
  required : Level
  /-- Its text. -/
  text : List Char
deriving DecidableEq

namespace Note

/-- Information that is wanted from a level on. -/
def info (required : Level) (text : List Char) : Note := ⟨.info, required, text⟩

/-- A warning, which is wanted unless the journal is silent. -/
def warning (text : List Char) : Note := ⟨.warning, .minimal, text⟩

/-- A note for finding faults, which says so and is wanted only when everything is. -/
def debug (text : List Char) : Note := ⟨.debug, .verbose, "DEBUG: ".toList ++ text⟩

/-- The line of a note, stamped with a time. -/
def line (time : List Char) (note : Note) : List Char :=
  time ++ " - ".toList ++ note.severity.name ++ " - ".toList ++ note.text ++ ['\n']

end Note

/-! ## What a reading notes -/

/-- The notes of reading a bracketed text. -/
def bracketedNotes (mode : Mode) (text : List Char) : Except Rejection Expr → List Note
  | .error rejection =>
    [.info .detailed ("Rejected ".toList ++ mode.name ++ " expression ".toList ++ inQuotes text ++
      ": ".toList ++ rejection.message)]
  | .ok e =>
    [.info .moderate ("Parsed ".toList ++ mode.name ++ " expression ".toList ++ inQuotes text ++
      " into ".toList ++ Nat.toDigits 10 e.size ++ " nodes".toList),
    .debug ("Parsed ".toList ++ mode.name ++ " expression ".toList ++ inQuotes text ++
      " -> ".toList ++ e.flat)]

/-- The notes of reading a bracket-free text; there are none when it is rejected. -/
def stackNotes (text : List Char) : Except StackFault StackResult → List Note
  | .error _ => []
  | .ok result =>
    (if result.unused = [] then []
      else [.warning ("Postfix parse of ".toList ++ inQuotes text ++ " left ".toList ++
        Nat.toDigits 10 result.unused.length ++ " unused operand(s) on the stack".toList)]) ++
    [.info .moderate ("Parsed postfix tokens ".toList ++ inQuotes text ++ " into ".toList ++
      Nat.toDigits 10 result.expr.size ++ " nodes".toList),
    .debug ("Parsed postfix tokens ".toList ++ inQuotes text ++ " -> ".toList ++
      result.expr.bracketed .pre)]

/-! ## The journal -/

/-- Where lines go. -/
inductive Handler where
  /-- To the console. -/
  | console
  /-- To the end of a file. -/
  | file (name : List Char)
deriving DecidableEq

/-- Files by name, each with its content. -/
abbrev Files := List (List Char × List Char)

/-- Appends to a file, which is there afterwards even if nothing is appended. -/
def Files.append (name text : List Char) : Files → Files
  | [] => [(name, text)]
  | first :: rest =>
    if first.1 = name then (name, first.2 ++ text) :: rest else first :: append name text rest

/-- The state of the journal. -/
structure Journal where
  /-- The level of the logger, if there is one. -/
  level? : Option Level
  /-- Where lines go. -/
  handlers : List Handler
  /-- The files written so far. -/
  files : Files

/-- What one action writes. -/
structure Output where
  /-- The notes that were passed on. -/
  records : List Note
  /-- The lines on the console. -/
  console : List Char

/-- Writes a line through a handler, after what is on the console and in the files. -/
def Handler.emit (line : List Char) (written : List Char × Files) : Handler → List Char × Files
  | console => (written.1 ++ line, written.2)
  | file name => (written.1, written.2.append name line)

namespace Journal

/-- The journal before any use. -/
def fresh : Journal := ⟨none, [], []⟩

/-- Makes a new logger, with handlers of its own. A file that it is given is opened at once. -/
def make (level : Level) (file? : Option (List Char)) (journal : Journal) : Journal where
  level? := some level
  handlers := (if level = .silent then [] else [.console]) ++ (file?.map .file).toList
  files := match file? with
    | some name => journal.files.append name []
    | none => journal.files

/-- The level of the logger, which is made if there is none. -/
def level (journal : Journal) : Level := journal.level?.getD .minimal

/-- The journal with its logger made. -/
def used (journal : Journal) : Journal :=
  match journal.level? with
  | some _ => journal
  | none => journal.make .minimal none

/-- Changes the level of the logger, and nothing else if there is one. -/
def setLevel (level : Level) (journal : Journal) : Journal :=
  match journal.level? with
  | some _ => { journal with level? := some level }
  | none => journal.make level none

/-- Writes the line of a note through every handler. -/
def emit (time : List Char) (handlers : List Handler) (written : List Char × Files) (note : Note) :
    List Char × Files :=
  handlers.foldl (Handler.emit (note.line time)) written

/-- Passes on the notes that the level admits, and writes their lines. -/
def write (time : List Char) (notes : List Note) (journal : Journal) : Output × Journal :=
  let ready := journal.used
  let admitted := notes.filter fun note => ready.level.admits note.required
  let (console, files) := admitted.foldl (emit time ready.handlers) ([], ready.files)
  (⟨admitted, console⟩, { ready with files })

end Journal

/-- An action on the journal. -/
inductive Action where
  /-- Make a new logger. -/
  | configure (level : Level) (file? : Option (List Char))
  /-- Change the level. -/
  | setLevel (level : Level)
  /-- Write a note. -/
  | note (note : Note)
  /-- Drop the logger. -/
  | forget
  /-- Read a bracketed text. -/
  | readBracketed (mode : Mode) (text : List Char)
  /-- Read a bracket-free text. -/
  | readFlat (text : List Char)

/-- What an action is answered with. -/
structure Entry where
  /-- What was read, if something was. -/
  result? : Option (Except Fault Expr)
  /-- What was written. -/
  output : Output
  /-- The level after the action; asking for it makes a logger, so it is not asked for when the
  logger has just been dropped. -/
  level? : Option Level

namespace Journal

/-- The entry of an action that is not forgetting, and the journal after asking for the level. -/
def entry (result? : Option (Except Fault Expr)) (written : Output × Journal) : Entry × Journal :=
  (⟨result?, written.1, some written.2.level⟩, written.2.used)

/-- Performs an action. -/
def perform (time : List Char) (journal : Journal) : Action → Entry × Journal
  | .configure level file? => entry none (⟨[], []⟩, journal.make level file?)
  | .setLevel level => entry none (⟨[], []⟩, journal.setLevel level)
  | .note note => entry none (journal.write time [note])
  | .forget => (⟨none, ⟨[], []⟩, none⟩, { journal with level? := none })
  | .readBracketed mode text =>
    let result := parseBracketed mode text
    entry (some (result.mapError .rejected)) (journal.write time (bracketedNotes mode text result))
  | .readFlat text =>
    let result := parseStack text
    entry (some ((result.map StackResult.expr).mapError .stack))
      (journal.write time (stackNotes text result))

/-- Performs actions one after another, and gives the files at the end. -/
def run (time : List Char) (journal : Journal) : List Action → List Entry × Files
  | [] => ([], journal.files)
  | action :: actions =>
    let (first, after) := journal.perform time action
    let (entries, files) := after.run time actions
    (first :: entries, files)

/-- The journal after actions one after another. -/
def later (time : List Char) (journal : Journal) (actions : List Action) : Journal :=
  actions.foldl (fun journal action => (journal.perform time action).2) journal

end Journal

/-! ## Uses -/

/-- A use of a logger that is in place. -/
inductive Use where
  /-- Leave information that is wanted from a level on. -/
  | info (required : Level) (message : List Char)
  /-- Leave a warning. -/
  | warning (message : List Char)
  /-- Leave a note for finding faults. -/
  | debug (message : List Char)
  /-- Read a bracketed text. -/
  | readBracketed (mode : Mode) (text : List Char)
  /-- Read a bracket-free text. -/
  | readFlat (text : List Char)

/-- The action of a use. -/
def Use.action : Use → Action
  | info required message => .note (.info required message)
  | warning message => .note (.warning message)
  | debug message => .note (.debug message)
  | readBracketed mode text => .readBracketed mode text
  | readFlat text => .readFlat text

/-! ## Calls -/

/-- A use of the journal's logger. -/
inductive Call where
  /-- Make a new one. -/
  | configure (level : Level) (file? : Option (List Char))
  /-- Change its level. -/
  | setLevel (level : Level)
  /-- Ask for it. -/
  | get
  /-- Write a note. -/
  | note (note : Note)

namespace Journal

/-- The journal after a call. -/
def call (time : List Char) (journal : Journal) : Call → Journal
  | .configure level file? => journal.make level file?
  | .setLevel level => journal.setLevel level
  | .get => journal.used
  | .note note => (journal.write time [note]).2

/-- The journal after calls one after another, from the first use on. -/
def after (time : List Char) (calls : List Call) : Journal := calls.foldl (call time) fresh

end Journal

end ExprCalculus

import Conditional.Evaluation
import Conditional.LogicalLine
import Conditional.Queue
import Conditional.Reporter
import Conditional.Source
import Conditional.SourceFile

/-!
# Conditional.Session

A session holds the statements that wait to be run and the results of those
that have been.  Statements are parsed when they are added and evaluated when
the session is run, in the order of their line numbers; results are handed
out in the order in which they were made.

A session that is not interactive begins with the statements of its file.
All of them are parsed before the first is run, so a file with a mistake in
it gives no result at all.
-/

namespace Conditional

/-- What became of a statement. -/
structure Result where
  number : Int
  term : Term
  value : Bool
  judgments : List Judgment
deriving DecidableEq, Repr

/-- How much is shown of a result beside its value. -/
structure View where
  tree : Bool
  trace : Bool
deriving DecidableEq, Repr

/-- The state of a session. -/
structure Session where
  reporter : Reporter
  /-- The file that reports name. -/
  path : Text
  /-- Statements come from the user one by one. -/
  interactive : Bool
  view : View
  queue : Queue
  results : List Result
deriving DecidableEq, Repr

instance : Reporting Session where
  reporter := Session.reporter
  withReporter f s := { s with reporter := f s.reporter }
  reporter_withReporter _ _ := rfl

namespace Session

open Step Reporting

/-- The name under which lines from the user are reported. -/
def inputPath : Text := "<in>"

/-- The name under which an expression from the command line is reported. -/
def argumentPath : Text := "<arg>"

/-- File names that stand for something else and cannot be read. -/
def reservedPaths : List Text := [inputPath, argumentPath]

/-! ## Statements -/

/-- Parses a statement and puts it under its line number.  The traceback
points to the statement while it is parsed. -/
def add (source : Text) (number : Int) : Step Session Unit := do
  let path := (← state).path
  registerLine path (some source) number
  match parse source with
  | .error e => raiseProblem (e.problem source)
  | .ok t => update fun s => { s with queue := s.queue.insert number t }
  removeLine path

/-- Refuses a statement that has no text at all.  In the traceback a pair of
brackets stands for it, and since there is no text that could be wrong, the
refusal is a fault. -/
def addNothing (number : Int) : Step Session Unit := do
  registerLine (← state).path (some "[]") number
  raise (.fault .noSubject)

/-- Puts a term under a line number. -/
def enqueue (t : Term) (number : Int) : Step Session Unit :=
  update fun s => { s with queue := s.queue.insert number t }

/-- Evaluates a term, with judgments only if they are wanted. -/
def result (trace : Bool) (number : Int) (t : Term) : Except Fault Result :=
  if trace then
    match t.record [] with
    | .ok value judgments => .ok ⟨number, t, value, judgments⟩
    | .error f _ => .error f
  else do
    return ⟨number, t, ← t.evaluate, []⟩

/-- Runs one statement.  An interactive session takes it out of the queue
whether its evaluation succeeds or not. -/
def runStatement (number : Int) (t : Term) : Step Session Unit := do
  let s ← state
  registerLine s.path (some (← check t.text)) number
  let evaluation : Step Session Unit := do
    let r ← check (result s.view.trace number t)
    update fun s => { s with results := s.results ++ [r] }
  evaluation.settling fun s =>
    if s.interactive then { s with queue := s.queue.erase number } else s
  removeLine s.path

/-- Runs statements one after another. -/
def runAll : Queue → Step Session Unit
  | [] => done ()
  | (number, t) :: rest => do
    runStatement number t
    runAll rest

/-- Runs all waiting statements.  A session that is not interactive keeps
them until all have succeeded. -/
def run : Step Session Unit := do
  runAll (← state).queue
  update fun s => if s.interactive then s else { s with queue := [] }

/-! ## Results -/

/-- A result as it is shown: its tree and its derivation, if they are wanted,
and its value. -/
def render (view : View) (r : Result) : Except Fault Text := do
  let tree ← if view.tree then (do return [← r.term.display 0]) else .ok []
  let trace ← if view.trace then (do return [← derivation r.judgments]) else .ok []
  return Text.join ['\n'] (tree ++ trace ++ [spellBool r.value])

/-- Takes out the oldest result and renders it. -/
def pop : Step Session Text := do
  match (← state).results with
  | [] => raise (.fault .emptyList)
  | r :: rest =>
    update fun s => { s with results := rest }
    check (render (← state).view r)

/-- Takes out and prints the given number of results. -/
def printResults : Nat → Step Session Unit
  | 0 => done ()
  | n + 1 => do
    printLine (Doc.plain (← pop))
    printResults n

/-- Takes out and prints all results. -/
def drain : Step Session Unit := do
  printResults (← state).results.length

/-! ## Beginning a session -/

/-- A session in which nothing has happened.  The reporter of an interactive
session is never fatal. -/
def start (reporter : Reporter) (path : Text) (interactive : Bool) (view : View) : Session where
  reporter :=
    let r := reporter.setPlace path .whole
    { r with fatal := r.fatal && !interactive }
  path := path
  interactive := interactive
  view := view
  queue := []
  results := []

/-- What a file name gives access to: the bytes of a file, or nothing that
can be read. -/
abbrev Files := Text → Option (List UInt8)

/-- Reads the text of the session's file. -/
def readText (files : Files) : Step Session Text := do
  let path := (← state).path
  if path ∈ reservedPaths then
    raiseProblem ((Notice.about path " is a reserved filename").problem .general)
  else if '\x00' ∈ path then raise (.fault .nulInPath)
  else
    match files path with
    | none => raiseProblem ((Notice.about path " could not be opened").problem .general)
    | some bytes =>
      match SourceFile.decode bytes with
      | none => raiseProblem ((Notice.about path " is not valid UTF-8 text").problem .general)
      | some text => done text

/-- Adds statements one after another. -/
def addAll : List LogicalLine → Step Session Unit
  | [] => done ()
  | statement :: rest => do
    add statement.text statement.number
    addAll rest

/-- Reads the session's file and adds its statements. -/
def load (files : Files) : Step Session Unit := do
  let text ← readText files
  let statements ← check (LogicalLine.assemble (Text.lines text))
  if statements.isEmpty then
    warn (Notice.about (← state).path " contains no expressions")
  addAll statements

end Session

end Conditional

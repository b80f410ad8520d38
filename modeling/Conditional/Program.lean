import Conditional.CommandLine
import Conditional.Shell

/-!
# Conditional.Program

The program as a function of its arguments, the files it can read and its
standard input.  An expression or a file is run to its end in one session;
with neither, the shell talks to the standard input.  Whatever goes wrong is
reported, and the exit code says whether something did.
-/

namespace Conditional

namespace Program

open Step Reporting CommandLine

/-- What a run of the program comes to. -/
structure Run where
  exitCode : Int
  output : Doc
  errors : Text

/-- The exit code that the answer of the outermost step stands for. -/
def exitCode {α : Type} : Except Signal α → Int
  | .ok _ => 0
  | .error (.exit code) => code
  | .error _ => 1

/-- Runs a step to its end, from a state whose reporter settles what cuts it
short. -/
def conclude {σ α : Type} [Reporting σ] (step : Step σ α) (s : σ) : Run :=
  let outcome := (guarded step).run s
  ⟨exitCode outcome.answer, outcome.output, []⟩

/-- Runs all statements of a session and prints their results. -/
def runSession : Step Session Unit := do
  Session.run
  Session.drain

/-- The session in which an expression from the command line is run. -/
def expressionRun (view : View) (operand : Operand) : Run :=
  let add := match operand with
    | .text source => Session.add source 1
    | .dropped => Session.addNothing 1
  conclude (do add; runSession)
    (Session.start (Reporter.new true) Session.argumentPath false view)

/-- The session in which a file is run. -/
def fileRun (files : Session.Files) (view : View) (path : Text) : Run :=
  conclude (do Session.load files; runSession)
    (Session.start (Reporter.new true) path false view)

/-- The conversation of the shell with its input. -/
def shellRun (view : View) (input : Text) : Run :=
  conclude (Shell.interact (Text.lines (Text.unifyNewlines input))) (Shell.start view)

/-- Runs what the options ask for. -/
def runOptions (files : Session.Files) (input : Text) (o : Options) : Run :=
  let view : View := ⟨o.tree, o.trace⟩
  match o.expression, o.file with
  | some operand, _ => expressionRun view operand
  | none, some path => fileRun files view path
  | none, none => shellRun view input

/-- Runs the program. -/
def run (arguments : List Text) (files : Session.Files) (input : Text) : Run :=
  match read arguments with
  | .error e => ⟨2, [], complaint e⟩
  | .ok .help => ⟨0, Doc.plain help, []⟩
  | .ok (.run options) => runOptions files input options

end Program

end Conditional

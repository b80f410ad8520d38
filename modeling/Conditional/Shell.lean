import Conditional.Session

/-!
# Conditional.Shell

The interactive shell.  A line is either a command or (part of) a statement.
Commands are recognised by their first word and work at any time, also while
a statement is waiting for its next line; everything that is no command is
taken as the text of a statement.

A statement that opens more parentheses than it closes is kept until further
lines complete it.  Then it is parsed, run, and its result printed.  Mistakes
are reported and forgotten, so that the shell goes on after them.
-/

namespace Conditional

/-! ## Commands -/

/-- What a line asks the shell to do. -/
inductive Command where
  /-- Nothing: the line is blank. -/
  | blank
  /-- Switch the display of syntax trees. -/
  | tree (argument : Text)
  /-- Switch the display of derivations. -/
  | trace (argument : Text)
  | help
  /-- Leave, because there is no more input. -/
  | endOfInput
  | exit
  /-- Take in a line of a statement. -/
  | statement (line : Text)
deriving DecidableEq, Repr

namespace Command

/-- The characters of a command word: ASCII letters, digits and underscores. -/
def isWordChar (c : Char) : Bool := c.isAlphanum || c == '_'

/-- The command that a word and its argument make, if the word is one. -/
def ofWord? (word argument : Text) : Option Command :=
  if word = "tree" then some (tree argument)
  else if word = "trace" then some (trace argument)
  else if word = "help" then some help
  else if word = "EOF" then some endOfInput
  else if word = "exit" then some exit
  else none

/-- The command of a line.  A question mark asks for help.  Otherwise the
first word counts, which ends at the first character that cannot be part of
a word and need not be followed by a blank. -/
def ofLine (line : Text) : Command :=
  match Text.trim line with
  | [] => blank
  | '?' :: _ => help
  | line =>
    let word := line.takeWhile isWordChar
    let argument := Text.trim (line.dropWhile isWordChar)
    (ofWord? word argument).getD (statement line)

end Command

/-! ## State -/

/-- The state of a shell: its session, the text of the statement that is not
complete yet, what it shows while it waits for a line, and the number of
statement lines so far. -/
structure Shell where
  session : Session
  pending : Text
  prompt : Text
  lineNumber : Nat
deriving DecidableEq, Repr

instance : Reporting Shell where
  reporter s := s.session.reporter
  withReporter f s := { s with session := Reporting.withReporter f s.session }
  reporter_withReporter _ _ := rfl

namespace Shell

open Step Reporting

/-- What a shell says when it begins. -/
def intro : Text :=
  "Boolean expression interpreter :: Python backend\n" ++
    "Type '?' or 'help' for more information."

/-- A short introduction to the language and the shell. -/
def helpText : Text :=
  "Welcome to the boolcalc interpreter!\n\n" ++
  "The language has two values, 'true' and 'false', and one way of combining\n" ++
  "them: 'if <expr> then <expr> else <expr>'. Parentheses group expressions.\n\n" ++
  "Try it out by typing 'if true then false else true'. The result is 'false'.\n" ++
  "Type 'tree' or 'trace' to also see the syntax tree or the derivation of\n" ++
  "each result, and 'exit' to leave."

/-- The prompt for the first line of a statement. -/
def firstPrompt : Text := "> "

/-- The prompt for a line that goes on with a statement. -/
def furtherPrompt : Text := ". "

/-- The shell at its beginning. -/
def start (view : View) : Shell where
  session := Session.start (Reporter.new true) Session.inputPath true view
  pending := []
  prompt := firstPrompt
  lineNumber := 0

/-- A step of the shell's session as a step of the shell. -/
def inSession {α : Type} (step : Step Session α) : Step Shell α := fun s =>
  let inner := step.run s.session
  ⟨{ s with session := inner.state }, inner.output, inner.answer⟩

/-! ## Statements -/

/-- Parses and runs a statement, and prints its result. -/
def execute (text : Text) (number : Int) : Step Session Unit := do
  Session.add text number
  Session.run
  Session.drain

/-- The text of the unfinished statement with a further line. -/
def joined (s : Shell) (line : Text) : Text :=
  Text.trimEnd (if s.pending.isEmpty then line else s.pending ++ ' ' :: line)

/-- Takes in a line of a statement.  The statement is executed unless it is
blank or goes on on the next line. -/
def accept (line : Text) : Step Shell Unit := do
  update fun s => { s with lineNumber := s.lineNumber + 1 }
  let s ← state
  let text := s.joined line
  if LogicalLine.isOpen text then
    update fun s => { s with pending := text, prompt := furtherPrompt }
  else
    update fun s => { s with pending := [], prompt := firstPrompt }
    if !text.isEmpty then inSession (execute text s.lineNumber)

/-! ## Display switches -/

/-- One of the two parts of a result that can be switched on and off. -/
inductive Switch where
  | tree
  | trace
deriving DecidableEq, Repr

namespace Switch

/-- The command that works a switch. -/
def name : Switch → Text
  | tree => "tree"
  | trace => "trace"

/-- Whether a switch is on. -/
def isOn : Switch → View → Bool
  | tree, v => v.tree
  | trace, v => v.trace

/-- Sets a switch. -/
def set : Switch → Bool → View → View
  | tree, b, v => { v with tree := b }
  | trace, b, v => { v with trace := b }

end Switch

/-- The notice that a switch does not know the position it is told to take. -/
def switchNotice (switch : Switch) (argument : Text) : Notice :=
  { template := Template.quotedHole ++ " expects 'on' or 'off', got " ++ Template.quotedHole
    snippets := [switch.name, argument]
    pointed := false }

/-- Sets or flips a switch and says how it stands. -/
def turn (switch : Switch) (argument : Text) : Step Session Unit := do
  let current := switch.isOn (← state).view
  let wanted ←
    if argument.isEmpty then done (!current)
    else if argument = "on" then done true
    else if argument = "off" then done false
    else raiseProblem ((switchNotice switch argument).problem .general)
  update fun s => { s with view := switch.set wanted s.view }
  printLine (Doc.plain (switch.name ++ [' '] ++ (if wanted then "on" else "off")))

/-! ## The loop -/

/-- How the shell goes on after a line. -/
inductive Reply where
  | proceed
  /-- Go on; the line was blank. -/
  | ignored
  | stop
deriving DecidableEq, Repr

/-- Carries out a command. -/
def perform : Command → Step Shell Reply
  | .blank => done .ignored
  | .tree argument => do
    let _ ← guarded (inSession (turn .tree argument))
    return .proceed
  | .trace argument => do
    let _ ← guarded (inSession (turn .trace argument))
    return .proceed
  | .help => do
    printLine (Doc.plain helpText)
    return .proceed
  | .endOfInput => do
    printLine []
    return .stop
  | .exit => done .stop
  | .statement line => do
    let _ ← guarded (accept line)
    return .proceed

/-- Carries out a line. -/
def onLine (line : Text) : Step Shell Reply := perform (Command.ofLine line)

/-- Prompts for and carries out lines until one of them ends the shell.  The
end of the lines does so, too. -/
def converse : List Text → Step Shell Unit
  | [] => do
    print (Doc.plain (← state).prompt)
    let _ ← perform .endOfInput
  | line :: lines => do
    print (Doc.plain (← state).prompt)
    match ← onLine line with
    | .stop => done ()
    | _ => converse lines

/-- A whole conversation, from the introduction on. -/
def interact (lines : List Text) : Step Shell Unit := do
  printLine (Doc.plain intro)
  converse lines

end Shell

end Conditional

import Conditional.Program

/-!
# Conditional.Main

The program at the command line.  Files are read when they are asked for, and
the shell answers each line before it reads the next; everything else is
decided by `Conditional.Program` and `Conditional.Shell`.
-/

namespace Conditional

namespace Main

open CommandLine

/-- Writes a text to a stream. -/
def emit (stream : IO.FS.Stream) (t : Text) : IO Unit := do
  stream.putStr (String.ofList t)
  stream.flush

/-- Whether emphasis is to show: on a terminal, unless the environment says
otherwise. -/
def wantsColour : IO Bool := do
  if (← IO.getEnv "NO_COLOR").isSome then return false
  if (← IO.getEnv "FORCE_COLOR").isSome then return true
  (← IO.getStdout).isTty

/-- The one file that the program may read. -/
def readFile (path : Text) : IO (Option (List UInt8)) := do
  try
    let bytes ← IO.FS.readBinFile (String.ofList path)
    return some bytes.toList
  catch _ => return none

/-- Prompts for lines and carries them out until one of them ends the shell.
One read may give several lines, which wait in `ready`. -/
partial def converse (colour : Bool) (shell : Shell) (ready : List Text) : IO UInt32 := do
  emit (← IO.getStdout) shell.prompt
  let ready ← if ready.isEmpty then
      let line ← (← IO.getStdin).getLine
      pure (Text.lines (Text.unifyNewlines line.toList))
    else pure ready
  let step := match ready with
    | [] => Shell.perform .endOfInput
    | line :: _ => Shell.onLine line
  let outcome := step.run shell
  emit (← IO.getStdout) (outcome.output.render colour)
  match outcome.answer with
  | .ok .stop => return 0
  | .ok _ => converse colour outcome.state ready.tail
  | .error _ => return (Program.exitCode outcome.answer).toNat.toUInt32

/-- Runs the program on its arguments. -/
def run (arguments : List Text) : IO UInt32 := do
  let out ← IO.getStdout
  let colour ← wantsColour
  match read arguments with
  | .ok (.run { file := none, expression := none, tree, trace }) =>
    emit out (Shell.intro ++ ['\n'])
    converse colour (Shell.start ⟨tree, trace⟩) []
  | request =>
    let path : Option Text := match request with
      | .ok (.run options) => options.file
      | _ => none
    let bytes ← match path with
      | some path => readFile path
      | none => pure none
    let result := Program.run arguments (fun _ => bytes) []
    emit out (result.output.render colour)
    emit (← IO.getStderr) result.errors
    return result.exitCode.toNat.toUInt32

end Main

end Conditional

/-- The entry point of the program. -/
def main (arguments : List String) : IO UInt32 :=
  Conditional.Main.run (arguments.map String.toList)

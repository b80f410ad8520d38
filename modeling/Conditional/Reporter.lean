import Conditional.Step

/-!
# Conditional.Reporter

Reports of problems.  A reporter keeps a traceback, which says for each file
what is being worked on there, and heads every report with it.  Paths stay in
the order in which they were first mentioned.

A report of an error ends the program if the reporter is fatal; otherwise it
clears the traceback, so that the next report starts afresh.  A warning
changes nothing.

`guarded` runs a step under the eyes of the reporter: whatever cuts the step
short is reported, except a request to end the program, which passes.  Faults
are reported as internal errors and passed on; everything else is settled by
its report.
-/

namespace Conditional

/-! ## Traceback -/

/-- Where in a file the program is at work. -/
inductive Place where
  /-- Nowhere in particular. -/
  | whole
  /-- At a numbered line; its text may be unknown. -/
  | line (text : Option Text) (number : Int)
deriving DecidableEq, Repr

/-- The places where the program is at work, by path, in the order in which
the paths were first mentioned. -/
abbrev Traceback := List (Text × Place)

namespace Traceback

/-- Sets the place for a path; a path mentioned before keeps its rank. -/
def set (path : Text) (place : Place) : Traceback → Traceback
  | [] => [(path, place)]
  | (p, q) :: rest => if p = path then (p, place) :: rest else (p, q) :: set path place rest

/-- Keeps the paths and forgets the places. -/
def clear (t : Traceback) : Traceback := t.map fun entry => (entry.1, .whole)

/-- The heading of an error report: every line that is being worked on, with
its file and its number. -/
def heading (t : Traceback) : Text :=
  t.flatMap fun
    | (path, .line (some text) number) =>
      "  File '" ++ path ++ "', line " ++ Text.ofInt number ++ ":\n" ++
        "    " ++ text ++ ['\n']
    | _ => []

/-- The heading of a warning: the first line that is being worked on. -/
def origin (t : Traceback) : Doc :=
  match t.findSome? fun
    | (path, .line (some _) number) => some (path ++ ":" ++ Text.ofInt number ++ ": ")
    | _ => none with
  | some heading => Doc.styled .bold heading
  | none => []

end Traceback

/-! ## Diagnosis -/

namespace Problem

/-- The subject of a problem with the offending part marked, in the given
face and by a line of carets below it.  At least one column is marked. -/
def diagnosis (p : Problem) (face : Face) : Doc :=
  let stop := max p.stop (p.start + 1)
  Doc.plain ("  " ++ p.subject.upTo p.start) ++
    Doc.styled face (p.subject.between p.start stop) ++
    Doc.plain (p.subject.onward stop ++ "\n  " ++ Text.fill ' ' p.start) ++
    Doc.styled face ('^' :: Text.fill '~' (stop - p.start - 1))

/-- Whether a report shows the subject.  It does so unless there is nothing
to show or nothing that the user could do about it. -/
def showsSubject (p : Problem) : Bool := !p.internal && !p.subject.isEmpty && p.pointed

end Problem

/-! ## Reporter -/

/-- Where problems are reported. -/
structure Reporter where
  fatal : Bool
  traceback : Traceback
deriving DecidableEq, Repr

namespace Reporter

/-- A reporter that has not heard of any file. -/
def new (fatal : Bool) : Reporter := ⟨fatal, []⟩

/-- Sets the place for a path. -/
def setPlace (path : Text) (place : Place) (r : Reporter) : Reporter :=
  { r with traceback := r.traceback.set path place }

end Reporter

/-- States that contain a reporter. -/
class Reporting (σ : Type) where
  reporter : σ → Reporter
  withReporter : (Reporter → Reporter) → σ → σ
  reporter_withReporter : ∀ f s, reporter (withReporter f s) = f (reporter s)

instance : Reporting Reporter where
  reporter := id
  withReporter f := f
  reporter_withReporter _ _ := rfl

namespace Reporting

variable {σ α : Type} [Reporting σ]

/-- The reporter of the state. -/
def theReporter : Step σ Reporter := do return reporter (← Step.state)

/-- Puts a file into the traceback, without a line. -/
def registerFile (path : Text) : Step σ Unit :=
  Step.update (withReporter (Reporter.setPlace path .whole))

/-- Puts a line into the traceback, before it is worked on. -/
def registerLine (path : Text) (text : Option Text) (number : Int) : Step σ Unit :=
  Step.update (withReporter (Reporter.setPlace path (.line text number)))

/-- Takes a line out of the traceback, after it has been worked on. -/
def removeLine (path : Text) : Step σ Unit := registerFile path

/-- Reports a warning.  A template without the snippets it needs is a fault. -/
def warn (notice : Notice) : Step σ Unit := do
  let p ← Step.check (notice.problem .general)
  let r ← theReporter
  Step.printLine (r.traceback.origin ++ Doc.styled .warning "warning: " ++ p.message)
  if p.showsSubject then Step.printLine (p.diagnosis .warning)

/-- Reports an error, and then ends the program or forgets where it was. -/
def report (p : Problem) : Step σ Unit := do
  let r ← theReporter
  let label := if p.internal then Doc.styled .error "[internal] " else []
  Step.printLine
    (Doc.plain r.traceback.heading ++ label ++ Doc.styled .error "error: " ++ p.message)
  if p.showsSubject then Step.printLine (p.diagnosis .error)
  if r.fatal then Step.raise (.exit 1)
  Step.update (withReporter fun r => { r with traceback := r.traceback.clear })

/-- Reports the problem that a notice announces. -/
def reportNotice (notice : Notice) : Step σ Unit := do
  report (← Step.check (notice.problem .general))

/-- The notice of a fault.  Its text is escaped, since it becomes part of the
template. -/
def faultNotice (f : Fault) : Notice :=
  { template := "unknown error: '" ++ Template.escape (f.kind ++ ": " ++ f.detail) ++ ['\'']
    internal := true }

/-- The notice that the user asked to stop. -/
def interruptNotice : Notice := { template := "keyboard interrupt" }

/-- The notice that the program nested too deeply. -/
def tooDeepNotice : Notice :=
  { template := tooDeepMessage ++ ", maximum recursion depth exceeded" }

/-- Reports the signal that cut a step short, and passes on what no report
can settle. -/
def settle : Signal → Step σ Unit
  | .interrupt => reportNotice interruptNotice
  | .exit code => Step.raise (.exit code)
  | .tooDeep => reportNotice tooDeepNotice
  | .problem p => report p
  | .fault f => do
    reportNotice (faultNotice f)
    Step.raise (.fault f)

/-- Runs a step and settles the signal that cuts it short.  There is an
answer only if the step came to its end. -/
def guarded (step : Step σ α) : Step σ (Option α) :=
  Step.recover (do return some (← step)) fun signal => do
    settle signal
    return none

end Reporting

end Conditional

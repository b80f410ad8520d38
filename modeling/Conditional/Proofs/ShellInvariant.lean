import Conditional.Proofs.Conversation

/-!
# Conditional.Proofs.ShellInvariant

What holds of a shell between any two of its lines.  Whatever lines a shell is
given, to be carried out or to be taken as lines of a statement without
looking for a command in them (`Shell.Call`), it is in order after each of
them (`Shell.Orderly`): it keeps text only if that text has to go on, it asks
for what it waits for, and its session has nothing left to run, to print or to
report.

The invariant that carries the induction is that the shell is idle and keeps
unfinished text or none (`Shell.Waits`).  A command changes the text that is
kept only if it is the line of a statement, and then the number of such lines
goes up by one.
-/

namespace Conditional

open LogicalLine

namespace Shell

open Step

/-! ## Calls -/

/-- A line that is given to a shell. -/
inductive Call where
  /-- A line to be carried out. -/
  | line (text : Text)
  /-- A line of a statement, even if it looks like a command. -/
  | statement (text : Text)
deriving DecidableEq, Repr

namespace Call

/-- What the shell does on a call. -/
def step : Call → Step Shell Reply
  | line text => onLine text
  | statement text => perform (.statement text)

/-- The command that a call comes to. -/
def command : Call → Command
  | line text => Command.ofLine text
  | statement text => .statement text

theorem step_eq_perform (call : Call) : call.step = perform call.command := by
  cases call <;> rfl

/-- The call is taken as a line of a statement. -/
def isStatement (call : Call) : Bool :=
  match call.command with
  | .statement _ => true
  | _ => false

end Call

/-- The shell after some calls, one after another. -/
def after (s : Shell) (calls : List Call) : Shell :=
  calls.foldl (fun s call => (call.step.run s).state) s

theorem after_cons (s : Shell) (call : Call) (calls : List Call) :
    s.after (call :: calls) = ((call.step.run s).state).after calls := rfl

/-! ## The invariant -/

/-- The shell has taken in so many lines of statements, and it is in order:
between two lines it has nothing to do. -/
structure Orderly (taken : Nat) (s : Shell) : Prop where
  pending_open : s.pending ≠ [] → s.pending.count ')' < s.pending.count '('
  pending_trimmed : ∀ c ∈ s.pending.getLast?, Text.isSpace c = false
  prompt_further : s.prompt = ". " ↔ s.pending ≠ []
  prompt_first : s.prompt = "> " ↔ s.pending = []
  queue_eq : s.session.queue = []
  results_eq : s.session.results = []
  traceback_eq : s.session.reporter.traceback = ([("<in>", .whole)] : Traceback)
  not_fatal : s.session.reporter.fatal = false
  lineNumber_eq : s.lineNumber = taken

/-- Text that a shell keeps: the beginning of a statement that has to go on,
without whitespace at its end, or nothing. -/
def Unfinished (text : Text) : Prop :=
  (text ≠ [] → isOpen text) ∧ ∀ c ∈ text.getLast?, Text.isSpace c = false

theorem unfinished_nil : Unfinished [] := by simp [Unfinished]

/-- The shell is idle after so many lines of statements. -/
def Waits (taken : Nat) (s : Shell) : Prop :=
  ∃ view pending, s = idle view pending taken ∧ Unfinished pending

theorem waits_start (view : View) : Waits 0 (start view) := ⟨view, [], rfl, unfinished_nil⟩

/-- What is kept of the text of a statement is unfinished. -/
theorem Responds.unfinished {view : View} {pending line pending' : Text} {number : Int} {d : Doc}
    (h : Responds view (withLine pending line) number pending' d) : Unfinished pending' := by
  cases h with
  | goesOn hopen => exact ⟨fun _ => hopen, Text.isSpace_getLast?_trimEnd _⟩
  | nothing | answers | mistake => exact unfinished_nil

namespace Waits

variable {taken : Nat} {s : Shell}

/-- After a call the shell waits again, and the call counts if it was taken as
a line of a statement. -/
theorem step (h : Waits taken s) (call : Call) :
    Waits (taken + call.isStatement.toNat) (call.step.run s).state := by
  obtain ⟨view, pending, rfl, hpending⟩ := h
  obtain ⟨s', d, reply, hreacts⟩ := exists_reacts view pending taken call.command
  rw [call.step_eq_perform, hreacts.run_perform, Call.isStatement]
  generalize call.command = command at hreacts
  cases hreacts with
  | blank => exact ⟨view, pending, rfl, hpending⟩
  | switch switch argument => cases switch <;> exact ⟨_, pending, rfl, hpending⟩
  | help => exact ⟨view, pending, rfl, hpending⟩
  | endOfInput => exact ⟨view, pending, rfl, hpending⟩
  | exit => exact ⟨view, pending, rfl, hpending⟩
  | statement hresponds => exact ⟨view, _, rfl, hresponds.unfinished⟩

theorem after (h : Waits taken s) (calls : List Call) :
    Waits (taken + calls.countP Call.isStatement) (s.after calls) := by
  induction calls generalizing taken s with
  | nil => exact h
  | cons call calls ih =>
      have hrest := ih (h.step call)
      have hcount : taken + call.isStatement.toNat + calls.countP Call.isStatement =
          taken + (call :: calls).countP Call.isStatement := by
        rw [List.countP_cons]
        cases call.isStatement <;> simp; omega
      rwa [hcount] at hrest

/-- A shell that waits is in order. -/
theorem orderly (h : Waits taken s) : Orderly taken s := by
  obtain ⟨view, pending, rfl, hopen, htrimmed⟩ := h
  exact {
    pending_open := fun hsome => of_decide_eq_true (hopen hsome)
    pending_trimmed := htrimmed
    prompt_further := promptFor_eq_further_iff
    prompt_first := promptFor_eq_first_iff
    queue_eq := rfl
    results_eq := rfl
    traceback_eq := rfl
    not_fatal := rfl
    lineNumber_eq := rfl }

end Waits

/-- **A shell is in order between its lines.**  After any sequence of lines it
waits for what it asks for, it has nothing left to do, and it has counted the
lines that were taken as lines of a statement. -/
theorem orderly_after (view : View) (calls : List Call) :
    Orderly (calls.countP Call.isStatement) ((start view).after calls) := by
  have hwaits := (waits_start view).after calls
  rw [Nat.zero_add] at hwaits
  exact hwaits.orderly

end Shell

end Conditional

import Conditional.Proofs.Blame
import Conditional.Proofs.ExpressionRun
import Conditional.Proofs.ShellInvariant

/-!
# Conditional.Proofs.Interference

What is displayed has no influence on what is evaluated.  The commands for the
display switches, the command for help and blank lines can stand anywhere
between the lines of statements, and it makes no difference to the statements
whether they do (`Shell.display_does_not_interfere`).

Two runs are compared: that of a script, and that of the script without some
of these lines.  What the runs have in common is that both shells are idle and
wait for the same line; they differ in their views at most (`Shell.Alike`).  A
line that is in both scripts keeps it so, because the reaction to the line in
one view is the reaction in the other view but for the parts of results that
are shown (`Shell.Reacts.exists_inView`).  A line that is in one of the scripts
keeps it so, because it changes nothing but the view
(`Shell.Reacts.exists_view`).
-/

namespace Conditional

/-! ## Reports and values on the screen -/

/-- The label in the report of an error. -/
def errorLabel : Span := ⟨.error, "error: "⟩

theorem errorLabel_not_mem_plain (t : Text) : errorLabel ∉ Doc.plain t := by
  simp [errorLabel, Doc.plain]

/-- The document ends with the line. -/
def Doc.EndsWithLine (d : Doc) (line : Text) : Prop :=
  ∃ front, d.text = front ++ line ++ ['\n'] ∧ ∀ c ∈ front.getLast?, c = '\n'

namespace Session

variable {view : View} {t : Term} {d : Doc}

/-- No report is printed for a term that has a value. -/
theorem Prints.errorLabel_not_mem (h : Prints view t d) : errorLabel ∉ d := by
  obtain ⟨number, r, shown, -, -, -, rfl⟩ := h
  simp [errorLabel_not_mem_plain]

theorem getLast?_preamble (view : View) (tree lines : Text) :
    ∀ c ∈ (preamble view tree lines).getLast?, c = '\n' := by
  unfold preamble
  cases view.tree <;> cases view.trace <;> simp [List.getLast?_cons]

/-- Whatever is shown of a result, the value is on the last line. -/
theorem Prints.endsWithLine {v : Bool} (h : Prints view t d) (hnative : t.Native)
    (hv : Evaluates t v) : d.EndsWithLine (spellBool v) := by
  obtain ⟨tree, lines, rfl⟩ := h.exists_eq_preamble hnative hv
  exact ⟨preamble view tree lines, by simp [Doc.text, Doc.plain],
    getLast?_preamble view tree lines⟩

end Session

/-! ## Commands for the display -/

namespace Command

/-- The command is about the display only, or about nothing. -/
def ForDisplay : Command → Prop
  | .blank | .tree _ | .trace _ | .help => True
  | _ => False

instance : DecidablePred ForDisplay := fun command => by
  cases command <;> unfold ForDisplay <;> infer_instance

end Command

namespace Shell

open Session

variable {view : View} {pending text : Text} {number : Nat} {command : Command} {s s' : Shell}
  {d : Doc} {reply : Reply}

theorem Switch.wanted_eq_none_iff {switch : Switch} {argument : Text} (view view' : View) :
    switch.wanted argument view = none ↔ switch.wanted argument view' = none := by
  unfold wanted
  split_ifs <;> simp

/-- A switch reports an argument that it does not understand, and then its
answer is the same in every view. -/
theorem switchAnswer_eq_of_errorLabel {switch : Switch} {argument : Text}
    (h : errorLabel ∈ switchAnswer switch argument view) (view' : View) :
    switchAnswer switch argument view' = switchAnswer switch argument view := by
  unfold switchAnswer at h ⊢
  cases hwanted : switch.wanted argument view with
  | some b =>
      rw [hwanted] at h
      simp [errorLabel_not_mem_plain] at h
  | none => rw [(Switch.wanted_eq_none_iff view view').1 hwanted]

/-! ## One line in two views -/

/-- A text has the same response in another view, but for what is shown of a
result. -/
theorem Responds.exists_inView {number : Int} {pending : Text}
    (h : Responds view text number pending d) (view' : View) :
    ∃ d', Responds view' text number pending d' ∧
      (errorLabel ∈ d ∨ errorLabel ∈ d' → d' = d) := by
  cases h with
  | goesOn hopen => exact ⟨[], .goesOn hopen, fun _ => rfl⟩
  | nothing hnil => exact ⟨[], .nothing hnil, fun _ => rfl⟩
  | answers hanswers =>
      obtain ⟨t, ht, hd⟩ := hanswers
      obtain ⟨d', hd'⟩ := (native_of_parse ht).exists_prints view'
      refine ⟨d', .answers ⟨t, ht, hd'⟩, ?_⟩
      rintro (hlabel | hlabel)
      · exact absurd hlabel hd.errorLabel_not_mem
      · exact absurd hlabel hd'.errorLabel_not_mem
  | mistake hsome hopen herror hp => exact ⟨_, .mistake hsome hopen herror hp, fun _ => rfl⟩

/-- The shells wait for the same line, and differ in their views at most. -/
def Alike (s s' : Shell) : Prop :=
  ∃ view view' pending number, s = idle view pending number ∧ s' = idle view' pending number

/-- A command has the same reaction in another view, but for what is shown of a
result and for the position that a switch is flipped to. -/
theorem Reacts.exists_inView (h : Reacts view pending number command s d reply) (view' : View) :
    ∃ s' d', Reacts view' pending number command s' d' reply ∧ Alike s s' ∧
      (errorLabel ∈ d ∨ errorLabel ∈ d' → d' = d) := by
  cases h with
  | blank => exact ⟨_, _, .blank, ⟨_, _, _, _, rfl, rfl⟩, fun _ => rfl⟩
  | switch switch argument =>
      refine ⟨_, _, .switch switch argument, ⟨_, _, _, _, rfl, rfl⟩, ?_⟩
      rintro (hlabel | hlabel)
      · exact switchAnswer_eq_of_errorLabel hlabel view'
      · exact (switchAnswer_eq_of_errorLabel hlabel view).symm
  | help => exact ⟨_, _, .help, ⟨_, _, _, _, rfl, rfl⟩, fun _ => rfl⟩
  | endOfInput => exact ⟨_, _, .endOfInput, ⟨_, _, _, _, rfl, rfl⟩, fun _ => rfl⟩
  | exit => exact ⟨_, _, .exit, ⟨_, _, _, _, rfl, rfl⟩, fun _ => rfl⟩
  | statement hresponds =>
      obtain ⟨d', hd', hsame⟩ := hresponds.exists_inView view'
      exact ⟨_, d', .statement hd', ⟨_, _, _, _, rfl, rfl⟩, hsame⟩

/-- A command for the display changes nothing but the view. -/
theorem Reacts.exists_view (h : Reacts view pending number command s d reply)
    (hdisplay : command.ForDisplay) : ∃ view', s = idle view' pending number := by
  cases h with
  | blank => exact ⟨view, rfl⟩
  | switch switch argument => exact ⟨_, rfl⟩
  | help => exact ⟨view, rfl⟩
  | endOfInput => exact hdisplay.elim
  | exit => exact hdisplay.elim
  | statement _ => exact hdisplay.elim

/-! ## Two shells -/

/-- What the two shells do with the line is the same, but for what is shown of
results and for the positions of the display switches. -/
structure Undisturbed (s s' : Shell) (line : Text) : Prop where
  answer_eq : ((onLine line).run s').answer = ((onLine line).run s).answer
  pending_eq : ((onLine line).run s').state.pending = ((onLine line).run s).state.pending
  prompt_eq : ((onLine line).run s').state.prompt = ((onLine line).run s).state.prompt
  lineNumber_eq :
    ((onLine line).run s').state.lineNumber = ((onLine line).run s).state.lineNumber
  traceback_eq :
    ((onLine line).run s').state.session.reporter.traceback =
      ((onLine line).run s).state.session.reporter.traceback
  /-- If one of them reports an error, both print this report. -/
  report_eq :
    errorLabel ∈ ((onLine line).run s).output ∨ errorLabel ∈ ((onLine line).run s').output →
      ((onLine line).run s').output = ((onLine line).run s).output
  /-- If the line completes a statement that can be evaluated, both end with its
  value. -/
  value_eq : ∀ piece t, Command.ofLine line = .statement piece → parse (s.joined piece) = .ok t →
    ∃ v, Evaluates t v ∧ ((onLine line).run s).output.EndsWithLine (spellBool v) ∧
      ((onLine line).run s').output.EndsWithLine (spellBool v)
  /-- In the same view everything is the same. -/
  output_eq : s'.session.view = s.session.view →
    ((onLine line).run s').output = ((onLine line).run s).output

/-- An idle shell ends what it prints for a statement with its value. -/
theorem endsWithLine_of_parse {line piece : Text} {t : Term} {v : Bool}
    (hline : Command.ofLine line = .statement piece)
    (ht : parse (withLine pending piece) = .ok t) (hv : Evaluates t v) (view : View)
    (number : Nat) :
    ((onLine line).run (idle view pending number)).output.EndsWithLine (spellBool v) := by
  obtain ⟨d, hd⟩ := (native_of_parse ht).exists_prints view
  rw [onLine, hline, run_statement number (.answers ⟨t, ht, hd⟩)]
  exact hd.endsWithLine (native_of_parse ht) hv

namespace Alike

theorem refl_of_reached (h : Reached s) : Alike s s := by
  obtain ⟨view, pending, number, rfl⟩ := h.exists_idle
  exact ⟨view, view, pending, number, rfl, rfl⟩

/-- Shells that are alike are alike after a line. -/
theorem onLine (h : Alike s s') (line : Text) :
    Alike ((onLine line).run s).state ((Shell.onLine line).run s').state := by
  obtain ⟨view, view', pending, number, rfl, rfl⟩ := h
  obtain ⟨_, _, _, hreacts⟩ := exists_reacts view pending number (Command.ofLine line)
  obtain ⟨_, _, hreacts', halike, -⟩ := hreacts.exists_inView view'
  rw [Shell.onLine, hreacts.run_perform, hreacts'.run_perform]
  exact halike

/-- They are alike after a line for the display that only one of them gets. -/
theorem onLine_left (h : Alike s s') {line : Text} (hline : (Command.ofLine line).ForDisplay) :
    Alike ((Shell.onLine line).run s).state s' := by
  obtain ⟨view, view', pending, number, rfl, rfl⟩ := h
  obtain ⟨_, _, _, hreacts⟩ := exists_reacts view pending number (Command.ofLine line)
  obtain ⟨view₁, rfl⟩ := hreacts.exists_view hline
  rw [Shell.onLine, hreacts.run_perform]
  exact ⟨view₁, view', pending, number, rfl, rfl⟩

/-- Shells that are alike do the same with a line. -/
theorem undisturbed (h : Alike s s') (line : Text) : Undisturbed s s' line := by
  obtain ⟨view, view', pending, number, rfl, rfl⟩ := h
  obtain ⟨t, d, reply, hreacts⟩ := exists_reacts view pending number (Command.ofLine line)
  obtain ⟨t', d', hreacts', ⟨_, _, _, _, rfl, rfl⟩, hreport⟩ := hreacts.exists_inView view'
  have hrun : (Shell.onLine line).run (idle view pending number) = _ := hreacts.run_perform
  have hrun' : (Shell.onLine line).run (idle view' pending number) = _ := hreacts'.run_perform
  constructor
  case answer_eq => rw [hrun, hrun']
  case pending_eq | prompt_eq | lineNumber_eq | traceback_eq =>
    rw [hrun, hrun']
    rfl
  case report_eq =>
    rw [hrun, hrun']
    exact hreport
  case value_eq =>
    intro piece t hline ht
    obtain ⟨v, hv⟩ := (native_of_parse ht).exists_evaluates
    exact ⟨v, hv, endsWithLine_of_parse hline ht hv view number,
      endsWithLine_of_parse hline ht hv view' number⟩
  case output_eq =>
    intro hview
    obtain rfl : view' = view := hview
    rw [hrun]

end Alike

/-! ## Scripts -/

/-- A script in which some of the lines are marked to be kept. -/
abbrev Marked := List (Text × Bool)

namespace Marked

/-- All lines of the script. -/
def lines (script : Marked) : List Text := script.map Prod.fst

/-- The lines that are kept. -/
def kept (script : Marked) : List Text := (script.filter Prod.snd).map Prod.fst

end Marked

/-- Deleting lines for the display keeps shells alike. -/
theorem Alike.after (h : Alike s s') {script : Marked}
    (hdeleted : ∀ entry ∈ script, entry.2 = false → (Command.ofLine entry.1).ForDisplay) :
    Alike (s.after (script.lines.map .line)) (s'.after (script.kept.map .line)) := by
  induction script generalizing s s' with
  | nil => exact h
  | cons entry script ih =>
      obtain ⟨line, keep⟩ := entry
      rw [List.forall_mem_cons] at hdeleted
      obtain ⟨hline, hdeleted⟩ := hdeleted
      cases keep with
      | true => exact ih (h.onLine line) hdeleted
      | false => exact ih (h.onLine_left (hline rfl)) hdeleted

/-- **The display does not interfere with evaluation.**  Lines of a script that
are blank or commands for the display can be deleted, however many and wherever
they stand: with every line that is kept the shell does the same, but for what
is shown of results. -/
theorem display_does_not_interfere (view : View) {script before after : Marked} {line : Text}
    (hdeleted : ∀ entry ∈ script, entry.2 = false → (Command.ofLine entry.1).ForDisplay)
    (hscript : script = before ++ (line, true) :: after) :
    Undisturbed ((start view).after (before.lines.map .line))
      ((start view).after (before.kept.map .line)) line := by
  rw [hscript, List.forall_mem_append] at hdeleted
  have halike := Alike.refl_of_reached (.start view)
  exact (halike.after hdeleted.1).undisturbed line

/-- A statement on three lines, with commands for the display between them.  One
of these has an argument that is not understood. -/
def interruptedScript : Marked :=
  [("tree", false), ("(if true", true), ("", false), ("trace perhaps", false),
    ("then false", true), ("trace", false)]

theorem display_does_not_interfere_interrupted :
    (∀ entry ∈ interruptedScript ++ [(("else true)" : Text), true)],
        entry.2 = false → (Command.ofLine entry.1).ForDisplay) ∧
      ((start ⟨false, false⟩).after (interruptedScript.lines.map .line)).session.view =
        ⟨true, true⟩ ∧
      ((start ⟨false, false⟩).after (interruptedScript.kept.map .line)).session.view =
        ⟨false, false⟩ ∧
      Undisturbed ((start ⟨false, false⟩).after (interruptedScript.lines.map .line))
        ((start ⟨false, false⟩).after (interruptedScript.kept.map .line)) "else true)" := by
  have hdeleted : ∀ entry ∈ interruptedScript ++ [(("else true)" : Text), true)],
      entry.2 = false → (Command.ofLine entry.1).ForDisplay := by decide
  exact ⟨hdeleted, by decide, by decide, display_does_not_interfere ⟨false, false⟩ hdeleted rfl⟩

end Shell

end Conditional

import Conditional.Proofs.Continuation
import Conditional.Proofs.ExpressionRun
import Conditional.Proofs.ShellInvariant

/-!
# Conditional.Proofs.Isolation

A mistake stays alone.  A statement that cannot be parsed adds its prompts and
one report to what the shell prints, and then the shell goes on as if the
statement had not been there, except that it has counted the lines
(`Shell.mistake_isolated`).

There are two parts to this.  The lines of a statement (`Shell.Completes`) lead
an idle shell to an idle shell without a text, whatever becomes of the
statement; only the number of lines is larger (`Shell.Completes.run`).  And the
number is never looked at, but for the headings of reports: what an idle shell
does on a command is what it does with another number, up to these headings
(`Shell.Reacts.exists_later`).
-/

namespace Conditional

open LogicalLine

/-! ## Lines of statements -/

theorem Text.Blank.of_trim {t : Text} (h : (Text.trim t).Blank) : t.Blank := by
  obtain ⟨v, w, hv, hw, ht⟩ := exists_trim t
  intro c hc
  rw [ht, List.mem_append, List.mem_append] at hc
  obtain hc | hc | hc := hc
  · exact hv c hc
  · exact h c hc
  · exact hw c hc

namespace Command

/-- A statement is the whole line. -/
theorem eq_trim_of_ofLine {line piece : Text} (h : ofLine line = .statement piece) :
    piece = Text.trim line ∧ ¬ line.Blank := by
  obtain ⟨hline, -, hpiece⟩ := ofLine_eq_statement_iff.1 h
  exact ⟨hpiece, hline⟩

end Command

namespace Shell

open Step Reporting Session

variable {view : View} {pending text : Text} {lines : List Text}

/-- A line of a statement leaves no statement without a text. -/
theorem withLine_ne_nil {line piece : Text} (h : Command.ofLine line = .statement piece)
    (pending : Text) : withLine pending piece ≠ [] := by
  obtain ⟨rfl, hline⟩ := Command.eq_trim_of_ofLine h
  intro hnil
  have hblank := Text.trimEnd_eq_nil_iff.1 hnil
  refine hline (.of_trim fun c hc => hblank c ?_)
  split_ifs
  · exact hc
  · exact List.mem_append_right _ (List.mem_cons_of_mem _ hc)

/-- The lines are those with which a shell completes the statement of which it
has the text `pending`, and the statement comes to the text: no line is a
command, the statement goes on behind each of its lines but the last, and blank
lines between them do not count. -/
inductive Completes : Text → List Text → Text → Prop where
  | last {pending line piece : Text} :
      Command.ofLine line = .statement piece → isOpen (withLine pending piece) = false →
      Completes pending [line] (withLine pending piece)
  | more {pending line piece text : Text} {lines : List Text} :
      Command.ofLine line = .statement piece → isOpen (withLine pending piece) = true →
      Completes (withLine pending piece) lines text → Completes pending (line :: lines) text
  | blank {pending line text : Text} {lines : List Text} :
      line.Blank → pending ≠ [] → Completes pending lines text →
      Completes pending (line :: lines) text

/-- There is a line, so one more line is one more of what comes before the last. -/
theorem Completes.replicate_length {α : Type} (h : Completes pending lines text) (line : Text)
    (a : α) :
    List.replicate ((line :: lines).length - 1) a = a :: List.replicate (lines.length - 1) a := by
  cases h <;> rfl

/-- How many of the lines a shell counts. -/
def counted (lines : List Text) : Nat := lines.countP fun line => ¬ line.Blank

theorem counted_cons_of_blank {line : Text} (h : line.Blank) (lines : List Text) :
    counted (line :: lines) = counted lines := by
  simp [counted, h]

theorem counted_cons_of_ofLine {line piece : Text} (h : Command.ofLine line = .statement piece)
    (lines : List Text) : counted (line :: lines) = counted lines + 1 := by
  simp [counted, (Command.eq_trim_of_ofLine h).2]

/-- An idle shell takes the lines of a statement that cannot be parsed without
printing anything but prompts, and then it reports the mistake. -/
theorem Completes.run {e : SourceError} {p : Problem} (h : Completes pending lines text)
    (herror : parse text = .error e) (hp : e.problem text = .ok p) (view : View) (number : Nat) :
    (idle view pending number).after (lines.map .line) =
        idle view [] (number + counted lines) ∧
      ((idle view pending number).exchanges lines).map Prod.fst =
        promptFor pending :: List.replicate (lines.length - 1) furtherPrompt ∧
      ((idle view pending number).exchanges lines).map Prod.snd =
        List.replicate (lines.length - 1) [] ++
          [p.announcement (lineHeading inputPath text (number + counted lines : Nat))] := by
  induction h generalizing number with
  | @last pending line piece hline hopen =>
      have hresponds : Responds view (withLine pending piece) (number + 1 : Nat) [] _ :=
        .mistake (withLine_ne_nil hline pending) hopen herror hp
      have hrun := run_statement number hresponds
      rw [← hline] at hrun
      have hcounted := counted_cons_of_ofLine hline []
      rw [List.map_singleton, after_cons, Call.step, exchanges, exchanges, onLine, hrun, hcounted]
      exact ⟨rfl, rfl, rfl⟩
  | @more pending line piece text lines hline hopen hlines ih =>
      have hresponds : Responds view (withLine pending piece) (number + 1 : Nat) _ [] :=
        .goesOn hopen
      have hrun := run_statement number hresponds
      rw [← hline] at hrun
      obtain ⟨hafter, hprompts, houtputs⟩ := ih herror hp (number + 1)
      have hcounted : number + 1 + counted lines = number + counted (line :: lines) := by
        rw [counted_cons_of_ofLine hline]
        omega
      rw [hcounted] at hafter houtputs
      rw [promptFor_of_isOpen hopen] at hprompts
      rw [List.map_cons, after_cons, Call.step, exchanges, onLine, hrun]
      refine ⟨hafter, ?_, ?_⟩
      · rw [List.map_cons, hprompts, hlines.replicate_length]
        rfl
      · rw [List.map_cons, houtputs, hlines.replicate_length]
        rfl
  | @blank pending line text lines hline hpending hlines ih =>
      have hrun := onLine_of_blank hline (idle view pending number)
      obtain ⟨hafter, hprompts, houtputs⟩ := ih herror hp number
      rw [promptFor_eq_further_iff.2 hpending] at hprompts
      rw [List.map_cons, after_cons, Call.step, exchanges, hrun, counted_cons_of_blank hline]
      refine ⟨hafter, ?_, ?_⟩
      · rw [List.map_cons, hprompts, hlines.replicate_length]
        rfl
      · rw [List.map_cons, houtputs, hlines.replicate_length]
        rfl

/-! ## Headings -/

/-- The document does not begin with a heading that names a line of the input. -/
def Unheaded (d : Doc) : Prop :=
  ∀ (text : Text) (number : Int) (rest : Doc),
    d ≠ Doc.plain (lineHeading inputPath text number) ++ rest

/-- What begins with text that ends within a line has no heading. -/
theorem unheaded_plain {t : Text} (h : t.getLast? ≠ some '\n') (d : Doc) :
    Unheaded (Doc.plain t ++ d) := by
  intro text number rest heq
  obtain ⟨hspan, -⟩ := List.cons.inj heq
  have ht : t = lineHeading inputPath text number := congrArg Span.text hspan
  rw [ht] at h
  simp [lineHeading] at h

theorem unheaded_nil : Unheaded [] := by
  intro text number rest heq
  simp [Doc.plain] at heq

theorem unheaded_newline : Unheaded (Doc.plain ['\n']) := by
  intro text number rest heq
  obtain ⟨hspan, -⟩ := List.cons.inj heq
  have hchar : some '\n' = some ' ' := congrArg (fun span => span.text.head?) hspan
  contradiction

/-- What is printed for a term ends with its value, and so it has no heading. -/
theorem unheaded_of_answers {d : Doc} (h : Answers view text d) : Unheaded d := by
  obtain ⟨t, ht, hd⟩ := h
  have hnative := native_of_parse ht
  obtain ⟨v, hv⟩ := hnative.exists_evaluates
  obtain ⟨tree, shown, rfl⟩ := hd.exists_eq_preamble hnative hv
  refine unheaded_plain ?_ _
  cases v <;> simp [spellBool, List.getLast?_cons]

theorem getLast?_helpText : helpText.getLast? = some '.' := by
  unfold helpText
  rw [List.getLast?_append]
  rfl

theorem unheaded_switchAnswer (switch : Switch) (argument : Text) (view : View) :
    Unheaded (switchAnswer switch argument view) := by
  unfold switchAnswer
  cases switch.wanted argument view with
  | some b =>
      refine unheaded_plain ?_ _
      cases b <;> simp [Text.lit, List.getLast?_cons]
  | none =>
      simp only [Problem.announcement, List.append_assoc]
      exact unheaded_plain (by simp) _

/-- The documents are the same, or they begin with headings for the same line
whose number is larger by `more` in the second one. -/
inductive Renumbered (number more : Nat) : Doc → Doc → Prop where
  | same {d : Doc} : Unheaded d → Renumbered number more d d
  | headed (text : Text) (rest : Doc) :
      Renumbered number more (Doc.plain (lineHeading inputPath text number) ++ rest)
        (Doc.plain (lineHeading inputPath text (number + more : Nat)) ++ rest)

/-! ## Shells that have counted more lines -/

/-- The shell, had it counted more lines. -/
def later (s : Shell) (more : Nat) : Shell := { s with lineNumber := s.lineNumber + more }

variable {number : Nat} {command : Command} {s s' : Shell} {d : Doc} {reply : Reply}

/-- The number of a text matters only for the heading of a report about it. -/
theorem Responds.exists_later (h : Responds view text (number : Nat) pending d) (more : Nat) :
    ∃ d', Responds view text (number + more : Nat) pending d' ∧ Renumbered number more d d' := by
  cases h with
  | goesOn hopen => exact ⟨[], .goesOn hopen, .same unheaded_nil⟩
  | nothing hnil => exact ⟨[], .nothing hnil, .same unheaded_nil⟩
  | answers hanswers => exact ⟨d, .answers hanswers, .same (unheaded_of_answers hanswers)⟩
  | mistake hsome hopen herror hp =>
      refine ⟨_, .mistake hsome hopen herror hp, ?_⟩
      simp only [Problem.announcement, List.append_assoc]
      exact .headed _ _

/-- So does the number of lines that a shell has counted. -/
theorem Reacts.exists_later (h : Reacts view pending number command s d reply) (more : Nat) :
    ∃ d', Reacts view pending (number + more) command (s.later more) d' reply ∧
      Renumbered s.lineNumber more d d' := by
  cases h with
  | blank => exact ⟨[], .blank, .same unheaded_nil⟩
  | switch switch argument =>
      exact ⟨_, .switch switch argument, .same (unheaded_switchAnswer switch argument view)⟩
  | help => exact ⟨_, .help, .same (unheaded_plain (by simp [getLast?_helpText]) _)⟩
  | endOfInput => exact ⟨_, .endOfInput, .same unheaded_newline⟩
  | exit => exact ⟨[], .exit, .same unheaded_nil⟩
  | statement hresponds =>
      obtain ⟨d', hd', hrenumbered⟩ := hresponds.exists_later more
      rw [Nat.add_right_comm] at hd'
      have hreacts := Reacts.statement hd'
      rw [← Nat.add_right_comm] at hreacts
      exact ⟨d', hreacts, hrenumbered⟩

namespace Reached

/-- What a shell in use does with a line is what it does if it has counted more
lines, up to the numbers in reports. -/
theorem onLine_later (h : Reached s) (line : Text) (more : Nat) :
    ∃ d', (Shell.onLine line).run (s.later more) =
        ⟨((Shell.onLine line).run s).state.later more, d', ((Shell.onLine line).run s).answer⟩ ∧
      Renumbered ((Shell.onLine line).run s).state.lineNumber more
        ((Shell.onLine line).run s).output d' := by
  obtain ⟨view, pending, number, rfl⟩ := h.exists_idle
  obtain ⟨s', d, reply, hreacts⟩ := exists_reacts view pending number (Command.ofLine line)
  obtain ⟨d', hreacts', hrenumbered⟩ := hreacts.exists_later more
  have hrun : (Shell.onLine line).run (idle view pending number) = _ := hreacts.run_perform
  have hrun' : (Shell.onLine line).run (idle view pending (number + more)) = _ :=
    hreacts'.run_perform
  rw [hrun]
  exact ⟨d', hrun', hrenumbered⟩

/-- So it is with any lines. -/
theorem after_later (h : Reached s) (lines : List Text) (more : Nat) :
    (s.later more).after (lines.map .line) = (s.after (lines.map .line)).later more := by
  induction lines generalizing s with
  | nil => rfl
  | cons line lines ih =>
      obtain ⟨d', hline, -⟩ := h.onLine_later line more
      rw [List.map_cons, after_cons, after_cons, Call.step, hline]
      exact ih (h.perform (Command.ofLine line))

theorem after_lines (h : Reached s) (lines : List Text) : Reached (s.after (lines.map .line)) := by
  induction lines generalizing s with
  | nil => exact h
  | cons line lines ih => exact ih (h.perform (Command.ofLine line))

end Reached

theorem after_append (s : Shell) (calls more : List Call) :
    s.after (calls ++ more) = (s.after calls).after more := List.foldl_append

/-! ## Mistakes -/

/-- **A mistake stays alone.**  At any point of a script at which no statement
is waiting to go on, the lines of a statement can be inserted that cannot be
parsed.  They add their prompts and one report.  From then on the shell has
counted the inserted lines that are not blank; it does with every later line
what it does without them, and only the numbers in the headings of reports are
larger. -/
theorem mistake_isolated (view : View) {before inserted : List Text} {text : Text}
    {e : SourceError} (hpoint : ((start view).after (before.map .line)).pending = [])
    (hinserted : Completes [] inserted text) (herror : parse text = .error e) :
    let s := (start view).after (before.map .line)
    (∃ p, e.problem text = .ok p ∧
      (s.exchanges inserted).map Prod.fst =
        ("> " : Text) :: List.replicate (inserted.length - 1) (". " : Text) ∧
      (s.exchanges inserted).map Prod.snd =
        List.replicate (inserted.length - 1) [] ++
          [p.announcement (lineHeading inputPath text (s.lineNumber + counted inserted : Nat))]) ∧
      s.after (inserted.map .line) = s.later (counted inserted) ∧
      ∀ (later : List Text) (line : Text),
        let plain := (start view).after ((before ++ later).map .line)
        let shifted := (start view).after ((before ++ inserted ++ later).map .line)
        shifted = plain.later (counted inserted) ∧
          ((onLine line).run shifted).state =
            ((onLine line).run plain).state.later (counted inserted) ∧
          ((onLine line).run shifted).answer = ((onLine line).run plain).answer ∧
          Renumbered ((onLine line).run plain).state.lineNumber (counted inserted)
            ((onLine line).run plain).output ((onLine line).run shifted).output := by
  have hreached : Reached ((start view).after (before.map .line)) :=
    (Reached.start view).after_lines before
  obtain ⟨view', pending, number, hidle⟩ := hreached.exists_idle
  rw [hidle] at hpoint
  obtain rfl : pending = [] := hpoint
  obtain ⟨p, hp⟩ := e.exists_problem text
  obtain ⟨hafter, hprompts, houtputs⟩ := hinserted.run herror hp view' number
  have hinsert : ((start view).after (before.map .line)).after (inserted.map .line) =
      ((start view).after (before.map .line)).later (counted inserted) := by
    rw [hidle, hafter]
    rfl
  refine ⟨⟨p, hp, ?_, ?_⟩, hinsert, fun later line => ?_⟩
  · rw [hidle, hprompts]
    rfl
  · rw [hidle, houtputs]
    rfl
  · dsimp only
    have hlater := hreached.after_lines later
    have hshifted : (start view).after ((before ++ inserted ++ later).map .line) =
        ((start view).after ((before ++ later).map .line)).later (counted inserted) := by
      rw [List.map_append, List.map_append, List.map_append, after_append, after_append,
        after_append, hinsert, hreached.after_later]
    have hplain : (start view).after ((before ++ later).map .line) =
        ((start view).after (before.map .line)).after (later.map .line) := by
      rw [List.map_append, after_append]
    obtain ⟨d', hrun, hrenumbered⟩ := hlater.onLine_later line (counted inserted)
    rw [← hplain] at hrun hrenumbered
    rw [hshifted, hrun]
    exact ⟨rfl, rfl, rfl, hrenumbered⟩

/-- The mistake is on the last of three lines, one of which is blank. -/
theorem mistake_isolated_branchless :
    ((start ⟨true, false⟩).after ((["trace", "true"] : List Text).map .line)).pending = [] ∧
      Completes [] ["(if true", "", "then)"] "(if true then)" ∧
      parse "(if true then)" =
        .error (.grammatical (.unexpected Token.exprStart ⟨.rparen, 13, 14⟩)) ∧
      (start ⟨true, false⟩).after
          ((["trace", "true", "(if true", "", "then)", "no"] : List Text).map .line) =
        ((start ⟨true, false⟩).after ((["trace", "true", "no"] : List Text).map .line)).later 2 := by
  have hpoint : ((start ⟨true, false⟩).after
      ((["trace", "true"] : List Text).map .line)).pending = [] := by decide +kernel
  have hinserted : Completes [] ["(if true", "", "then)"] "(if true then)" := by
    have hfirst : Command.ofLine "(if true" = .statement "(if true" := by decide
    have hlast : Command.ofLine "then)" = .statement "then)" := by decide
    exact .more hfirst (by decide) (.blank (by decide) (by decide) (.last hlast (by decide)))
  have herror : parse "(if true then)" =
      .error (.grammatical (.unexpected Token.exprStart ⟨.rparen, 13, 14⟩)) := by decide +kernel
  obtain ⟨-, -, hlater⟩ := mistake_isolated ⟨true, false⟩ hpoint hinserted herror
  exact ⟨hpoint, hinserted, herror, (hlater ["no"] []).1⟩

end Shell

end Conditional

import Conditional.Program
import Conditional.Proofs.Blame
import Conditional.Proofs.Continuation
import Conditional.Proofs.ShellInvariant

/-!
# Conditional.Proofs.ShellRun

What a run of the shell comes to.  No line brings a shell in use down: each
one has a reaction, which is never the report of an internal error, and the
shell goes on unless the line asks it to end (`Shell.Reached.exists_onLine`).
So a run reads the lines of its input up to the first one that asks it to end,
or to the end of the input if none does, and goes well in either case
(`Program.run_shell_survives`).
-/

namespace Conditional

namespace Shell

open Step Reporting Session

/-! ## Reactions -/

theorem internalLabel_not_mem_of_answers {view : View} {source : Text} {d : Doc}
    (h : Answers view source d) : internalLabel ∉ d := by
  obtain ⟨t, -, number, r, shown, -, -, -, rfl⟩ := h
  simp

theorem internalLabel_not_mem_switchAnswer (switch : Switch) (argument : Text) (view : View) :
    internalLabel ∉ switchAnswer switch argument view := by
  rw [switchAnswer]
  cases switch.wanted argument view with
  | some b => simp
  | none =>
      have hmessage : ∀ span ∈ (switchProblem switch argument).message,
          span.face = .plain ∨ span.face = .bold := by
        simp [switchProblem, Doc.plain, Doc.styled]
      have hmarked : (switchProblem switch argument).showsSubject →
          (switchProblem switch argument).marked ≠ internalLabel.text := by
        simp [Problem.showsSubject, switchProblem]
      rw [Problem.internalLabel_mem_announcement_iff hmessage hmarked]
      simp [switchProblem]

namespace Reacts

variable {view : View} {pending : Text} {number : Nat} {command : Command} {s : Shell} {d : Doc}
  {reply : Reply}

/-- No reaction is the report of an internal error. -/
theorem internalLabel_not_mem (h : Reacts view pending number command s d reply) :
    internalLabel ∉ d := by
  cases h with
  | blank => exact List.not_mem_nil
  | switch switch argument => exact internalLabel_not_mem_switchAnswer switch argument view
  | help => simp
  | endOfInput => simp
  | exit => exact List.not_mem_nil
  | statement hresponds =>
      cases hresponds with
      | goesOn => exact List.not_mem_nil
      | nothing => exact List.not_mem_nil
      | answers hanswers => exact internalLabel_not_mem_of_answers hanswers
      | mistake _ _ herror hp =>
          exact SourceError.internalLabel_not_mem_announcement herror hp _

/-- Two commands stop the shell. -/
theorem reply_eq_stop_iff (h : Reacts view pending number command s d reply) :
    reply = .stop ↔ command = .exit ∨ command = .endOfInput := by
  cases h with
  | switch switch argument => cases switch <;> simp [Switch.command]
  | _ => simp

end Reacts

/-! ## Lines -/

namespace Reached

variable {s : Shell}

theorem onLine (h : Reached s) (line : Text) : Reached ((onLine line).run s).state :=
  h.perform (Command.ofLine line)

/-- A shell in use does not fail on a line, it never reports an internal error,
and it stops if the line asks it to. -/
theorem exists_onLine (h : Reached s) (line : Text) :
    ∃ s' d reply, (Shell.onLine line).run s = ⟨s', d, .ok reply⟩ ∧ internalLabel ∉ d ∧
      (reply = .stop ↔ Command.Leaves line) := by
  obtain ⟨view, pending, number, rfl⟩ := h.exists_idle
  obtain ⟨s', d, reply, hreacts⟩ := exists_reacts view pending number (Command.ofLine line)
  refine ⟨s', d, reply, hreacts.run_perform, hreacts.internalLabel_not_mem, ?_⟩
  rw [hreacts.reply_eq_stop_iff, Command.leaves_iff]

/-- Whatever a shell in use is told, there is no internal error in its
transcript. -/
theorem internalLabel_not_mem_transcript (h : Reached s) (lines : List Text) :
    internalLabel ∉ transcript (s.exchanges lines) := by
  induction lines generalizing s with
  | nil => exact List.not_mem_nil
  | cons line lines ih =>
      obtain ⟨s', d, reply, hline, hlabel, -⟩ := h.exists_onLine line
      have hs' := h.onLine line
      rw [hline] at hs'
      rw [exchanges, hline]
      simpa [transcript, hlabel] using ih hs'

/-- Lines that do not ask a shell in use to end do not end it. -/
theorem exists_converses (h : Reached s) {lines : List Text}
    (hstay : ∀ line ∈ lines, ¬ Command.Leaves line) :
    ∃ d, Converses s lines d (s.after (lines.map .line)) ∧
      Reached (s.after (lines.map .line)) := by
  induction lines generalizing s with
  | nil => exact ⟨[], .nil, h⟩
  | cons line lines ih =>
      rw [List.forall_mem_cons] at hstay
      obtain ⟨s', d, reply, hline, -, hstop⟩ := h.exists_onLine line
      have hs' := h.onLine line
      rw [hline] at hs'
      obtain ⟨d', hconverses, hreached⟩ := ih hs' hstay.2
      have hafter : s.after ((line :: lines).map .line) = s'.after (lines.map .line) := by
        rw [List.map_cons, after_cons, Call.step, hline]
      rw [hafter]
      exact ⟨d ++ d', .cons hline (fun hreply => hstay.1 (hstop.1 hreply)) hconverses, hreached⟩

end Reached

/-- At a line that stops the shell a conversation is over, and what follows the
line is not read. -/
theorem Converses.run_converse_of_stop {s s' s'' : Shell} {before : List Text} {line : Text}
    {d d' : Doc} (h : Converses s before d s')
    (hline : (onLine line).run s' = ⟨s'', d', .ok .stop⟩) (after : List Text) :
    (converse (before ++ line :: after)).run s =
      ⟨s'', transcript (s.exchanges (before ++ [line])), .ok ()⟩ := by
  induction h with
  | @nil s =>
      rw [List.nil_append, converse, run_bind_silent (run_state s), run_bind_ok (run_print _ s),
        run_bind_ok hline]
      simp [exchanges, transcript, hline]
  | cons hfirst hreply _ ih =>
      rw [List.cons_append, run_converse_cons hfirst hreply, ih hline, List.cons_append, exchanges,
        hfirst]
      simp [transcript]

end Shell

/-! ## Runs -/

namespace Program

open Shell Step Reporting

/-- What a shell prints is what its conversation comes to. -/
theorem shellRun_of_run_converse {view : View} {input : Text} {s : Shell} {d : Doc}
    (h : (converse (Text.lines (Text.unifyNewlines input))).run (Shell.start view) =
      ⟨s, d, .ok ()⟩) :
    shellRun view input = ⟨0, Doc.plain Shell.intro ++ Doc.plain ['\n'] ++ d, []⟩ := by
  rw [shellRun, conclude, interact,
    run_guarded_ok ((run_bind_ok (run_printLine _ _)).trans (by rw [h]))]
  rfl

/-- A conversation that no line ends goes well. -/
theorem shellRun_of_converses {view : View} {input : Text} {d : Doc} {s : Shell}
    (h : Converses (Shell.start view) (Text.lines (Text.unifyNewlines input)) d s) :
    shellRun view input =
      ⟨0, Doc.plain Shell.intro ++ Doc.plain ['\n'] ++
        (transcript ((Shell.start view).exchanges (Text.lines (Text.unifyNewlines input))) ++
          (Doc.plain s.prompt ++ Doc.plain ['\n'])), []⟩ :=
  shellRun_of_run_converse h.run_converse

/-- If no line asks the shell to end, it ends at the end of its input. -/
theorem shellRun_of_stays {view : View} {input : Text}
    (hstay : ∀ line ∈ Text.lines (Text.unifyNewlines input), ¬ Command.Leaves line) :
    shellRun view input =
      ⟨0, Doc.plain Shell.intro ++ Doc.plain ['\n'] ++
        (transcript ((Shell.start view).exchanges (Text.lines (Text.unifyNewlines input))) ++
          (Doc.plain ((Shell.start view).after
            ((Text.lines (Text.unifyNewlines input)).map .line)).prompt ++
            Doc.plain ['\n'])), []⟩ := by
  obtain ⟨d, hconverses, -⟩ := (Reached.start view).exists_converses hstay
  exact shellRun_of_converses hconverses

/-- The first line that asks the shell to end does end it. -/
theorem shellRun_of_leaves {view : View} {input line : Text} {before after : List Text}
    (hlines : Text.lines (Text.unifyNewlines input) = before ++ line :: after)
    (hstay : ∀ line ∈ before, ¬ Command.Leaves line) (hleaves : Command.Leaves line) :
    shellRun view input =
      ⟨0, Doc.plain Shell.intro ++ Doc.plain ['\n'] ++
        transcript ((Shell.start view).exchanges (before ++ [line])), []⟩ := by
  obtain ⟨d, hconverses, hreached⟩ := (Reached.start view).exists_converses hstay
  obtain ⟨s', d', reply, hline, -, hstop⟩ := hreached.exists_onLine line
  obtain rfl := hstop.2 hleaves
  refine shellRun_of_run_converse (s := s') ?_
  rw [hlines]
  exact hconverses.run_converse_of_stop hline after

/-- A run of the shell goes well and reports no internal error. -/
theorem shellRun_goes_well (view : View) (input : Text) :
    (shellRun view input).exitCode = 0 ∧ internalLabel ∉ (shellRun view input).output := by
  have hlabel := (Reached.start view).internalLabel_not_mem_transcript
  cases hfind : (Text.lines (Text.unifyNewlines input)).find? (fun line => Command.Leaves line) with
  | none =>
      have hstay : ∀ line ∈ Text.lines (Text.unifyNewlines input), ¬ Command.Leaves line := by
        simpa using List.find?_eq_none.1 hfind
      rw [shellRun_of_stays hstay]
      simp [hlabel]
  | some line =>
      obtain ⟨hleaves, before, after, hlines, hstay⟩ := List.find?_eq_some_iff_append.1 hfind
      rw [shellRun_of_leaves hlines (by simpa using hstay) (by simpa using hleaves)]
      simp [hlabel]

/-- **The shell survives every input.**  A run of the shell goes well, whatever
its input.  No line brings a shell in use down or makes it report an internal
error, and a line stops it exactly if its command word is one of the two for
that.  The lines behind the first such line are not read; if there is none, the
shell ends at the end of its input. -/
theorem run_shell_survives (view : View) {arguments : List Text} (files : Session.Files)
    (input : Text) (hshell : CommandLine.read arguments =
      .ok (.run { tree := view.tree, trace := view.trace })) :
    let lines := Text.lines (Text.unifyNewlines input)
    let opening := Doc.plain Shell.intro ++ Doc.plain ['\n']
    ((run arguments files input).exitCode = 0 ∧
        internalLabel ∉ (run arguments files input).output) ∧
      (∀ s, Reached s → ∀ line, ∃ s' d reply, (onLine line).run s = ⟨s', d, .ok reply⟩ ∧
        internalLabel ∉ d ∧ (reply = .stop ↔ Command.Leaves line)) ∧
      (∀ before line after, lines = before ++ line :: after →
        (∀ line ∈ before, ¬ Command.Leaves line) → Command.Leaves line →
        run arguments files input =
          ⟨0, opening ++ transcript ((Shell.start view).exchanges (before ++ [line])), []⟩) ∧
      ((∀ line ∈ lines, ¬ Command.Leaves line) →
        run arguments files input =
          ⟨0, opening ++ (transcript ((Shell.start view).exchanges lines) ++
            (Doc.plain ((Shell.start view).after (lines.map .line)).prompt ++
              Doc.plain ['\n'])), []⟩) := by
  have hrun : run arguments files input = shellRun view input := by
    rw [run, hshell]
    rfl
  rw [hrun]
  refine ⟨shellRun_goes_well view input, fun s hs line => hs.exists_onLine line, ?_, ?_⟩
  · intro before line after hlines hstay hleaves
    exact shellRun_of_leaves hlines hstay hleaves
  · intro hstay
    exact shellRun_of_stays hstay

/-- A mistake, a statement that is not finished, the wish to leave, and a line
that nobody reads. -/
def farewellText : Text := "yes\n(true\r\n exit now\ntrue"

theorem run_shell_survives_farewell :
    CommandLine.read ["--tree"] = .ok (.run { tree := true, trace := false }) ∧
      Text.lines (Text.unifyNewlines farewellText) = ["yes", "(true"] ++ " exit now" :: ["true"] ∧
      (∀ line ∈ (["yes", "(true"] : List Text), ¬ Command.Leaves line) ∧
      Command.Leaves " exit now" ∧
      internalLabel ∉ (run ["--tree"] (fun _ => none) farewellText).output ∧
      run ["--tree"] (fun _ => none) farewellText =
        ⟨0, Doc.plain Shell.intro ++ Doc.plain ['\n'] ++
          transcript ((Shell.start ⟨true, false⟩).exchanges ["yes", "(true", " exit now"]), []⟩ := by
  have hread : CommandLine.read ["--tree"] = .ok (.run { tree := true, trace := false }) := by
    decide
  have hstay : ∀ line ∈ (["yes", "(true"] : List Text), ¬ Command.Leaves line := by decide
  have hleaves : Command.Leaves " exit now" := by decide
  obtain ⟨⟨-, hlabel⟩, -, hrun, -⟩ :=
    run_shell_survives ⟨true, false⟩ (fun _ => none) farewellText hread
  exact ⟨hread, rfl, hstay, hleaves, hlabel, hrun _ _ _ rfl hstay hleaves⟩

end Program

end Conditional

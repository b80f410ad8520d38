import Conditional.Program
import Conditional.Proofs.Assembly
import Conditional.Proofs.Encoding
import Conditional.Proofs.Statements

/-!
# Conditional.Proofs.FileRun

What a run over a file comes to.  The file is read to its end, and all of its
statements are parsed, before the first of them is run.  So there are two
cases, and nothing in between: either all statements can be parsed, and then
every one of them has its result printed (`fileRun_of_parse`), or the first
that cannot be parsed is reported, and nothing else is printed at all
(`fileRun_of_mistake`).

The numbers of statements ascend (`Groups.pairwise_number`), so no statement
takes the place of another one in the queue.
-/

namespace Conditional

open LogicalLine

/-! ## Reading a file -/

namespace Session

open Step Reporting

/-- The file is there, and this is its text. -/
structure Readable (files : Files) (path text : Text) : Prop where
  not_reserved : path ∉ reservedPaths
  nul_not_mem : '\x00' ∉ path
  decodes : ∃ bytes, files path = some bytes ∧ SourceFile.decode bytes = some text

theorem run_readText {files : Files} {text : Text} {s : Session}
    (h : Readable files s.path text) : (readText files).run s = ⟨s, [], .ok text⟩ := by
  obtain ⟨bytes, hbytes, htext⟩ := h.decodes
  rw [readText, run_bind_silent (run_state s)]
  simp only [if_neg h.not_reserved, if_neg h.nul_not_mem, hbytes, htext, run_done]

/-- What is printed for a file without statements. -/
def emptyWarning (path : Text) : Doc :=
  Doc.styled .warning "warning: " ++ Doc.plain ['\''] ++ Doc.styled .bold path ++
    Doc.plain "' contains no expressions" ++ Doc.plain ['\n']

/-- The warning is headed by the line that is being worked on, if there is
one. -/
theorem run_warn (s : Session) :
    (warn (Notice.about s.path " contains no expressions")).run s =
      ⟨s, s.reporter.traceback.origin ++ emptyWarning s.path, .ok ()⟩ := by
  have hproblem : (Notice.about s.path " contains no expressions").problem .general =
      .ok ⟨.general, Doc.plain ['\''] ++ Doc.styled .bold s.path ++
        Doc.plain "' contains no expressions", s.path, 0, s.path.length, false, false⟩ := rfl
  rw [run_warn_ok hproblem]
  simp [Problem.caution, Problem.showsSubject, emptyWarning]
  rfl

theorem AtRest.origin_eq_nil {s : Session} (h : s.AtRest) :
    s.reporter.traceback.origin = [] := by
  rw [h]
  rfl

/-- What loading a file prints beside what adding its statements does. -/
def loadWarning (path : Text) (statements : List LogicalLine) : Doc :=
  if statements = [] then emptyWarning path else []

section

variable {files : Files} {text : Text} {s : Session}

/-- Loading a file without statements is a warning. -/
theorem run_load_nil (h : Readable files s.path text)
    (hstatements : assemble (Text.lines text) = .ok []) :
    (load files).run s = ⟨s, s.reporter.traceback.origin ++ emptyWarning s.path, .ok ()⟩ := by
  rw [load, run_bind_silent (run_readText h), run_bind_silent (run_check_ok hstatements s)]
  change (state >>= fun s' => warn (Notice.about s'.path " contains no expressions") >>=
    fun _ => addAll []).run s = _
  rw [run_bind_silent (run_state s), run_bind_ok (run_warn s)]
  simp [addAll]

/-- Loading a file is adding its statements, with a warning if there are
none. -/
theorem exists_run_load {statements : List LogicalLine} (h : Readable files s.path text)
    (hstatements : assemble (Text.lines text) = .ok statements) :
    ∃ warning, (s.AtRest → warning = loadWarning s.path statements) ∧
      (load files).run s =
        ⟨((addAll statements).run s).state, warning ++ ((addAll statements).run s).output,
          ((addAll statements).run s).answer⟩ := by
  cases statements with
  | nil =>
      refine ⟨s.reporter.traceback.origin ++ emptyWarning s.path, fun hrest => ?_, ?_⟩
      · rw [hrest.origin_eq_nil]
        rfl
      · rw [run_load_nil h hstatements]
        simp [addAll]
  | cons statement statements =>
      refine ⟨[], fun _ => rfl, ?_⟩
      rw [load, run_bind_silent (run_readText h), run_bind_silent (run_check_ok hstatements s)]
      simp

theorem run_load {statements : List LogicalLine} (h : Readable files s.path text)
    (hstatements : assemble (Text.lines text) = .ok statements) (hrest : s.AtRest) :
    (load files).run s =
      ⟨((addAll statements).run s).state,
        loadWarning s.path statements ++ ((addAll statements).run s).output,
        ((addAll statements).run s).answer⟩ := by
  obtain ⟨warning, hwarning, hload⟩ := exists_run_load h hstatements
  rw [hload, hwarning hrest]

theorem run_load_of_reserved (files : Files) (h : s.path ∈ reservedPaths) :
    ∃ p, (load files).run s = ⟨s, [], .error (.problem p)⟩ := by
  have hread : (readText files).run s =
      (raiseProblem ((Notice.about s.path " is a reserved filename").problem .general)).run s := by
    rw [readText, run_bind_silent (run_state s), if_pos h]
  exact ⟨_, run_bind_error (hread.trans (run_raiseProblem rfl s))⟩

theorem run_load_of_nul (files : Files) (hreserved : s.path ∉ reservedPaths)
    (h : '\x00' ∈ s.path) : (load files).run s = ⟨s, [], .error (.fault .nulInPath)⟩ := by
  refine run_bind_error ?_
  rw [readText, run_bind_silent (run_state s), if_neg hreserved, if_pos h, run_raise]

/-- A file of which all statements can be parsed is loaded and run to its
end. -/
theorem run_load_finish {statements : List LogicalLine} (h : Readable files s.path text)
    (hstatements : assemble (Text.lines text) = .ok statements) (hrest : s.AtRest)
    (hqueue : s.queue = []) (hresults : s.results = [])
    (hparse : ∀ statement ∈ statements, statement.Parses) :
    ∃ docs, List.Forall₂ (fun statement d => Answers s.view statement.text d) statements docs ∧
      (do load files; run; drain : Step Session Unit).run s =
        ⟨s, loadWarning s.path statements ++ docs.flatten, .ok ()⟩ := by
  obtain ⟨entries, hentries⟩ := exists_entries hparse
  have hadd := run_addAll_ok hentries (assemble_eq_ok_iff.1 hstatements).pairwise_number hrest
    (by simp [hqueue])
  have hload := run_load h hstatements hrest
  rw [hadd, hqueue, List.nil_append, List.append_nil] at hload
  obtain ⟨docs, hprints, hfinish⟩ := run_finish (s := { s with queue := entries }) hrest hresults
    (native_of_entries hentries)
  refine ⟨docs, answers_of_entries hentries hprints, ?_⟩
  rw [run_bind_ok hload, hfinish, ← hqueue]

/-- A file with a mistake in it is loaded up to the first mistake. -/
theorem run_load_mistake {earlier later : List LogicalLine} {statement : LogicalLine}
    {e : SourceError} {p : Problem} (h : Readable files s.path text)
    (hstatements : assemble (Text.lines text) = .ok (earlier ++ statement :: later))
    (hrest : s.AtRest) (hqueue : s.queue = [])
    (hparse : ∀ statement ∈ earlier, statement.Parses)
    (herror : parse statement.text = .error e) (hp : e.problem statement.text = .ok p) :
    ∃ entries, (load files).run s =
      ⟨atLine { s with queue := entries } statement.text statement.number, [],
        .error (.problem p)⟩ := by
  obtain ⟨entries, hentries⟩ := exists_entries hparse
  have hascending := (assemble_eq_ok_iff.1 hstatements).pairwise_number
  rw [List.pairwise_append] at hascending
  have hadd := run_addAll_error hentries herror hp hascending.1 hrest hqueue later
  have hload := run_load h hstatements hrest
  have hsome : loadWarning s.path (earlier ++ statement :: later) = [] := by
    simp [loadWarning]
  rw [hadd, hsome] at hload
  exact ⟨entries, hload⟩

end

end Session

/-! ## Runs over a file -/

namespace Program

open Session Step Reporting

variable {files : Files} {path text : Text}

/-- A file that has a text and is run well can be read: a reserved name would
be a mistake, and a name with the character U+0000 would be a fault. -/
theorem readable_of_exitCode {view : View} (h : (fileRun files view path).exitCode = 0)
    (htext : ∃ bytes, files path = some bytes ∧ SourceFile.decode bytes = some text) :
    Readable files path text := by
  have hreserved : path ∉ reservedPaths := by
    intro hmem
    obtain ⟨p, hload⟩ := run_load_of_reserved
      (s := Session.start (Reporter.new true) path false view) files hmem
    rw [fileRun, conclude, run_guarded_of_fatal (run_bind_error hload) rfl] at h
    exact absurd (show (1 : Int) = 0 from h) (by decide)
  have hnul : '\x00' ∉ path := by
    intro hmem
    have hload := run_load_of_nul
      (s := Session.start (Reporter.new true) path false view) files hreserved hmem
    obtain ⟨p, hp⟩ : ∃ p, (faultNotice .nulInPath).problem .general = .ok p := ⟨_, rfl⟩
    rw [fileRun, conclude, run_guarded_fault_of_fatal (run_bind_error hload) hp rfl] at h
    exact absurd (show (1 : Int) = 0 from h) (by decide)
  exact ⟨hreserved, hnul, htext⟩

/-- A file of which all statements can be parsed has the results of all of
them printed, in their order. -/
theorem fileRun_of_parse {statements : List LogicalLine} (h : Readable files path text)
    (hstatements : assemble (Text.lines text) = .ok statements)
    (hparse : ∀ statement ∈ statements, statement.Parses) (view : View) :
    ∃ docs, List.Forall₂ (fun statement d => Answers view statement.text d) statements docs ∧
      fileRun files view path =
        ⟨0, if statements = [] then emptyWarning path else docs.flatten, []⟩ := by
  obtain ⟨docs, hdocs, hrun⟩ := run_load_finish
    (s := Session.start (Reporter.new true) path false view) h hstatements rfl rfl rfl hparse
  have houtput : loadWarning path statements ++ docs.flatten =
      if statements = [] then emptyWarning path else docs.flatten := by
    cases hdocs <;> simp [loadWarning]
  refine ⟨docs, hdocs, ?_⟩
  rw [← houtput, fileRun, conclude, runSession, run_guarded_ok hrun]
  rfl

/-- A file with a mistake in it has its first mistake reported, and nothing
else is printed. -/
theorem fileRun_of_mistake {earlier later : List LogicalLine} {statement : LogicalLine}
    {e : SourceError} {p : Problem} (h : Readable files path text)
    (hstatements : assemble (Text.lines text) = .ok (earlier ++ statement :: later))
    (hparse : ∀ statement ∈ earlier, statement.Parses)
    (herror : parse statement.text = .error e) (hp : e.problem statement.text = .ok p)
    (view : View) :
    fileRun files view path =
      ⟨1, p.announcement (lineHeading path statement.text statement.number), []⟩ := by
  obtain ⟨entries, hload⟩ := run_load_mistake
    (s := Session.start (Reporter.new true) path false view) h hstatements rfl rfl hparse herror hp
  have hheading := AtRest.headingOf_atLine
    (s := { Session.start (Reporter.new true) path false view with queue := entries }) rfl
    statement.text statement.number
  rw [fileRun, conclude, run_guarded_of_fatal (run_bind_error hload) rfl, hheading]
  rfl

/-- Among statements that cannot all be parsed there is a first one that
cannot. -/
theorem exists_first_mistake {statements : List LogicalLine}
    (h : ¬ ∀ statement ∈ statements, statement.Parses) :
    ∃ earlier statement later e, statements = earlier ++ statement :: later ∧
      (∀ statement ∈ earlier, statement.Parses) ∧
      parse statement.text = .error e := by
  induction statements with
  | nil => simp at h
  | cons first statements ih =>
      cases hfirst : parse first.text with
      | error e => exact ⟨[], first, statements, e, rfl, by simp, hfirst⟩
      | ok t =>
          have hothers : ¬ ∀ statement ∈ statements, statement.Parses := by
            intro hall
            exact h (List.forall_mem_cons.2 ⟨⟨t, hfirst⟩, hall⟩)
          obtain ⟨earlier, statement, later, e, rfl, hearlier, he⟩ := ih hothers
          exact ⟨first :: earlier, statement, later, e, rfl,
            List.forall_mem_cons.2 ⟨⟨t, hfirst⟩, hearlier⟩, he⟩

/-- A file is run well only if all of its statements can be parsed. -/
theorem parse_of_exitCode {statements : List LogicalLine} {view : View}
    (h : Readable files path text) (hstatements : assemble (Text.lines text) = .ok statements)
    (hexit : (fileRun files view path).exitCode = 0) :
    ∀ statement ∈ statements, statement.Parses := by
  by_contra hmistake
  obtain ⟨earlier, statement, later, e, rfl, hearlier, he⟩ := exists_first_mistake hmistake
  obtain ⟨p, hp⟩ := e.exists_problem statement.text
  rw [fileRun_of_mistake h hstatements hearlier he hp] at hexit
  exact absurd (show (1 : Int) = 0 from hexit) (by decide)

/-- The run prints an answer to each statement, in the order of the
statements, or a warning that there are none. -/
def AnswersAll (view : View) (path : Text) (statements : List LogicalLine) (r : Run) : Prop :=
  ∃ docs, List.Forall₂ (fun statement d => Answers view statement.text d) statements docs ∧
    r = ⟨0, if statements = [] then emptyWarning path else docs.flatten, []⟩

/-- The run reports the first of the statements that cannot be parsed, with
its number, which is that of the line on which it begins, and prints nothing
else. -/
def ReportsFirst (path : Text) (lines : List Text) (statements : List LogicalLine) (r : Run) :
    Prop :=
  ∃ (earlier later : List LogicalLine) (statement : LogicalLine) (e : SourceError) (p : Problem)
      (before after : List Text) (first : Text),
    statements = earlier ++ statement :: later ∧
    (∀ statement ∈ earlier, statement.Parses) ∧
    parse statement.text = .error e ∧ e.problem statement.text = .ok p ∧
    lines = before ++ first :: after ∧ assemble before = .ok earlier ∧ ¬ first.Blank ∧
    Text.trimEnd first <+: statement.text ∧ statement.number = before.length + 1 ∧
    r = ⟨1, Doc.plain (lineHeading path statement.text statement.number) ++
      Doc.styled .error "error: " ++ p.message ++ Doc.plain ['\n'] ++
      (p.diagnosis .error ++ Doc.plain ['\n']), []⟩

/-- **A file is run completely or not at all.**  The lines of a file add up to
statements.  If all of these can be parsed, the run ends well and answers
them; otherwise it fails with a report of the first that cannot, and no
result is printed. -/
theorem run_file_all_or_nothing {arguments : List Text} (view : View) (input : Text)
    (harguments : CommandLine.read arguments =
      .ok (.run { file := some path, tree := view.tree, trace := view.trace }))
    (hfile : Readable files path text) :
    ∃ statements, assemble (Text.lines text) = .ok statements ∧
      ((∀ statement ∈ statements, statement.Parses) →
        AnswersAll view path statements (run arguments files input)) ∧
      ((¬ ∀ statement ∈ statements, statement.Parses) →
        ReportsFirst path (Text.lines text) statements (run arguments files input)) := by
  have hrun : run arguments files input = fileRun files view path := by
    rw [run, harguments]
    rfl
  obtain ⟨statements, hgroups⟩ := exists_groups 1 (Text.lines text)
  have hstatements := assemble_eq_ok_iff.2 hgroups
  rw [hrun]
  refine ⟨statements, hstatements, fun hparse => fileRun_of_parse hfile hstatements hparse view,
    fun hmistake => ?_⟩
  obtain ⟨earlier, statement, later, e, rfl, hearlier, he⟩ := exists_first_mistake hmistake
  obtain ⟨p, hp⟩ := e.exists_problem statement.text
  have hsome := hgroups.text_ne_nil statement (by simp)
  obtain ⟨before, first, after, hlines, hnumber, hbefore, hfirst, hprefix⟩ :=
    hgroups.exists_first_line
  rw [Int.add_comm] at hnumber
  refine ⟨earlier, later, statement, e, p, before, after, first, rfl, hearlier, he, hp, hlines,
    assemble_eq_ok_iff.2 hbefore, hfirst, hprefix, hnumber, ?_⟩
  rw [fileRun_of_mistake hfile hstatements hearlier he hp view,
    SourceError.announcement_eq hp hsome]

/-- A file whose second statement stands on two lines and lacks a branch. -/
def branchless : Files := fun path =>
  if path = "branchless" then some (SourceFile.encode "true\n(if true\nthen)\nfalse") else none

theorem run_file_all_or_nothing_branchless :
    CommandLine.read ["branchless", "--tree"] =
        .ok (.run { file := some "branchless", tree := true, trace := false }) ∧
      Readable branchless "branchless" "true\n(if true\nthen)\nfalse" ∧
      ReportsFirst "branchless" ["true", "(if true", "then)", "false"]
        [⟨"true", 1⟩, ⟨"(if true then)", 2⟩, ⟨"false", 4⟩]
        (run ["branchless", "--tree"] branchless []) := by
  have harguments : CommandLine.read ["branchless", "--tree"] =
      .ok (.run { file := some "branchless", tree := true, trace := false }) := by decide
  have hfile : Readable branchless "branchless" "true\n(if true\nthen)\nfalse" :=
    { not_reserved := by decide
      nul_not_mem := by decide
      decodes := ⟨_, rfl, SourceFile.decode_encode (by decide)⟩ }
  obtain ⟨statements, hstatements, -, hreports⟩ :=
    run_file_all_or_nothing ⟨true, false⟩ [] harguments hfile
  obtain rfl : statements = [⟨"true", 1⟩, ⟨"(if true then)", 2⟩, ⟨"false", 4⟩] :=
    Except.ok.inj (hstatements.symm.trans rfl)
  have hlexes : Lexes 0 "(if true then)"
      [⟨.lparen, 0, 1⟩, ⟨.kwIf, 1, 3⟩, ⟨.litTrue, 4, 8⟩, ⟨.kwThen, 9, 13⟩, ⟨.rparen, 13, 14⟩] :=
    .token (t := .lparen) (by decide) <| .token (t := .kwIf) (by decide) <|
      .blank (by decide) <| .token (t := .litTrue) (by decide) <|
      .blank (by decide) <| .token (t := .kwThen) (by decide) <|
      .token (t := .rparen) (by decide) .nil
  have herror : parse "(if true then)" =
      .error (.grammatical (.unexpected Token.exprStart ⟨.rparen, 13, 14⟩)) := by
    rw [parse, tokenize_eq_ok_iff.2 ⟨_, hlexes, rfl⟩]
    rfl
  refine ⟨harguments, hfile, hreports fun hall => ?_⟩
  obtain ⟨t, ht⟩ := hall ⟨"(if true then)", 2⟩ (by decide)
  rw [herror] at ht
  contradiction

end Program

end Conditional

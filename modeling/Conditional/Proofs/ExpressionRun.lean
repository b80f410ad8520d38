import Conditional.Program
import Conditional.Proofs.Statements

/-!
# Conditional.Proofs.ExpressionRun

What a run over an expression from the command line comes to, for every text
that may be given as one.  The text is handed over by the command line as it
is (`CommandLine.read_expression`), and then there are two cases.  A sentence
of the language, that is a text that spells a derivation within the nesting
limit (`Sentence`), has its value printed (`Program.expressionRun_of_parse`);
any other text is reported (`Program.expressionRun_of_mistake`).

The display options have a say only in the first case, and there they put
lines in front of the value (`Session.render_eq`).
-/

namespace Conditional

open Token

/-! ## Sentences -/

/-- The text is a sentence of the language, and this is its term: it is made
of the spellings of an expression, with blanks around them, and the expression
nests within the limit. -/
def Sentence (s : Text) (t : Term) : Prop :=
  ∃ w k, Spells s w ∧ Nests w t k ∧ k ≤ nestingLimit

theorem parse_of_not_sentence {s : Text} (h : ¬ ∃ t, Sentence s t) :
    ∃ e, parse s = .error e := by
  cases hparse : parse s with
  | error e => exact ⟨e, rfl⟩
  | ok t => exact absurd ⟨t, parse_eq_ok_iff.1 hparse⟩ h

/-! ## Reading the arguments -/

namespace CommandLine

theorem head?_of_mem_names : ∀ entry ∈ names, entry.1.head? = some '-' := by decide

/-- An argument that does not begin with a minus sign is plain. -/
theorem classify_plain {a : Text} (h : a.head? ≠ some '-') : classify a = .ok (.plain a) := by
  have hname : (splitAssignment a).1.head? ≠ some '-' := by
    rw [splitAssignment]
    split
    · exact h
    · cases a with
      | nil => contradiction
      | cons c rest =>
          by_cases hc : c = '='
          · simp [hc]
          · simpa [List.takeWhile_cons, hc] using h
  have hlookup : names.lookup (splitAssignment a).1 = none := by
    rw [List.lookup_eq_none_iff]
    intro entry hentry
    rw [bne_iff_ne]
    intro heq
    rw [heq] at hname
    exact hname (head?_of_mem_names entry hentry)
  rw [classify]
  simp only [hlookup]
  rw [classifyOther, if_pos (.inl h)]

/-- The arguments that change how much is shown of a result. -/
def displayNames : List Text := ["--tree", "--trace"]

/-- What an argument is that changes how much is shown. -/
def displayOption (a : Text) : Argument := .option (if a = "--tree" then .tree else .trace) none

section

variable {flags : List Text} (h : ∀ a ∈ flags, a ∈ displayNames)
include h

theorem classifyAll_display (rest : List Text) :
    classifyAll (flags ++ rest) =
      (classifyAll rest).map (flags.map displayOption ++ ·) := by
  induction flags with
  | nil =>
      rw [List.nil_append]
      cases classifyAll rest <;> rfl
  | cons a flags ih =>
      obtain ⟨ha, hflags⟩ := List.forall_mem_cons.1 h
      have hclassify : a ≠ separatorText ∧ classify a = .ok (displayOption a) := by
        obtain rfl | rfl : a = "--tree" ∨ a = "--trace" := by simpa [displayNames] using ha
        · exact ⟨by decide, rfl⟩
        · exact ⟨by decide, rfl⟩
      rw [List.cons_append, classifyAll, if_neg hclassify.1, hclassify.2, ih hflags]
      cases classifyAll rest <;> rfl

theorem interpret_display (o : Options) (extras : List Text) (rest : List Argument) :
    interpret o extras (flags.map displayOption ++ rest) =
      interpret { o with
        tree := o.tree || flags.contains "--tree"
        trace := o.trace || flags.contains "--trace" } extras rest := by
  induction flags generalizing o with
  | nil => simp
  | cons a flags ih =>
      obtain ⟨ha, hflags⟩ := List.forall_mem_cons.1 h
      obtain rfl | rfl : a = "--tree" ∨ a = "--trace" := by simpa [displayNames] using ha
      · have hstep : interpret o extras ((("--tree" : Text) :: flags).map displayOption ++ rest) =
            interpret { o with tree := true } extras (flags.map displayOption ++ rest) := rfl
        have hother : ("--trace" : Text) ≠ "--tree" := by decide
        rw [hstep, ih hflags]
        simp [hother]
      · have hstep : interpret o extras ((("--trace" : Text) :: flags).map displayOption ++ rest) =
            interpret { o with trace := true } extras (flags.map displayOption ++ rest) := rfl
        have hother : ("--tree" : Text) ≠ "--trace" := by decide
        rw [hstep, ih hflags]
        simp [hother]

end

/-- How much is shown of results with the arguments. -/
def viewOf (flags : List Text) : View := ⟨flags.contains "--tree", flags.contains "--trace"⟩

/-- An expression that does not begin with a minus sign is taken as it is,
wherever display options stand beside it. -/
theorem read_expression {s : Text} (hs : s.head? ≠ some '-') {before after : List Text}
    (hflags : ∀ a ∈ before ++ after, a ∈ displayNames) :
    read (before ++ ("-e" : Text) :: s :: after) =
      .ok (.run {
        expression := some (.text s)
        tree := (viewOf (before ++ after)).tree
        trace := (viewOf (before ++ after)).trace }) := by
  rw [List.forall_mem_append] at hflags
  have hseparator : s ≠ separatorText := fun heq => hs (by rw [heq]; rfl)
  have hafter : classifyAll after = .ok (after.map displayOption) := by
    have happend := classifyAll_display hflags.2 []
    rwa [List.append_nil, classifyAll, Except.map, List.append_nil] at happend
  have hname : classify "-e" = .ok (.option .expression none) := rfl
  have hclassify : classifyAll (("-e" : Text) :: s :: after) =
      .ok (.option .expression none :: .plain s :: after.map displayOption) := by
    rw [classifyAll, if_neg (by decide), hname, classifyAll, if_neg hseparator, classify_plain hs,
      hafter]
    rfl
  have hvalue : Operand.ofValue s = .text s := if_neg hseparator
  rw [read, classifyAll_display hflags.1, hclassify]
  change interpret {} [] (before.map displayOption ++ _) = _
  rw [interpret_display hflags.1, interpret, hvalue]
  have hrest := interpret_display hflags.2
    { expression := some (.text s)
      tree := before.contains "--tree"
      trace := before.contains "--trace" } [] []
  rw [List.append_nil] at hrest
  simp only [Bool.false_or]
  rw [hrest]
  simp [interpret, viewOf]

end CommandLine

/-! ## What is printed -/

namespace Session

/-- The lines in front of the value of a term: its display and its derivation,
if the view asks for them. -/
def preamble (view : View) (tree lines : Text) : Text :=
  (if view.tree then tree ++ ['\n'] else []) ++ if view.trace then lines ++ ['\n'] else []

/-- A result is rendered as its value, behind what the view asks for. -/
theorem render_eq {view : View} {r : Result} {tree lines : Text}
    (htree : r.term.display 0 = .ok tree)
    (hlines : view.trace = true → derivation r.judgments = .ok lines) :
    render view r = .ok (preamble view tree lines ++ spellBool r.value) := by
  obtain ⟨showsTree, showsTrace⟩ := view
  rw [render, htree]
  cases showsTrace with
  | true =>
      rw [hlines rfl]
      cases showsTree <;> simp [preamble, Text.join, bind, Except.bind, pure, Except.pure]
  | false =>
      cases showsTree <;> simp [preamble, Text.join, bind, Except.bind, pure, Except.pure]

/-- What a session prints for a term with a value. -/
theorem prints_preamble {t : Term} {v : Bool} {judgments : List Judgment} {tree lines : Text}
    (hvalue : Evaluates t v) (hrecord : t.record [] = .ok v judgments)
    (htree : t.display 0 = .ok tree) (hlines : derivation judgments = .ok lines) (view : View) :
    Prints view t (Doc.plain (preamble view tree lines ++ spellBool v) ++ Doc.plain ['\n']) := by
  cases htrace : view.trace with
  | true =>
      have hresult : result view.trace 0 t = .ok ⟨0, t, v, judgments⟩ := by
        rw [htrace, result, if_pos rfl, hrecord]
      exact ⟨0, _, _, hresult, hvalue, render_eq htree fun _ => hlines, rfl⟩
  | false =>
      have hresult : result view.trace 0 t = .ok ⟨0, t, v, []⟩ := by
        rw [htrace, result, hvalue.evaluate_eq]
        rfl
      have hnone : view.trace = true → derivation [] = .ok lines := by simp [htrace]
      exact ⟨0, _, _, hresult, hvalue, render_eq htree hnone, rfl⟩

/-- What a session prints for a term ends with its value, whatever else is
shown. -/
theorem Prints.exists_eq_preamble {view : View} {t : Term} {v : Bool} {d : Doc}
    (h : Prints view t d) (hnative : t.Native) (hvalue : Evaluates t v) :
    ∃ tree lines, d = Doc.plain (preamble view tree lines ++ spellBool v) ++ Doc.plain ['\n'] := by
  obtain ⟨judgments, hrecord, hjudgments⟩ := hvalue.exists_recordAt hnative 0 []
  obtain ⟨tree, htree⟩ := hnative.exists_display 0
  obtain ⟨lines, hlines⟩ := exists_derivation hjudgments
  exact ⟨tree, lines, h.unique (prints_preamble hvalue hrecord htree hlines view)⟩

end Session

/-! ## Runs over an expression -/

namespace Program

open Session Step Reporting CommandLine

variable {s : Text}

/-- The session in which an expression from the command line is run. -/
def argumentSession (view : View) : Session :=
  Session.start (Reporter.new true) argumentPath false view

theorem expressionRun_text (s : Text) (view : View) :
    expressionRun view (.text s) =
      conclude (do Session.add s 1; runSession) (argumentSession view) := rfl

/-- A sentence has its value printed. -/
theorem expressionRun_of_parse {t : Term} (h : parse s = .ok t) (view : View) :
    ∃ d, Prints view t d ∧ expressionRun view (.text s) = ⟨0, d, []⟩ := by
  have hadd := run_add_ok h (s := argumentSession view) rfl 1
  obtain ⟨docs, hdocs, hfinish⟩ := run_finish
    (s := { argumentSession view with queue := [(1, t)] }) rfl rfl
    (by simpa using native_of_parse h)
  obtain _ | ⟨hd, hnil⟩ := hdocs
  cases hnil
  rw [List.flatten_singleton] at hfinish
  have hrun : (do Session.add s 1; runSession : Step Session Unit).run (argumentSession view) =
      ⟨argumentSession view, _, .ok ()⟩ := (run_bind_silent hadd).trans hfinish
  refine ⟨_, hd, ?_⟩
  rw [expressionRun_text, conclude, run_guarded_ok hrun]
  rfl

/-- Any other text is reported. -/
theorem expressionRun_of_mistake {e : SourceError} {p : Problem} (h : parse s = .error e)
    (hp : e.problem s = .ok p) (view : View) :
    expressionRun view (.text s) = ⟨1, p.announcement (lineHeading argumentPath s 1), []⟩ := by
  have hadd := run_add_error h hp (argumentSession view) 1
  have hheading := AtRest.headingOf_atLine (s := argumentSession view) rfl s 1
  rw [expressionRun_text, conclude, run_guarded_of_fatal (run_bind_error hadd) rfl, hheading]
  rfl

/-- The report of a text that is no sentence: where it comes from, what is
wrong with it, and the text with the offending part marked, if there is any
text. -/
def argumentReport (s : Text) (p : Problem) : Doc :=
  Doc.plain ("  File '<arg>', line 1:\n" ++ "    " ++ s ++ ['\n']) ++
    Doc.styled .error "error: " ++ p.message ++ Doc.plain ['\n'] ++
    if s = [] then [] else p.diagnosis .error ++ Doc.plain ['\n']

theorem announcement_argument {e : SourceError} {p : Problem} (hp : e.problem s = .ok p) :
    p.announcement (lineHeading argumentPath s 1) = argumentReport s p := by
  have hheading : lineHeading argumentPath s 1 =
      "  File '<arg>', line 1:\n" ++ "    " ++ s ++ ['\n'] := rfl
  rw [hheading]
  by_cases hs : s = []
  · obtain ⟨hsubject, -, hinternal⟩ := SourceError.eq_of_problem hp
    have hshows : p.showsSubject = false := by simp [Problem.showsSubject, hsubject, hs]
    rw [Problem.announcement, argumentReport, hinternal, hshows, if_pos hs]
    simp
  · rw [SourceError.announcement_eq hp hs, argumentReport, if_neg hs]

/-- **The meaning of an expression on the command line.**  The run ends well
exactly if the text is a sentence of the language.  Then it prints the value of
the sentence on one line, and the display options put lines in front of that
line; any other text is reported, whatever the options, and nothing else is
printed. -/
theorem run_expression_exact (hs : s.head? ≠ some '-') {before after : List Text}
    (hflags : ∀ a ∈ before ++ after, a ∈ displayNames) (files : Files) (input : Text) :
    let bare := run ["-e", s] files input
    let full := run (before ++ ("-e" : Text) :: s :: after) files input
    (bare.exitCode = 0 ↔ ∃ t, Sentence s t) ∧
    (∀ t, Sentence s t → ∃ v judgments tree lines,
      Evaluates t v ∧ t.record [] = .ok v judgments ∧
      t.display 0 = .ok tree ∧ derivation judgments = .ok lines ∧
      bare = ⟨0, Doc.plain (spellBool v) ++ Doc.plain ['\n'], []⟩ ∧
      full = ⟨0, Doc.plain (preamble (viewOf (before ++ after)) tree lines ++ spellBool v) ++
        Doc.plain ['\n'], []⟩) ∧
    ((¬ ∃ t, Sentence s t) → ∃ e p, parse s = .error e ∧ e.problem s = .ok p ∧
      bare = ⟨1, argumentReport s p, []⟩ ∧ full = bare) := by
  have hbare : run ["-e", s] files input = expressionRun (viewOf []) (.text s) := by
    have hread : CommandLine.read ([] ++ ("-e" : Text) :: s :: []) = _ :=
      read_expression hs (by simp)
    rw [List.nil_append] at hread
    rw [run, hread]
    rfl
  have hfull : run (before ++ ("-e" : Text) :: s :: after) files input =
      expressionRun (viewOf (before ++ after)) (.text s) := by
    rw [run, read_expression hs hflags]
    rfl
  have hprints (t : Term) (ht : Sentence s t) : ∃ v judgments tree lines,
      Evaluates t v ∧ t.record [] = .ok v judgments ∧
      t.display 0 = .ok tree ∧ derivation judgments = .ok lines ∧
      ∀ view, expressionRun view (.text s) =
        ⟨0, Doc.plain (preamble view tree lines ++ spellBool v) ++ Doc.plain ['\n'], []⟩ := by
    have hparse : parse s = .ok t := parse_eq_ok_iff.2 ht
    have hnative := native_of_parse hparse
    obtain ⟨v, hv⟩ := hnative.exists_evaluates
    obtain ⟨judgments, hrecord, hjudgments⟩ := hv.exists_recordAt hnative 0 []
    obtain ⟨tree, htree⟩ := hnative.exists_display 0
    obtain ⟨lines, hlines⟩ := exists_derivation hjudgments
    refine ⟨v, judgments, tree, lines, hv, hrecord, htree, hlines, fun view => ?_⟩
    obtain ⟨d, hd, hrun⟩ := expressionRun_of_parse hparse view
    rw [hrun, hd.unique (prints_preamble hv hrecord htree hlines view)]
  have hreports (h : ¬ ∃ t, Sentence s t) : ∃ e p, parse s = .error e ∧ e.problem s = .ok p ∧
      ∀ view, expressionRun view (.text s) = ⟨1, argumentReport s p, []⟩ := by
    obtain ⟨e, he⟩ := parse_of_not_sentence h
    obtain ⟨p, hp⟩ := e.exists_problem s
    refine ⟨e, p, he, hp, fun view => ?_⟩
    rw [expressionRun_of_mistake he hp view, announcement_argument hp]
  dsimp only
  rw [hbare, hfull]
  refine ⟨⟨fun hexit => ?_, ?_⟩, fun t ht => ?_, fun h => ?_⟩
  · by_contra hnone
    obtain ⟨e, p, -, -, hrun⟩ := hreports hnone
    rw [hrun] at hexit
    exact absurd (show (1 : Int) = 0 from hexit) (by decide)
  · rintro ⟨t, ht⟩
    obtain ⟨v, judgments, tree, lines, -, -, -, -, hrun⟩ := hprints t ht
    rw [hrun]
  · obtain ⟨v, judgments, tree, lines, hv, hrecord, htree, hlines, hrun⟩ := hprints t ht
    exact ⟨v, judgments, tree, lines, hv, hrecord, htree, hlines, hrun _, hrun _⟩
  · obtain ⟨e, p, he, hp, hrun⟩ := hreports h
    exact ⟨e, p, he, hp, hrun _, (hrun _).trans (hrun _).symm⟩

/-- Blanks stand around this sentence and in it, but not everywhere. -/
theorem run_expression_exact_grouped :
    List.head? (" (if(true)then false else true)\t" : Text) ≠ some '-' ∧
      (∀ a ∈ ([("--trace" : Text)] ++ [("--tree" : Text)]), a ∈ displayNames) ∧
      Sentence " (if(true)then false else true)\t" (.ite (.lit true) (.lit false) (.lit true)) ∧
      run ["-e", " (if(true)then false else true)\t"] (fun _ => none) [] =
        ⟨0, Doc.plain "false" ++ Doc.plain ['\n'], []⟩ ∧
      (run ["--trace", "-e", " (if(true)then false else true)\t", "--tree"]
        (fun _ => none) []).exitCode = 0 := by
  have hs : List.head? (" (if(true)then false else true)\t" : Text) ≠ some '-' := by decide
  have hflags : ∀ a ∈ ([("--trace" : Text)] ++ [("--tree" : Text)]), a ∈ displayNames := by decide
  have hspells : Spells " (if(true)then false else true)\t"
      [lparen, kwIf, lparen, litTrue, rparen, kwThen, litFalse, kwElse, litTrue, rparen] :=
    .blank (by decide) <| .token (t := lparen) (by decide) <| .token (t := kwIf) (by decide) <|
      .token (t := lparen) (by decide) <| .token (t := litTrue) (by decide) <|
      .token (t := rparen) (by decide) <| .token (t := kwThen) (by decide) <|
      .blank (by decide) <| .token (t := litFalse) (by decide) <|
      .blank (by decide) <| .token (t := kwElse) (by decide) <|
      .blank (by decide) <| .token (t := litTrue) (by decide) <|
      .token (t := rparen) (by decide) <| .blank (by decide) .nil
  have hsentence : Sentence " (if(true)then false else true)\t"
      (.ite (.lit true) (.lit false) (.lit true)) :=
    ⟨_, _, hspells, .group (.conditional (.group .litTrue) .litFalse .litTrue), by decide⟩
  obtain ⟨-, hprints, -⟩ := run_expression_exact hs hflags (fun _ => none) []
  obtain ⟨v, judgments, tree, lines, hv, -, -, -, hbare, hfull⟩ := hprints _ hsentence
  obtain rfl : v = false := hv.unique (.ifTrue (.lit true) (.lit false))
  refine ⟨hs, hflags, hsentence, hbare, ?_⟩
  exact congrArg Run.exitCode hfull

end Program

end Conditional

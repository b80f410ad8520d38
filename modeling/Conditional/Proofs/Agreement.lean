import Conditional.Proofs.Encoding
import Conditional.Proofs.FileRun
import Conditional.Proofs.ShellRun

/-!
# Conditional.Proofs.Agreement

A text means the same in a file and in a conversation.  If a file is run
without a mistake, the shell finds the same statements in its text: none of
its lines is a command or ends the conversation, each statement is complete
after its last line, and it has the same tokens as in the file
(`Groups.exists_converses`).  So the shell prints what the run over the file
prints, between its prompts (`Program.file_shell_agree`).
-/

namespace Conditional

open LogicalLine

/-! ## The lines of a file in the shell -/

/-- A conversation over the lines of some statements answers the statements
and nothing else. -/
theorem LogicalLine.Groups.exists_converses {number : Int} {lines : List Text}
    {statements : List LogicalLine} {view : View} {docs : List Doc}
    (h : Groups number lines statements)
    (hdocs : List.Forall₂ (fun statement d => Session.Answers view statement.text d)
      statements docs) (count : Nat) :
    ∃ count', Shell.Converses (Shell.idle view [] count) lines docs.flatten
      (Shell.idle view [] count') := by
  induction h generalizing docs count with
  | nil =>
      cases hdocs
      exact ⟨count, .nil⟩
  | blank hblank _ ih =>
      obtain ⟨count', hrest⟩ := ih hdocs count
      exact ⟨count', .cons (Shell.onLine_of_blank hblank _) (by simp) hrest⟩
  | @statement number first more rest statements hfirst hcloses _ ih =>
      obtain _ | ⟨hd, hdocs⟩ := hdocs
      have ⟨t, ht, _⟩ := hd
      obtain ⟨ts, hspells⟩ := exists_spells_of_parse ht
      obtain ⟨count', htakes⟩ := Shell.exists_takes view [] hcloses
        (.inr (by simpa using hfirst)) .nil (SpellLines.of_joined hspells) hspells hd count
      obtain ⟨count'', hrest⟩ := ih hdocs count'
      exact ⟨count'', htakes.converses.append hrest⟩
  | unfinished _ hopen =>
      -- what is left open has no answer
      obtain _ | ⟨⟨t, ht, -⟩, -⟩ := hdocs
      have hpos := excess_joined_of_staysOpen hopen
      rw [excess_of_parse ht] at hpos
      contradiction

/-! ## Agreement -/

namespace Program

open Session Shell Step Reporting

/-- **A file and a conversation agree.**  If a run over a file with a text and
at least one statement goes well, the shell with the text as its input prints,
between its prompts, what that run prints, and goes well, too. -/
theorem file_shell_agree {fileArguments shellArguments : List Text} (view : View)
    {files : Files} {path text : Text} (input : Text)
    (hfile : CommandLine.read fileArguments =
      .ok (.run { file := some path, tree := view.tree, trace := view.trace }))
    (hshell : CommandLine.read shellArguments =
      .ok (.run { tree := view.tree, trace := view.trace }))
    (hbytes : files path = some (SourceFile.encode text)) (hmark : text.head? ≠ some '\uFEFF')
    (hsome : assemble (Text.lines (Text.unifyNewlines text)) ≠ .ok [])
    (hexit : (run fileArguments files input).exitCode = 0) :
    let exchanges := (Shell.start view).exchanges (Text.lines (Text.unifyNewlines text))
    run shellArguments files text =
        ⟨0, Doc.plain Shell.intro ++ Doc.plain ['\n'] ++
          (transcript exchanges ++ (Doc.plain "> " ++ Doc.plain ['\n'])), []⟩ ∧
      exchanges.flatMap Prod.snd = (run fileArguments files input).output := by
  have hfileRun : run fileArguments files input = fileRun files view path := by
    rw [run, hfile]
    rfl
  have hshellRun : run shellArguments files text = shellRun view text := by
    rw [run, hshell]
    rfl
  rw [hfileRun] at hexit
  have hreadable := readable_of_exitCode hexit ⟨_, hbytes, SourceFile.decode_encode hmark⟩
  obtain ⟨statements, hgroups⟩ := exists_groups 1 (Text.lines (Text.unifyNewlines text))
  have hstatements := assemble_eq_ok_iff.2 hgroups
  have hne : statements ≠ [] := fun hnil => hsome (hnil ▸ hstatements)
  have hparse := parse_of_exitCode hreadable hstatements hexit
  obtain ⟨docs, hdocs, hprints⟩ := fileRun_of_parse hreadable hstatements hparse view
  obtain ⟨count, hconverses⟩ := hgroups.exists_converses hdocs 0
  rw [hfileRun, hshellRun, hprints, if_neg hne]
  exact ⟨shellRun_of_converses hconverses, hconverses.exchanges_eq⟩

/-- Two literals, the first one in parentheses that are closed below a blank
line. -/
def literalsText : Text := "(true\n\n)\r\nfalse"

/-- The file with the two literals. -/
def literals : Files := fun path =>
  if path = "literals" then some (SourceFile.encode literalsText) else none

theorem file_shell_agree_literals :
    CommandLine.read ["literals", "--trace"] =
        .ok (.run { file := some "literals", tree := false, trace := true }) ∧
      CommandLine.read ["--trace"] = .ok (.run { tree := false, trace := true }) ∧
      literals "literals" = some (SourceFile.encode literalsText) ∧
      literalsText.head? ≠ some '\uFEFF' ∧
      assemble (Text.lines (Text.unifyNewlines literalsText)) ≠ .ok [] ∧
      (run ["literals", "--trace"] literals []).exitCode = 0 ∧
      (run ["--trace"] literals literalsText).exitCode = 0 ∧
      ((Shell.start ⟨false, true⟩).exchanges ["(true", "", ")", "false"]).flatMap Prod.snd =
        (run ["literals", "--trace"] literals []).output := by
  have hfile : CommandLine.read ["literals", "--trace"] =
      .ok (.run { file := some "literals", tree := false, trace := true }) := by decide
  have hshell : CommandLine.read ["--trace"] = .ok (.run { tree := false, trace := true }) := by
    decide
  have hmark : literalsText.head? ≠ some '\uFEFF' := by decide
  have hstatements : assemble (Text.lines (Text.unifyNewlines literalsText)) =
      .ok [⟨"(true  )", 1⟩, ⟨"false", 4⟩] := by rfl
  have hsome : assemble (Text.lines (Text.unifyNewlines literalsText)) ≠ .ok [] := by
    rw [hstatements]
    simp
  have hreadable : Readable literals "literals" (Text.unifyNewlines literalsText) :=
    { not_reserved := by decide
      nul_not_mem := by decide
      decodes := ⟨_, rfl, SourceFile.decode_encode hmark⟩ }
  have hparse : ∀ statement ∈ [(⟨"(true  )", 1⟩ : LogicalLine), ⟨"false", 4⟩],
      statement.Parses := by
    have htrue : parse "(true  )" = .ok (.lit true) := by
      have hspells : Spells "(true  )" [.lparen, .litTrue, .rparen] :=
        .token (t := .lparen) (by decide) <| .token (t := .litTrue) (by decide) <|
          .blank (by decide) <| .blank (by decide) <| .token (t := .rparen) (by decide) .nil
      exact parse_eq_ok_iff.2 ⟨_, _, hspells, .group .litTrue, by decide⟩
    have hfalse : parse "false" = .ok (.lit false) :=
      parse_eq_ok_iff.2 ⟨_, _, .single (t := .litFalse) (by decide), .litFalse, by decide⟩
    rw [List.forall_mem_cons, List.forall_mem_singleton]
    exact ⟨⟨_, htrue⟩, ⟨_, hfalse⟩⟩
  have hexit : (run ["literals", "--trace"] literals []).exitCode = 0 := by
    obtain ⟨docs, -, hrun⟩ := fileRun_of_parse hreadable hstatements hparse ⟨false, true⟩
    rw [run, hfile]
    change (fileRun literals ⟨false, true⟩ "literals").exitCode = 0
    rw [hrun]
  obtain ⟨hrun, hsame⟩ := file_shell_agree ⟨false, true⟩ [] hfile hshell rfl hmark hsome
    hexit
  exact ⟨hfile, hshell, rfl, hmark, hsome, hexit, by rw [hrun], hsame⟩

end Program

end Conditional

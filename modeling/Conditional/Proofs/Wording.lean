import Conditional.Proofs.Conversation
import Conditional.Proofs.FileRun

/-!
# Conditional.Proofs.Wording

How messages are worded.  A wording is fixed text with gaps in it, and each gap
has a snippet of the user's text to go there.  A template that has the fixed
text escaped and a hole for each gap is read back as the fixed text and the
holes, whatever braces there are in the fixed text (`Template.pieces_template`),
and the snippets are not read at all.  So filling the template cannot fail, and
the message is the wording (`Template.exists_fill`): no brace of the user's is
lost or taken for anything else.

All messages that the program makes about the user's text have templates of this
kind, and so has the report of a fault, whose text is fixed text and escaped
(`user_text_verbatim`).
-/

namespace Conditional

open Token

/-! ## Wordings -/

/-- How a message is worded: fixed text, and then gaps, each with the snippet that
goes there and the fixed text behind it. -/
structure Wording where
  opening : Text
  gaps : List (Text × Text) := []

namespace Wording

/-- What goes into the gaps. -/
def snippets (w : Wording) : List Text := w.gaps.map Prod.fst

/-- A template with a hole for each gap. -/
def template (w : Wording) : Text :=
  Template.escape w.opening ++ w.gaps.flatMap fun gap => Template.hole ++ Template.escape gap.2

/-- The fixed text with each snippet in its gap, as it is. -/
def text (w : Wording) : Text := w.opening ++ w.gaps.flatMap fun gap => gap.1 ++ gap.2

end Wording

namespace Doc

/-- The parts of a message that quote the user, which are bold. -/
def quoted (d : Doc) : List Text := (d.filter fun span => span.face = .bold).map Span.text

/-- The document is the message with the given wording: it reads so, and it quotes
the snippets one after another, each of them once. -/
structure Conveys (d : Doc) (w : Wording) : Prop where
  text_eq : d.text = w.text
  quoted_eq : d.quoted = w.snippets

end Doc

/-! ## Filling templates -/

namespace Template

theorem quoted_consPlain (c : Char) (d : Doc) : (consPlain c d).quoted = d.quoted := by
  match d with
  | [] => rfl
  | ⟨.plain, t⟩ :: d => rfl
  | ⟨.bold, t⟩ :: d => rfl
  | ⟨.error, t⟩ :: d => rfl
  | ⟨.warning, t⟩ :: d => rfl

/-- Fixed text stands in a message as it is. -/
theorem exists_fillPieces_chars {used : Nat} {ps : List Piece} {snippets : List Text} {d : Doc}
    (h : fillPieces used ps snippets = .ok d) (t : Text) :
    ∃ d', fillPieces used (t.map .char ++ ps) snippets = .ok d' ∧ d'.text = t ++ d.text ∧
      d'.quoted = d.quoted := by
  induction t with
  | nil => exact ⟨d, h, rfl, rfl⟩
  | cons c t ih =>
      obtain ⟨d', hd', htext, hquoted⟩ := ih
      refine ⟨consPlain c d', ?_, ?_, ?_⟩
      · rw [List.map_cons, List.cons_append, fillPieces, hd']
        rfl
      · rw [text_consPlain, htext, List.cons_append]
      · rw [quoted_consPlain, hquoted]

/-- The units of a template are the fixed text and the holes. -/
theorem pieces_template (w : Wording) :
    pieces w.template =
      w.opening.map .char ++ w.gaps.flatMap fun gap => .hole :: gap.2.map .char := by
  obtain ⟨opening, gaps⟩ := w
  rw [Wording.template, pieces_escape_append]
  congr 1
  induction gaps with
  | nil => rfl
  | cons gap gaps ih =>
      have hgap : pieces ((gap :: gaps).flatMap fun gap => hole ++ escape gap.2) =
          .hole :: pieces (escape gap.2 ++ gaps.flatMap fun gap => hole ++ escape gap.2) := by
        simp [hole, pieces]
      rw [hgap, pieces_escape_append, ih]
      rfl

/-- A template is filled with what goes into its gaps, and the message is the
wording; further snippets are left out. -/
theorem exists_fill (w : Wording) (unused : List Text) :
    ∃ d, fill w.template (w.snippets ++ unused) = .ok d ∧ d.Conveys w := by
  rw [fill, pieces_template]
  obtain ⟨opening, gaps⟩ := w
  generalize 0 = used
  induction gaps generalizing opening used with
  | nil =>
      have hend : fillPieces used [] unused = .ok [] := rfl
      obtain ⟨d, hd, htext, hquoted⟩ := exists_fillPieces_chars hend opening
      exact ⟨d, hd, htext, hquoted⟩
  | cons gap gaps ih =>
      obtain ⟨snippet, fixed⟩ := gap
      obtain ⟨rest, hrest, htext, hquoted⟩ := ih fixed (used + 1)
      have hhole : fillPieces used
          (.hole :: (fixed.map .char ++ gaps.flatMap fun gap => .hole :: gap.2.map .char))
          (snippet :: (gaps.map Prod.fst ++ unused)) = .ok (⟨.bold, snippet⟩ :: rest) := by
        rw [fillPieces]
        rw [Wording.snippets] at hrest
        rw [hrest]
        rfl
      obtain ⟨d, hd, hdtext, hdquoted⟩ := exists_fillPieces_chars hhole opening
      refine ⟨d, hd, ?_, ?_⟩
      · have hspan : Doc.text (⟨.bold, snippet⟩ :: rest) = snippet ++ rest.text := rfl
        rw [hdtext, hspan, htext]
        simp [Wording.text]
      · have hspan : Doc.quoted (⟨.bold, snippet⟩ :: rest) = snippet :: rest.quoted := rfl
        rw [hdquoted, hspan, hquoted]
        rfl

/-- Text without braces need not be escaped. -/
theorem escape_of_plain {t : Text} (h : Plain t) : escape t = t := by
  induction t with
  | nil => rfl
  | cons c t ih =>
      obtain ⟨hopen, hclose⟩ := h c List.mem_cons_self
      have hrest := ih fun c' hc' => h c' (List.mem_cons_of_mem c hc')
      rw [escape] at hrest
      rw [escape, List.flatMap_cons, if_neg (by simp [hopen, hclose]), hrest]
      rfl

end Template

/-- A notice whose template belongs to a wording, with the snippets to go with it,
announces a problem in that wording. -/
theorem Notice.exists_conveys {n : Notice} {w : Wording} {subject : Text} {rest : List Text}
    (unused : List Text) (htemplate : n.template = w.template)
    (hsnippets : n.snippets = subject :: rest) (hgaps : n.snippets = w.snippets ++ unused)
    (cause : Cause) :
    ∃ p, n.problem cause = .ok p ∧ p.message.Conveys w := by
  obtain ⟨d, hd, hconveys⟩ := Template.exists_fill w unused
  rw [← htemplate, ← hgaps] at hd
  rw [Notice.problem, hd, hsnippets]
  exact ⟨_, rfl, hconveys⟩

/-! ## Mistakes in a source text -/

namespace SourceError

/-- How a mistake in a source text is worded.  A lexical error quotes the text; a
grammatical one is about tokens, and names them. -/
def wording (source : Text) : SourceError → Wording
  | .lexical e =>
    ⟨"'", [(source, "' contains unrecognized character '"), ([e.character], "'")]⟩
  | .grammatical (.unexpected expected found) =>
    ⟨"expected " ++ describe (toSet expected) ++ ", found " ++ found.token.label, []⟩
  | .grammatical (.tooDeep _) => ⟨"expression is nested too deeply", []⟩

theorem exists_conveys (source : Text) (e : SourceError) :
    ∃ p, e.problem source = .ok p ∧ p.message.Conveys (e.wording source) := by
  -- a message without gaps is its own template, and the source text is not used
  have hplain {n : Notice} {t : Text} (htemplate : n.template = t) (ht : Template.Plain t)
      (hsnippets : n.snippets = [source]) (cause : Cause) :
      ∃ p, n.problem cause = .ok p ∧ p.message.Conveys ⟨t, []⟩ := by
    have hescape : n.template = Wording.template ⟨t, []⟩ := by
      rw [htemplate, Wording.template, Template.escape_of_plain ht, List.flatMap_nil,
        List.append_nil]
    exact Notice.exists_conveys [source] hescape hsnippets hsnippets cause
  match e with
  | .lexical e => exact Notice.exists_conveys [] rfl rfl rfl _
  | .grammatical (.unexpected expected found) =>
      exact hplain rfl (Problem.plain_expectation expected found.token) rfl _
  | .grammatical (.tooDeep found) =>
      have ht : Template.Plain tooDeepMessage := by decide
      exact hplain rfl ht rfl _

end SourceError

/-! ## Files -/

namespace Session

open Step Reporting

/-- A file name is refused, and how the refusal is worded. -/
inductive Refused (files : Files) (path : Text) : Wording → Prop where
  | reserved : path ∈ reservedPaths → Refused files path ⟨"'", [(path, "' is a reserved filename")]⟩
  | closed : path ∉ reservedPaths → '\x00' ∉ path → files path = none →
      Refused files path ⟨"'", [(path, "' could not be opened")]⟩
  | undecodable {bytes : List UInt8} : path ∉ reservedPaths → '\x00' ∉ path →
      files path = some bytes → SourceFile.decode bytes = none →
      Refused files path ⟨"'", [(path, "' is not valid UTF-8 text")]⟩

variable {files : Files} {s : Session}

/-- A name that is not refused leads to a text, unless it is no name at all. -/
theorem refused_or_readable (files : Files) {path : Text} (hnul : '\x00' ∉ path) :
    (∃ w, Refused files path w) ∨ ∃ text, Readable files path text := by
  by_cases hreserved : path ∈ reservedPaths
  · exact .inl ⟨_, .reserved hreserved⟩
  · cases hbytes : files path with
    | none => exact .inl ⟨_, .closed hreserved hnul hbytes⟩
    | some bytes =>
        cases htext : SourceFile.decode bytes with
        | none => exact .inl ⟨_, .undecodable hreserved hnul hbytes htext⟩
        | some text => exact .inr ⟨text, hreserved, hnul, bytes, hbytes, htext⟩

/-- A file that is refused is refused in these words, before anything of it is
looked at. -/
theorem Refused.exists_conveys {w : Wording} (h : Refused files s.path w) :
    ∃ p, (load files).run s = ⟨s, [], .error (.problem p)⟩ ∧ p.message.Conveys w := by
  have hload (rest : Text) {w : Wording}
      (hread : (readText files).run s =
        (raiseProblem ((Notice.about s.path rest).problem .general)).run s)
      (htemplate : Template.quotedHole ++ rest = w.template) (hgaps : [s.path] = w.snippets) :
      ∃ p, (load files).run s = ⟨s, [], .error (.problem p)⟩ ∧ p.message.Conveys w := by
    obtain ⟨p, hp, hconveys⟩ := Notice.exists_conveys (n := Notice.about s.path rest) []
      htemplate rfl (hgaps.trans (List.append_nil _).symm) .general
    exact ⟨p, run_bind_error (hread.trans (run_raiseProblem hp s)), hconveys⟩
  cases h with
  | reserved hreserved =>
      refine hload " is a reserved filename" ?_ rfl rfl
      rw [readText, run_bind_silent (run_state s), if_pos hreserved]
  | closed hreserved hnul hnone =>
      refine hload " could not be opened" ?_ rfl rfl
      rw [readText, run_bind_silent (run_state s)]
      simp only [if_neg hreserved, if_neg hnul, hnone]
  | undecodable hreserved hnul hbytes hnone =>
      refine hload " is not valid UTF-8 text" ?_ rfl rfl
      rw [readText, run_bind_silent (run_state s)]
      simp only [if_neg hreserved, if_neg hnul, hbytes, hnone]

/-- Adding statements meets mistakes, and never a fault. -/
theorem answer_addAll_ne_fault (statements : List LogicalLine) (s : Session) (f : Fault) :
    ((addAll statements).run s).answer ≠ .error (.fault f) := by
  induction statements generalizing s with
  | nil => simp [addAll]
  | cons statement statements ih =>
      cases hparse : parse statement.text with
      | ok t =>
          rw [addAll, run_bind_silent (run_add_parsed hparse s statement.number)]
          exact ih _
      | error e =>
          obtain ⟨p, hp⟩ := e.exists_problem statement.text
          rw [addAll, run_bind_error (run_add_error hparse hp s statement.number)]
          simp

/-- The only fault in loading a file is a name that is none. -/
theorem eq_nulInPath_of_load {f : Fault} (h : ((load files).run s).answer = .error (.fault f)) :
    f = .nulInPath := by
  by_cases hnul : '\x00' ∈ s.path
  · by_cases hreserved : s.path ∈ reservedPaths
    · have hrefused : Refused files s.path _ := .reserved hreserved
      obtain ⟨p, hload, -⟩ := hrefused.exists_conveys
      rw [hload] at h
      cases h
    · rw [run_load_of_nul files hreserved hnul] at h
      exact (Signal.fault.inj (Except.error.inj h)).symm
  · obtain ⟨w, hrefused⟩ | ⟨text, hreadable⟩ := refused_or_readable files hnul
    · obtain ⟨p, hload, -⟩ := hrefused.exists_conveys
      rw [hload] at h
      cases h
    · obtain ⟨statements, hgroups⟩ := LogicalLine.exists_groups 1 (Text.lines text)
      obtain ⟨warning, -, hload⟩ :=
        exists_run_load hreadable (LogicalLine.assemble_eq_ok_iff.2 hgroups)
      rw [hload] at h
      exact absurd h (answer_addAll_ne_fault statements s f)

/-- The warning about a file without statements. -/
theorem exists_conveys_emptyWarning (path : Text) :
    ∃ message : Doc, emptyWarning path =
        Doc.styled .warning "warning: " ++ message ++ Doc.plain ['\n'] ∧
      message.Conveys ⟨"'", [(path, "' contains no expressions")]⟩ := by
  refine ⟨Doc.plain ['\''] ++ Doc.styled .bold path ++ Doc.plain "' contains no expressions",
    by simp [emptyWarning], ?_, rfl⟩
  simp [Doc.text, Doc.plain, Doc.styled, Wording.text]
  rfl

end Session

/-! ## Switches -/

namespace Shell

open Step

/-- A switch that does not understand what it is told says so in these words. -/
theorem exists_conveys_turn {switch : Switch} {argument : Text} (hsome : argument ≠ [])
    (hon : argument ≠ "on") (hoff : argument ≠ "off") (s : Session) :
    ∃ p, (turn switch argument).run s = ⟨s, [], .error (.problem p)⟩ ∧
      p.message.Conveys
        ⟨"'", [(switch.name, "' expects 'on' or 'off', got '"), (argument, "'")]⟩ := by
  obtain ⟨p, hp, hconveys⟩ := Notice.exists_conveys (n := switchNotice switch argument)
    (w := ⟨"'", [(switch.name, "' expects 'on' or 'off', got '"), (argument, "'")]⟩)
    [] rfl rfl rfl .general
  refine ⟨p, ?_, hconveys⟩
  have hwanted : switch.wanted argument s.view = none := by
    simp [Switch.wanted, hsome, hon, hoff]
  obtain rfl := Except.ok.inj (hp.symm.trans (problem_switchNotice switch argument))
  rw [run_turn, hwanted]

end Shell

open Session Reporting in
/-- **User text enters messages verbatim.**  A template with holes in fixed text
can be filled with any snippets, and gives the fixed text with the snippets in the
holes, each of them once and as it is.  So the messages about mistakes in a source
text, about files and about switches can always be made, and are in the given
words, whatever the user has written.  The report of a fault has its kind and its
detail in it as they are. -/
theorem user_text_verbatim :
    (∀ (w : Wording) (unused : List Text),
      ∃ d, Template.fill w.template (w.snippets ++ unused) = .ok d ∧ d.Conveys w) ∧
    (∀ (source : Text) (e : SourceError),
      ∃ p, e.problem source = .ok p ∧ p.message.Conveys (e.wording source)) ∧
    (∀ (files : Files) (s : Session),
      (∀ w, Refused files s.path w →
        ∃ p, (load files).run s = ⟨s, [], .error (.problem p)⟩ ∧ p.message.Conveys w) ∧
      (∀ text, Readable files s.path text → LogicalLine.assemble (Text.lines text) = .ok [] →
        ∃ message : Doc, message.Conveys ⟨"'", [(s.path, "' contains no expressions")]⟩ ∧
          (load files).run s = ⟨s, s.reporter.traceback.origin ++
            (Doc.styled .warning "warning: " ++ message ++ Doc.plain ['\n']), .ok ()⟩) ∧
      ∀ f, ((load files).run s).answer = .error (.fault f) → f = .nulInPath) ∧
    (∀ (switch : Shell.Switch) (argument : Text) (s : Session),
      argument ≠ [] → argument ≠ "on" → argument ≠ "off" →
        ∃ p, (Shell.turn switch argument).run s = ⟨s, [], .error (.problem p)⟩ ∧
          p.message.Conveys
            ⟨"'", [(switch.name, "' expects 'on' or 'off', got '"), (argument, "'")]⟩) ∧
    ∀ (σ α : Type) [Reporting σ] (step : Step σ α) (s s' : σ) (d : Doc) (f : Fault),
      step.run s = ⟨s', d, .error (.fault f)⟩ →
        ((guarded step).run s).output = d ++ (Doc.plain (headingOf s') ++
          Doc.styled .error "[internal] " ++ Doc.styled .error "error: " ++
          Doc.plain ("unknown error: '" ++ (f.kind ++ ": " ++ f.detail) ++ ['\'']) ++
          Doc.plain ['\n']) ∧
        ((guarded step).run s).answer =
          .error (if (reporter s').fatal then .exit 1 else .fault f) := by
  refine ⟨Template.exists_fill, SourceError.exists_conveys,
    fun files s => ⟨fun w => Refused.exists_conveys, fun text htext hnone => ?_,
      fun f => eq_nulInPath_of_load⟩,
    fun switch argument s hsome hon hoff => Shell.exists_conveys_turn hsome hon hoff s,
    fun σ α _ step s s' d f h => ?_⟩
  · obtain ⟨message, hwarning, hconveys⟩ := exists_conveys_emptyWarning s.path
    exact ⟨message, hconveys, by rw [run_load_nil htext hnone, hwarning]⟩
  · rw [run_guarded_signal h rfl]
    cases (reporter s').fatal with
    | true => simp [Problem.announcement, Problem.bare, Problem.showsSubject]
    | false => simp [Problem.announcement, Problem.bare, Problem.showsSubject, Signal.IsSettled]

/-- A text that would be no template. -/
def bracedText : Text := ['{', '}', '\'', '{']

open Session Reporting in
theorem user_text_verbatim_braces :
    (∃ p, SourceError.problem bracedText (.lexical ⟨'{', 0⟩) = .ok p ∧ p.message.text =
      "'" ++ bracedText ++ "' contains unrecognized character '" ++ ['{', '\'']) ∧
    (∃ p, ((load fun _ => none).run (start (.new true) bracedText false ⟨false, false⟩)).answer =
        .error (.problem p) ∧
      p.message.text = "'" ++ bracedText ++ "' could not be opened") ∧
    (∃ message : Doc, message.text = "'" ++ bracedText ++ "' contains no expressions" ∧
      ((load fun _ => some []).run (start (.new true) bracedText false ⟨false, false⟩)).output =
        Doc.styled .warning "warning: " ++ message ++ Doc.plain ['\n']) ∧
    (∃ f, ((load fun _ => none).run
      (start (.new true) ('\x00' :: bracedText) false ⟨false, false⟩)).answer =
        .error (.fault f) ∧ f = .nulInPath) ∧
    (∃ p, ((Shell.turn .tree bracedText).run (start (.new true) [] true ⟨false, false⟩)).answer =
        .error (.problem p) ∧
      p.message.text = "'tree' expects 'on' or 'off', got '" ++ bracedText ++ ['\'']) ∧
    ((guarded (Step.raise (.fault (.outside "KeyError" bracedText)) : Step Reporter Unit)).run
      (.new false)).output = Doc.plain [] ++ Doc.styled .error "[internal] " ++
        Doc.styled .error "error: " ++
        Doc.plain ("unknown error: 'KeyError: " ++ bracedText ++ ['\'']) ++ Doc.plain ['\n'] := by
  obtain ⟨-, hsource, hfiles, hswitch, hfault⟩ := user_text_verbatim
  obtain ⟨p, hp, hconveys⟩ := hsource bracedText (.lexical ⟨'{', 0⟩)
  obtain ⟨hrefused, -⟩ := hfiles (fun _ => none) (start (.new true) bracedText false ⟨false, false⟩)
  obtain ⟨p', hp', hconveys'⟩ := hrefused _ (.closed (by decide) (by decide) rfl)
  obtain ⟨-, hempty, -⟩ :=
    hfiles (fun _ => some []) (start (.new true) bracedText false ⟨false, false⟩)
  obtain ⟨message, hmessage, hload⟩ :=
    hempty [] ⟨by decide, by decide, [], rfl, by rfl⟩ rfl
  obtain ⟨-, -, hnul⟩ :=
    hfiles (fun _ => none) (start (.new true) ('\x00' :: bracedText) false ⟨false, false⟩)
  have hname := run_load_of_nul (fun _ => none)
    (s := start (.new true) ('\x00' :: bracedText) false ⟨false, false⟩) (by decide) (by decide)
  obtain ⟨q, hq, hargument⟩ := hswitch .tree bracedText (start (.new true) [] true ⟨false, false⟩)
    (by decide) (by decide) (by decide)
  obtain ⟨hreport, -⟩ := hfault Reporter Unit (Step.raise (.fault (.outside "KeyError" bracedText)))
    (.new false) _ _ _ rfl
  refine ⟨⟨p, hp, hconveys.text_eq⟩, ⟨p', by rw [hp'], hconveys'.text_eq⟩,
    ⟨message, hmessage.text_eq, by rw [hload]; rfl⟩,
    ⟨_, by rw [hname], hnul _ (by rw [hname])⟩, ⟨q, by rw [hq], hargument.text_eq⟩, hreport⟩

end Conditional

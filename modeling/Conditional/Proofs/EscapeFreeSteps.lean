import Conditional.Proofs.EscapeFree
import Conditional.Proofs.Reports

/-!
# Conditional.Proofs.EscapeFreeSteps

Steps that do not make the escape character.  A step is free of the character if
from a state that is free of it, it leaves such a state, prints such a document,
and gives such an answer; and the steps of reporters, sessions and shells are if
what they are given is.

For each way of putting steps together there is one lemma, so a step is gone
through in the order in which it is written.  Reporters are parts of sessions and
of shells, so their steps are looked at once for all of these (`Carrying`).
-/

namespace Conditional

open Textual

/-! ## Steps -/

instance : Textual Signal where
  EscapeFree
    | .problem p => EscapeFree p
    | .fault f => EscapeFree f
    | _ => True

section

variable {σ α β : Type} [Textual σ] [Textual α] [Textual β]

instance : Textual (Outcome σ α) where
  EscapeFree o := EscapeFree o.state ∧ EscapeFree o.output ∧ EscapeFree o.answer

/-- A step is free of the escape character if it makes nothing else from a state
that is. -/
instance : Textual (Step σ α) where
  EscapeFree step := ∀ s, EscapeFree s → EscapeFree (step.run s)

namespace Step

variable {step : Step σ α}

theorem escapeFree_done {a : α} (h : EscapeFree a) : EscapeFree (done a : Step σ α) :=
  fun _ hs => ⟨hs, escapeFree_nil, h⟩

/-- The second step is taken from the state that the first has left. -/
theorem escapeFree_bind (h : EscapeFree step) {next : α → Step σ β}
    (hnext : ∀ a, EscapeFree a → EscapeFree (next a)) : EscapeFree (step >>= next) := by
  intro s hs
  have hfirst := h s hs
  rw [run_bind, Outcome.andThen]
  generalize step.run s = first at hfirst
  obtain ⟨s', d, signal | a⟩ := first
  · exact hfirst
  · obtain ⟨hstate, houtput, hanswer⟩ := hnext a hfirst.2.2 s' hfirst.1
    exact ⟨hstate, escapeFree_append.2 ⟨hfirst.2.1, houtput⟩, hanswer⟩

theorem escapeFree_state : EscapeFree (state : Step σ σ) := fun _ hs => ⟨hs, escapeFree_nil, hs⟩

theorem escapeFree_update {f : σ → σ} (h : ∀ s, EscapeFree s → EscapeFree (f s)) :
    EscapeFree (update f) := fun s hs => ⟨h s hs, escapeFree_nil, trivial⟩

theorem escapeFree_print {d : Doc} (h : EscapeFree d) : EscapeFree (print d : Step σ Unit) :=
  fun _ hs => ⟨hs, h, trivial⟩

theorem escapeFree_printLine {d : Doc} (h : EscapeFree d) :
    EscapeFree (printLine d : Step σ Unit) :=
  escapeFree_print (escapeFree_append.2 ⟨h, by simp +decide⟩)

theorem escapeFree_raise {signal : Signal} (h : EscapeFree signal) :
    EscapeFree (raise signal : Step σ α) := fun _ hs => ⟨hs, escapeFree_nil, h⟩

theorem escapeFree_check {x : Except Fault α} (h : EscapeFree x) :
    EscapeFree (check x : Step σ α) := by
  cases x with
  | ok a => exact escapeFree_done h
  | error f => exact escapeFree_raise h

theorem escapeFree_raiseProblem {x : Except Fault Problem} (h : EscapeFree x) :
    EscapeFree (raiseProblem x : Step σ α) :=
  escapeFree_bind (escapeFree_check h) fun _ hp => escapeFree_raise hp

theorem escapeFree_recover (h : EscapeFree step) {handler : Signal → Step σ α}
    (hhandler : ∀ signal, EscapeFree signal → EscapeFree (handler signal)) :
    EscapeFree (step.recover handler) := by
  intro s hs
  have hfirst := h s hs
  change EscapeFree ((step.recover handler) s)
  rw [recover]
  generalize step.run s = first at hfirst
  obtain ⟨s', d, signal | a⟩ := first
  · obtain ⟨hstate, houtput, hanswer⟩ := hhandler signal hfirst.2.2 s' hfirst.1
    exact ⟨hstate, escapeFree_append.2 ⟨hfirst.2.1, houtput⟩, hanswer⟩
  · exact hfirst

theorem escapeFree_settling (h : EscapeFree step) {f : σ → σ}
    (hf : ∀ s, EscapeFree s → EscapeFree (f s)) : EscapeFree (step.settling f) := by
  intro s hs
  obtain ⟨hstate, houtput, hanswer⟩ := h s hs
  exact ⟨hf _ hstate, houtput, hanswer⟩

end Step

end

/-! ## Reporters -/

instance : Textual Place where
  EscapeFree
    | .whole => True
    | .line text _ => EscapeFree text

instance : Textual Reporter := ⟨fun r => EscapeFree r.traceback⟩

namespace Traceback

variable {t : Traceback}

theorem escapeFree_set (h : EscapeFree t) {path : Text} (hpath : EscapeFree path) {place : Place}
    (hplace : EscapeFree place) : EscapeFree (t.set path place) := by
  induction t with
  | nil => exact escapeFree_cons.2 ⟨⟨hpath, hplace⟩, escapeFree_nil⟩
  | cons entry t ih =>
      obtain ⟨hentry, ht⟩ := escapeFree_cons.1 h
      rw [set]
      split
      · exact escapeFree_cons.2 ⟨⟨hentry.1, hplace⟩, ht⟩
      · exact escapeFree_cons.2 ⟨hentry, ih ht⟩

theorem escapeFree_clear (h : EscapeFree t) : EscapeFree t.clear := by
  intro entry hentry
  obtain ⟨entry', hentry', rfl⟩ := List.mem_map.1 hentry
  exact ⟨(h entry' hentry').1, trivial⟩

theorem escapeFree_heading (h : EscapeFree t) : EscapeFree t.heading := by
  refine h.flatMap fun entry hentry => ?_
  match entry with
  | (path, .line (some text) number) =>
      obtain ⟨hpath, htext⟩ := hentry
      have htext : EscapeFree text := escapeFree_some.1 htext
      have hpath : EscapeFree path := hpath
      simp +decide [hpath, htext, Text.escapeFree_ofInt]
  | (_, .line none _) => exact escapeFree_nil
  | (_, .whole) => exact escapeFree_nil

theorem escapeFree_origin (h : EscapeFree t) : EscapeFree t.origin := by
  rw [origin]
  split
  · next heading hfound =>
      obtain ⟨entry, hentry, hheading⟩ := List.exists_of_findSome?_eq_some hfound
      match entry with
      | (path, .line (some text) number) =>
          obtain rfl := Option.some.inj hheading
          have hpath : EscapeFree path := (h _ hentry).1
          simp +decide [hpath, Text.escapeFree_ofInt]
      | (_, .line none _) => contradiction
      | (_, .whole) => contradiction
  · exact escapeFree_nil

end Traceback

theorem Reporter.escapeFree_setPlace {r : Reporter} (h : EscapeFree r) {path : Text}
    (hpath : EscapeFree path) {place : Place} (hplace : EscapeFree place) :
    EscapeFree (r.setPlace path place) := Traceback.escapeFree_set h hpath hplace


/-- States of which a reporter is a part, also with regard to the escape
character. -/
class Carrying (σ : Type) [Reporting σ] [Textual σ] : Prop where
  escapeFree_reporter : ∀ {s : σ}, EscapeFree s → EscapeFree (Reporting.reporter s)
  escapeFree_withReporter : ∀ {f : Reporter → Reporter},
    (∀ r, EscapeFree r → EscapeFree (f r)) → ∀ s : σ, EscapeFree s →
      EscapeFree (Reporting.withReporter f s)

instance : Carrying Reporter where
  escapeFree_reporter h := h
  escapeFree_withReporter h := h

theorem Problem.escapeFree_announcement {p : Problem} (h : EscapeFree p) {heading : Text}
    (hheading : EscapeFree heading) : EscapeFree (p.announcement heading) := by
  have hmessage : EscapeFree p.message := h.1
  rw [announcement]
  split <;> split <;>
    simp +decide [hheading, hmessage, escapeFree_diagnosis h]

theorem Problem.escapeFree_caution {p : Problem} (h : EscapeFree p) {origin : Doc}
    (horigin : EscapeFree origin) : EscapeFree (p.caution origin) := by
  have hmessage : EscapeFree p.message := h.1
  rw [caution]
  split <;> simp +decide [horigin, hmessage, escapeFree_diagnosis h]

/-- What a report says of a signal is what the signal says, and fixed words. -/
theorem Signal.escapeFree_problem? {signal : Signal} (h : EscapeFree signal) {p : Problem}
    (hp : signal.problem? = some p) : EscapeFree p := by
  match signal with
  | .problem p' =>
      obtain rfl := Option.some.inj hp
      exact h
  | .interrupt | .tooDeep =>
      obtain rfl := Option.some.inj hp
      exact ⟨Doc.escapeFree_plain.2 (by decide), escapeFree_nil⟩
  | .fault f =>
      obtain rfl := Option.some.inj hp
      obtain ⟨hkind, hdetail⟩ := h
      have hkind : EscapeFree f.kind := hkind
      have hdetail : EscapeFree f.detail := hdetail
      exact ⟨by simp +decide [Problem.bare, hkind, hdetail], escapeFree_nil⟩

namespace Reporting

open Step Carrying

variable {σ α : Type} [Reporting σ] [Textual σ] [Textual α] [Carrying σ]

theorem escapeFree_setPlace {path : Text} (h : EscapeFree path) {place : Place}
    (hplace : EscapeFree place) :
    EscapeFree (update (withReporter (Reporter.setPlace path place)) : Step σ Unit) :=
  escapeFree_update (escapeFree_withReporter fun _ hr => Reporter.escapeFree_setPlace hr h hplace)

theorem escapeFree_registerFile {path : Text} (h : EscapeFree path) :
    EscapeFree (registerFile path : Step σ Unit) := escapeFree_setPlace h trivial

theorem escapeFree_registerLine {path : Text} (h : EscapeFree path) {text : Option Text}
    (htext : EscapeFree text) (number : Int) :
    EscapeFree (registerLine path text number : Step σ Unit) := escapeFree_setPlace h htext

theorem escapeFree_removeLine {path : Text} (h : EscapeFree path) :
    EscapeFree (removeLine path : Step σ Unit) := escapeFree_registerFile h

theorem escapeFree_warn {notice : Notice} (h : EscapeFree notice) :
    EscapeFree (warn notice : Step σ Unit) := by
  intro s hs
  have hproblem := Notice.escapeFree_problem h .general
  have horigin : EscapeFree (reporter s).traceback.origin :=
    Traceback.escapeFree_origin (escapeFree_reporter hs)
  cases hp : notice.problem .general with
  | ok p =>
      rw [hp] at hproblem
      rw [run_warn_ok hp]
      exact ⟨hs, Problem.escapeFree_caution hproblem horigin, trivial⟩
  | error f =>
      rw [hp] at hproblem
      rw [run_warn_error hp]
      exact ⟨hs, escapeFree_nil, hproblem⟩

theorem escapeFree_cleared {s : σ} (h : EscapeFree s) : EscapeFree (cleared s) :=
  escapeFree_withReporter (fun _ hr => Traceback.escapeFree_clear hr) s h

theorem escapeFree_headingOf {s : σ} (h : EscapeFree s) : EscapeFree (headingOf s) :=
  Traceback.escapeFree_heading (escapeFree_reporter h)

theorem escapeFree_report {p : Problem} (h : EscapeFree p) :
    EscapeFree (report p : Step σ Unit) := by
  intro s hs
  have hannouncement := Problem.escapeFree_announcement h (escapeFree_headingOf hs)
  rw [run_report]
  split
  · exact ⟨hs, hannouncement, trivial⟩
  · exact ⟨escapeFree_cleared hs, hannouncement, trivial⟩

/-- A fault is passed on after its report, so it has to be free of the character,
too. -/
theorem escapeFree_settle {signal : Signal} (h : EscapeFree signal) :
    EscapeFree (settle signal : Step σ Unit) := by
  by_cases hexit : ∃ code, signal = .exit code
  · obtain ⟨code, rfl⟩ := hexit
    exact escapeFree_raise trivial
  · obtain ⟨p, hp⟩ := Signal.exists_problem? fun code heq => hexit ⟨code, heq⟩
    intro s hs
    have hannouncement := Problem.escapeFree_announcement (Signal.escapeFree_problem? h hp)
      (escapeFree_headingOf hs)
    rw [run_settle hp]
    split
    · exact ⟨hs, hannouncement, trivial⟩
    · refine ⟨escapeFree_cleared hs, hannouncement, ?_⟩
      dsimp only
      split
      · trivial
      · exact h

theorem escapeFree_guarded {step : Step σ α} (h : EscapeFree step) :
    EscapeFree (guarded step) := by
  have hsome : EscapeFree (do return some (← step) : Step σ (Option α)) :=
    escapeFree_bind h fun _ ha => escapeFree_done (escapeFree_some.2 ha)
  refine escapeFree_recover hsome fun signal hsignal => ?_
  exact escapeFree_bind (escapeFree_settle hsignal) fun _ _ => escapeFree_done escapeFree_none

end Reporting

/-! ## Sessions -/

/-- The texts of a session are free of the escape character. -/
structure Session.TextsEscapeFree (s : Session) : Prop where
  reporter : EscapeFree s.reporter
  path : EscapeFree s.path
  queue : EscapeFree s.queue
  results : EscapeFree s.results

instance : Textual Session := ⟨Session.TextsEscapeFree⟩

instance : Carrying Session where
  escapeFree_reporter h := h.reporter
  escapeFree_withReporter hf s h := { h with reporter := hf s.reporter h.reporter }

namespace Session

open Step Reporting

theorem escapeFree_enqueue {t : Term} (h : EscapeFree t) (number : Int) :
    EscapeFree (enqueue t number) :=
  escapeFree_update fun _ hs => { hs with queue := Queue.escapeFree_insert hs.queue h number }

theorem escapeFree_add {source : Text} (h : EscapeFree source) (number : Int) :
    EscapeFree (add source number) := by
  obtain ⟨hok, herror⟩ := escapeFree_parse h
  refine escapeFree_bind escapeFree_state fun s hs => ?_
  refine escapeFree_bind (escapeFree_registerLine hs.path (escapeFree_some.2 h) number)
    fun _ _ => ?_
  split
  · next e he =>
      exact escapeFree_bind (escapeFree_raiseProblem (herror e he)) fun _ _ =>
        escapeFree_removeLine hs.path
  · next t ht =>
      exact escapeFree_bind (escapeFree_enqueue (hok t ht) number) fun _ _ =>
        escapeFree_removeLine hs.path

theorem escapeFree_runStatement {t : Term} (h : EscapeFree t) (number : Int) :
    EscapeFree (runStatement number t) := by
  refine escapeFree_bind escapeFree_state fun s hs => ?_
  refine escapeFree_bind (escapeFree_check (Term.escapeFree_text h)) fun text htext => ?_
  refine escapeFree_bind (escapeFree_registerLine hs.path (escapeFree_some.2 htext) number)
    fun _ _ => ?_
  have hevaluation : EscapeFree (do
      let r ← check (result s.view.trace number t)
      update fun s => { s with results := s.results ++ [r] } : Step Session Unit) := by
    refine escapeFree_bind (escapeFree_check (escapeFree_result h _ number)) fun r hr => ?_
    refine escapeFree_update fun s hs => { hs with results := ?_ }
    exact escapeFree_append.2 ⟨hs.results, escapeFree_singleton.2 hr⟩
  refine escapeFree_bind (escapeFree_settling hevaluation fun s hs => ?_) fun _ _ =>
    escapeFree_removeLine hs.path
  split
  · exact { hs with queue := Queue.escapeFree_erase hs.queue number }
  · exact hs

theorem escapeFree_runAll {q : Queue} (h : EscapeFree q) : EscapeFree (runAll q) := by
  induction q with
  | nil => exact escapeFree_done trivial
  | cons entry q ih =>
      obtain ⟨hentry, hq⟩ := escapeFree_cons.1 h
      exact escapeFree_bind (escapeFree_runStatement hentry.2 entry.1) fun _ _ => ih hq

theorem escapeFree_run : EscapeFree run := by
  refine escapeFree_bind escapeFree_state fun s hs => ?_
  refine escapeFree_bind (escapeFree_runAll hs.queue) fun _ _ => ?_
  refine escapeFree_update fun s hs => ?_
  split
  · exact hs
  · exact { hs with queue := escapeFree_nil }

theorem escapeFree_pop : EscapeFree pop := by
  refine escapeFree_bind escapeFree_state fun s hs => ?_
  split
  · have hfault : EscapeFree (Signal.fault .emptyList) := ⟨by decide, by decide⟩
    exact escapeFree_raise hfault
  · next r rest hresults =>
      obtain ⟨hr, hrest⟩ := escapeFree_cons.1 (hresults ▸ hs.results)
      refine escapeFree_bind (escapeFree_update fun s hs => ?_) fun _ _ => ?_
      · exact { hs with results := hrest }
      · exact escapeFree_bind escapeFree_state fun s _ =>
          escapeFree_check (escapeFree_render hr s.view)

theorem escapeFree_printResults (n : Nat) : EscapeFree (printResults n) := by
  induction n with
  | zero => exact escapeFree_done trivial
  | succ n ih =>
      refine escapeFree_bind escapeFree_pop fun text htext => ?_
      exact escapeFree_bind (escapeFree_printLine (Doc.escapeFree_plain.2 htext)) fun _ _ => ih

theorem escapeFree_drain : EscapeFree drain :=
  escapeFree_bind escapeFree_state fun _ _ => escapeFree_printResults _

/-- The texts of the files are free of the escape character. -/
def FilesEscapeFree (files : Files) : Prop :=
  ∀ path bytes text, files path = some bytes → SourceFile.decode bytes = some text →
    EscapeFree text

theorem escapeFree_readText {files : Files} (h : FilesEscapeFree files) :
    EscapeFree (readText files) := by
  refine escapeFree_bind escapeFree_state fun s hs => ?_
  have hrefusal {rest : Text} (hrest : EscapeFree rest) :
      EscapeFree (raiseProblem ((Notice.about s.path rest).problem .general) : Step Session Text) :=
    escapeFree_raiseProblem (Notice.escapeFree_problem (Notice.escapeFree_about hs.path hrest) _)
  dsimp only
  split
  · exact hrefusal (by decide)
  · split
    · have hfault : EscapeFree (Signal.fault .nulInPath) := ⟨by decide, by decide⟩
      exact escapeFree_raise hfault
    · split
      · exact hrefusal (by decide)
      · next bytes hbytes =>
          split
          · exact hrefusal (by decide)
          · next text htext => exact escapeFree_done (h _ _ _ hbytes htext)

theorem escapeFree_addAll {statements : List LogicalLine} (h : EscapeFree statements) :
    EscapeFree (addAll statements) := by
  induction statements with
  | nil => exact escapeFree_done trivial
  | cons statement statements ih =>
      obtain ⟨hstatement, hstatements⟩ := escapeFree_cons.1 h
      exact escapeFree_bind (escapeFree_add hstatement _) fun _ _ => ih hstatements

theorem escapeFree_load {files : Files} (h : FilesEscapeFree files) : EscapeFree (load files) := by
  refine escapeFree_bind (escapeFree_readText h) fun text htext => ?_
  have hassembled : EscapeFree (LogicalLine.assemble (Text.lines text)) :=
    LogicalLine.escapeFree_assembleFrom escapeFree_nil (Text.escapeFree_lines htext) _ _
  refine escapeFree_bind (escapeFree_check hassembled) fun statements hstatements => ?_
  split
  · refine escapeFree_bind escapeFree_state fun s hs => ?_
    have hwords : EscapeFree (" contains no expressions" : Text) := by decide
    exact escapeFree_bind (escapeFree_warn (Notice.escapeFree_about hs.path hwords)) fun _ _ =>
      escapeFree_addAll hstatements
  · exact escapeFree_addAll hstatements

end Session

/-! ## Shells -/

instance : Textual Command where
  EscapeFree
    | .tree argument | .trace argument => EscapeFree argument
    | .statement line => EscapeFree line
    | _ => True

namespace Command

theorem escapeFree_ofWord? (word : Text) {argument : Text} (h : EscapeFree argument) :
    EscapeFree (ofWord? word argument) := by
  unfold ofWord?
  split
  · exact escapeFree_some.2 h
  · split
    · exact escapeFree_some.2 h
    · split
      · exact escapeFree_some.2 trivial
      · split
        · exact escapeFree_some.2 trivial
        · split
          · exact escapeFree_some.2 trivial
          · exact escapeFree_none

theorem escapeFree_ofLine {line : Text} (h : EscapeFree line) : EscapeFree (ofLine line) := by
  have htrim := Text.escapeFree_trim h
  rw [ofLine]
  split
  · trivial
  · trivial
  · have hargument : EscapeFree (Text.trim (line.trim.dropWhile isWordChar)) :=
      Text.escapeFree_trim (htrim.of_subset (List.dropWhile_suffix isWordChar).subset)
    have hword := escapeFree_ofWord? (line.trim.takeWhile isWordChar) hargument
    dsimp only
    cases hcommand : ofWord? (line.trim.takeWhile isWordChar)
        (Text.trim (line.trim.dropWhile isWordChar)) with
    | none => exact htrim
    | some command => exact hword command hcommand

end Command

/-- The texts of a shell are free of the escape character. -/
structure Shell.TextsEscapeFree (s : Shell) : Prop where
  session : EscapeFree s.session
  pending : EscapeFree s.pending
  prompt : EscapeFree s.prompt

instance : Textual Shell := ⟨Shell.TextsEscapeFree⟩

instance : Carrying Shell where
  escapeFree_reporter h := h.session.reporter
  escapeFree_withReporter hf s h :=
    { h with session := Carrying.escapeFree_withReporter hf s.session h.session }

instance : Textual Shell.Reply := ⟨fun _ => True⟩

namespace Shell

open Step Reporting

theorem escapeFree_firstPrompt : EscapeFree firstPrompt := by decide

theorem escapeFree_furtherPrompt : EscapeFree furtherPrompt := by decide

theorem escapeFree_inSession {α : Type} [Textual α] {step : Step Session α} (h : EscapeFree step) :
    EscapeFree (inSession step) := by
  intro s hs
  obtain ⟨hstate, houtput, hanswer⟩ := h s.session hs.session
  exact ⟨{ hs with session := hstate }, houtput, hanswer⟩

theorem escapeFree_execute {text : Text} (h : EscapeFree text) (number : Int) :
    EscapeFree (execute text number) :=
  escapeFree_bind (Session.escapeFree_add h number) fun _ _ =>
    escapeFree_bind Session.escapeFree_run fun _ _ => Session.escapeFree_drain

theorem escapeFree_joined {s : Shell} (hs : EscapeFree s) {line : Text} (h : EscapeFree line) :
    EscapeFree (s.joined line) := by
  rw [joined]
  split
  · exact Text.escapeFree_trimEnd h
  · exact Text.escapeFree_trimEnd
      (escapeFree_append.2 ⟨hs.pending, escapeFree_cons.2 ⟨by decide, h⟩⟩)

theorem escapeFree_accept {line : Text} (h : EscapeFree line) : EscapeFree (accept line) := by
  refine escapeFree_bind (escapeFree_update fun s hs => ?_) fun _ _ => ?_
  · exact { hs with }
  refine escapeFree_bind escapeFree_state fun s hs => ?_
  have htext := escapeFree_joined hs h
  dsimp only
  split
  · refine escapeFree_update fun s' hs' => ?_
    exact { hs' with pending := htext, prompt := escapeFree_furtherPrompt }
  · refine escapeFree_bind (escapeFree_update fun s' hs' => ?_) fun _ _ => ?_
    · exact { hs' with pending := escapeFree_nil, prompt := escapeFree_firstPrompt }
    split
    · exact escapeFree_inSession (escapeFree_execute htext _)
    · exact escapeFree_done trivial

theorem escapeFree_turn (switch : Switch) {argument : Text} (h : EscapeFree argument) :
    EscapeFree (turn switch argument) := by
  have hname : EscapeFree switch.name := by cases switch <;> decide
  have hnotice : EscapeFree (switchNotice switch argument) := by
    refine ⟨?_, escapeFree_cons.2 ⟨hname, escapeFree_singleton.2 h⟩⟩
    change EscapeFree (Template.quotedHole ++ " expects 'on' or 'off', got " ++ Template.quotedHole)
    decide
  have hturned (wanted : Bool) : EscapeFree (do
      update fun s => { s with view := switch.set wanted s.view }
      printLine (Doc.plain (switch.name ++ [' '] ++ (if wanted then "on" else "off"))) :
        Step Session Unit) := by
    refine escapeFree_bind (escapeFree_update fun s hs => ?_) fun _ _ => ?_
    · exact { hs with }
    refine escapeFree_printLine (Doc.escapeFree_plain.2 (escapeFree_append.2 ⟨?_, ?_⟩))
    · exact escapeFree_append.2 ⟨hname, by decide⟩
    · cases wanted <;> decide
  refine escapeFree_bind escapeFree_state fun s _ => ?_
  dsimp only
  split
  · exact hturned _
  · split
    · exact hturned _
    · split
      · exact hturned _
      · exact escapeFree_bind (escapeFree_raiseProblem (Notice.escapeFree_problem hnotice _))
          fun wanted _ => hturned wanted

theorem escapeFree_perform {command : Command} (h : EscapeFree command) :
    EscapeFree (perform command) := by
  have hproceed : EscapeFree (done .proceed : Step Shell Reply) := escapeFree_done trivial
  cases command with
  | blank => exact escapeFree_done trivial
  | tree argument =>
      exact escapeFree_bind (escapeFree_guarded (escapeFree_inSession (escapeFree_turn .tree h)))
        fun _ _ => hproceed
  | trace argument =>
      exact escapeFree_bind (escapeFree_guarded (escapeFree_inSession (escapeFree_turn .trace h)))
        fun _ _ => hproceed
  | help =>
      have hhelp : EscapeFree helpText := by decide +kernel
      exact escapeFree_bind (escapeFree_printLine (Doc.escapeFree_plain.2 hhelp)) fun _ _ =>
        hproceed
  | endOfInput =>
      exact escapeFree_bind (escapeFree_printLine escapeFree_nil) fun _ _ => escapeFree_done trivial
  | exit => exact escapeFree_done trivial
  | statement line =>
      exact escapeFree_bind (escapeFree_guarded (escapeFree_accept h)) fun _ _ => hproceed

theorem escapeFree_onLine {line : Text} (h : EscapeFree line) : EscapeFree (onLine line) :=
  escapeFree_perform (Command.escapeFree_ofLine h)

theorem escapeFree_converse {lines : List Text} (h : EscapeFree lines) :
    EscapeFree (converse lines) := by
  have hprompt {s : Shell} (hs : EscapeFree s) :
      EscapeFree (print (Doc.plain s.prompt) : Step Shell Unit) :=
    escapeFree_print (Doc.escapeFree_plain.2 hs.prompt)
  induction lines with
  | nil =>
      refine escapeFree_bind escapeFree_state fun s hs => ?_
      refine escapeFree_bind (hprompt hs) fun _ _ => ?_
      have hend : EscapeFree Command.endOfInput := trivial
      exact escapeFree_bind (escapeFree_perform hend) fun _ _ => escapeFree_done trivial
  | cons line lines ih =>
      obtain ⟨hline, hlines⟩ := escapeFree_cons.1 h
      refine escapeFree_bind escapeFree_state fun s hs => ?_
      refine escapeFree_bind (hprompt hs) fun _ _ => ?_
      refine escapeFree_bind (escapeFree_onLine hline) fun reply _ => ?_
      split
      · exact escapeFree_done trivial
      · exact ih hlines

theorem escapeFree_interact {lines : List Text} (h : EscapeFree lines) :
    EscapeFree (interact lines) := by
  have hintro : EscapeFree intro := by decide +kernel
  exact escapeFree_bind (escapeFree_printLine (Doc.escapeFree_plain.2 hintro)) fun _ _ =>
    escapeFree_converse h

end Shell

end Conditional

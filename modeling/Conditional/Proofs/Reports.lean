import Conditional.Proofs.Messages
import Conditional.Reporter
import Conditional.Source

/-!
# Conditional.Proofs.Reports

What running a step comes to, and what a report of an error prints.

Steps are taken apart at their binds: `Step.run_bind_ok` and
`Step.run_bind_error` say what a step and its continuation come to together,
so that the outcome of a whole step is put together from the outcomes of its
parts.  A report prints one document, `Problem.announcement`, and then either
ends the program or clears the traceback (`run_report`); a warning only prints one
(`run_warn_ok`).  A guarded step is the step, and the report of the signal that
cuts it short, if one does (`run_guarded_signal`).
-/

namespace Conditional

/-! ## Outcomes of steps -/

namespace Step

variable {σ α β : Type} {step : Step σ α} {next : α → Step σ β} {s s' : σ} {d : Doc}

/-- A step that comes to its end, and what follows it. -/
theorem run_bind_ok {a : α} (h : step.run s = ⟨s', d, .ok a⟩) :
    (step >>= next).run s =
      ⟨((next a).run s').state, d ++ ((next a).run s').output, ((next a).run s').answer⟩ := by
  rw [run_bind, h]
  rfl

/-- A step that prints nothing, and what follows it. -/
theorem run_bind_silent {a : α} (h : step.run s = ⟨s', [], .ok a⟩) :
    (step >>= next).run s = (next a).run s' := by
  rw [run_bind, h]
  rfl

/-- A step that is cut short keeps what follows it from being taken. -/
theorem run_bind_error {signal : Signal} (h : step.run s = ⟨s', d, .error signal⟩) :
    (step >>= next).run s = ⟨s', d, .error signal⟩ := by
  rw [run_bind, h]
  rfl

theorem run_check_ok {x : Except Fault α} {a : α} (h : x = .ok a) (s : σ) :
    (check x).run s = ⟨s, [], .ok a⟩ := by
  rw [h]
  rfl

theorem run_raiseProblem {x : Except Fault Problem} {p : Problem} (h : x = .ok p) (s : σ) :
    (raiseProblem x : Step σ α).run s = ⟨s, [], .error (.problem p)⟩ := by
  rw [h]
  rfl

theorem run_printLine (d : Doc) (s : σ) :
    (printLine d).run s = ⟨s, d ++ Doc.plain ['\n'], .ok ()⟩ := rfl

/-- A step that need not be recovered from. -/
theorem run_recover_ok {handler : Signal → Step σ α} {a : α} (h : step.run s = ⟨s', d, .ok a⟩) :
    (step.recover handler).run s = ⟨s', d, .ok a⟩ := by
  change (step.recover handler) s = _
  rw [recover, h]

/-- A step that is recovered from. -/
theorem run_recover_error {handler : Signal → Step σ α} {signal : Signal}
    (h : step.run s = ⟨s', d, .error signal⟩) :
    (step.recover handler).run s =
      ⟨((handler signal).run s').state, d ++ ((handler signal).run s').output,
        ((handler signal).run s').answer⟩ := by
  change (step.recover handler) s = _
  rw [recover, h]

/-- The change of the state after a step comes on top of it. -/
theorem run_settling {x : Except Signal α} (h : step.run s = ⟨s', d, x⟩) (f : σ → σ) :
    (step.settling f).run s = ⟨f s', d, x⟩ := by
  change (step.settling f) s = _
  rw [settling, h]

end Step

/-! ## Reports -/

/-- What the report of a problem prints, below the heading. -/
def Problem.announcement (p : Problem) (heading : Text) : Doc :=
  Doc.plain heading ++ (if p.internal then Doc.styled .error "[internal] " else []) ++
    Doc.styled .error "error: " ++ p.message ++ Doc.plain ['\n'] ++
    if p.showsSubject then p.diagnosis .error ++ Doc.plain ['\n'] else []

/-- What a warning prints, below the line that heads it. -/
def Problem.caution (p : Problem) (origin : Doc) : Doc :=
  origin ++ Doc.styled .warning "warning: " ++ p.message ++ Doc.plain ['\n'] ++
    if p.showsSubject then p.diagnosis .warning ++ Doc.plain ['\n'] else []

/-- A problem without a source text. -/
def Problem.bare (message : Text) (internal : Bool) : Problem where
  cause := .general
  message := Doc.plain message
  subject := []
  start := 0
  stop := 0
  pointed := true
  internal := internal

namespace Signal

/-- The problem as which a signal is reported.  A request to end the program is
not reported. -/
def problem? : Signal → Option Problem
  | .problem p => some p
  | .interrupt => some (.bare "keyboard interrupt" false)
  | .tooDeep => some (.bare (tooDeepMessage ++ ", maximum recursion depth exceeded") false)
  | .fault f => some (.bare ("unknown error: '" ++ (f.kind ++ ": " ++ f.detail) ++ ['\'']) true)
  | .exit _ => none

/-- The report of the signal settles it, unless the report ends the program. -/
def IsSettled : Signal → Prop
  | .problem _ | .interrupt | .tooDeep => True
  | .fault _ | .exit _ => False

instance : DecidablePred IsSettled := fun signal => by
  cases signal <;> unfold IsSettled <;> infer_instance

theorem exists_problem? {signal : Signal} (h : ∀ code, signal ≠ .exit code) :
    ∃ p, signal.problem? = some p := by
  cases signal with
  | exit code => exact absurd rfl (h code)
  | _ => exact ⟨_, rfl⟩

end Signal

namespace Reporting

open Step

variable {σ α : Type} [Reporting σ]

/-- The state after a report that did not end the program. -/
def cleared (s : σ) : σ := withReporter (fun r => { r with traceback := r.traceback.clear }) s

/-- The heading of a report from the state. -/
def headingOf (s : σ) : Text := (reporter s).traceback.heading

/-- A report prints its announcement.  Then it ends the program, or it clears
the traceback. -/
theorem run_report (p : Problem) (s : σ) :
    (report p).run s =
      if (reporter s).fatal then ⟨s, p.announcement (headingOf s), .error (.exit 1)⟩
      else ⟨cleared s, p.announcement (headingOf s), .ok ()⟩ := by
  have hreporter : (theReporter : Step σ Reporter).run s = ⟨s, [], .ok (reporter s)⟩ := rfl
  rw [report, run_bind_silent hreporter, run_bind_ok (run_printLine _ s)]
  cases hshows : p.showsSubject <;> cases hfatal : (reporter s).fatal <;>
    simp [Problem.announcement, hshows, headingOf, cleared, Outcome.andThen, run_printLine]

/-- A warning changes nothing. -/
theorem run_warn_ok {notice : Notice} {p : Problem} (h : notice.problem .general = .ok p) (s : σ) :
    (warn notice).run s = ⟨s, p.caution (reporter s).traceback.origin, .ok ()⟩ := by
  have hreporter : (theReporter : Step σ Reporter).run s = ⟨s, [], .ok (reporter s)⟩ := rfl
  rw [warn, run_bind_silent (run_check_ok h s), run_bind_silent hreporter,
    run_bind_ok (run_printLine _ s)]
  cases hshows : p.showsSubject <;> simp [Problem.caution, hshows, run_printLine]

theorem run_warn_error {notice : Notice} {f : Fault} (h : notice.problem .general = .error f)
    (s : σ) : (warn notice).run s = ⟨s, [], .error (.fault f)⟩ := by
  have hcheck : (check (notice.problem .general) : Step σ Problem).run s =
      ⟨s, [], .error (.fault f)⟩ := by
    rw [h]
    rfl
  rw [warn, run_bind_error hcheck]

theorem state_warn (notice : Notice) (s : σ) : ((warn notice).run s).state = s := by
  cases h : notice.problem .general with
  | ok p => rw [run_warn_ok h]
  | error f => rw [run_warn_error h]

theorem run_guarded_ok {step : Step σ α} {s s' : σ} {d : Doc} {a : α}
    (h : step.run s = ⟨s', d, .ok a⟩) : (guarded step).run s = ⟨s', d, .ok (some a)⟩ := by
  refine run_recover_ok ?_
  rw [run_bind_ok h]
  simp

theorem problem_faultNotice (f : Fault) :
    (faultNotice f).problem .general =
      .ok (.bare ("unknown error: '" ++ (f.kind ++ ": " ++ f.detail) ++ ['\'']) true) := by
  have htemplate : (faultNotice f).template =
      Template.escape ("unknown error: '" ++ (f.kind ++ ": " ++ f.detail) ++ ['\'']) := by
    rw [Template.escape_append, Template.escape_append]
    rfl
  have hfill : Template.fill (faultNotice f).template (faultNotice f).snippets =
      .ok (Doc.plain ("unknown error: '" ++ (f.kind ++ ": " ++ f.detail) ++ ['\''])) := by
    rw [htemplate]
    exact Template.fill_escape (by simp) _
  rw [Notice.problem, hfill]
  rfl

/-- Reporting a signal ends the program, or it clears the traceback; a fault is
passed on even then. -/
theorem run_settle {signal : Signal} {p : Problem} (h : signal.problem? = some p) (s : σ) :
    (settle signal).run s =
      if (reporter s).fatal then ⟨s, p.announcement (headingOf s), .error (.exit 1)⟩
      else ⟨cleared s, p.announcement (headingOf s),
        if signal.IsSettled then .ok () else .error signal⟩ := by
  have hreport {notice : Notice} (hp : notice.problem .general = .ok p) :
      (reportNotice notice).run s =
        if (reporter s).fatal then ⟨s, p.announcement (headingOf s), .error (.exit 1)⟩
        else ⟨cleared s, p.announcement (headingOf s), .ok ()⟩ := by
    rw [reportNotice, run_bind_silent (run_check_ok hp s), run_report]
  cases signal with
  | problem p' =>
      obtain rfl : p' = p := Option.some.inj h
      exact run_report _ s
  | interrupt =>
      obtain rfl := Option.some.inj h
      exact hreport rfl
  | tooDeep =>
      obtain rfl := Option.some.inj h
      exact hreport rfl
  | exit code => contradiction
  | fault f =>
      obtain rfl := Option.some.inj h
      have hfault := hreport (problem_faultNotice f)
      rw [settle]
      cases hfatal : (reporter s).fatal with
      | true =>
          rw [hfatal] at hfault
          exact run_bind_error hfault
      | false =>
          rw [hfatal] at hfault
          rw [run_bind_ok hfault]
          simp [Signal.IsSettled]

/-- A guarded step that is cut short comes to what the step and the settlement
of the signal come to. -/
theorem run_guarded_error {step : Step σ α} {s s' : σ} {d : Doc} {signal : Signal}
    (h : step.run s = ⟨s', d, .error signal⟩) :
    (guarded step).run s =
      ⟨((settle signal).run s').state, d ++ ((settle signal).run s').output,
        ((settle signal).run s').answer.map fun _ => none⟩ := by
  rw [guarded, run_recover_error (run_bind_error h), run_bind]
  cases hanswer : ((settle signal).run s').answer with
  | ok _ => simp [Outcome.andThen, hanswer, Except.map]
  | error _ => simp [Outcome.andThen, hanswer, Except.map]

theorem run_guarded_signal {step : Step σ α} {s s' : σ} {d : Doc} {signal : Signal} {p : Problem}
    (h : step.run s = ⟨s', d, .error signal⟩) (hp : signal.problem? = some p) :
    (guarded step).run s =
      if (reporter s').fatal then ⟨s', d ++ p.announcement (headingOf s'), .error (.exit 1)⟩
      else ⟨cleared s', d ++ p.announcement (headingOf s'),
        if signal.IsSettled then .ok none else .error signal⟩ := by
  rw [run_guarded_error h, run_settle hp]
  cases (reporter s').fatal with
  | true => rfl
  | false => by_cases hsettled : signal.IsSettled <;> simp [hsettled, Except.map]

theorem run_guarded_exit {step : Step σ α} {s s' : σ} {d : Doc} {code : Int}
    (h : step.run s = ⟨s', d, .error (.exit code)⟩) :
    (guarded step).run s = ⟨s', d, .error (.exit code)⟩ := by
  rw [run_guarded_error h, settle, run_raise]
  simp [Except.map]

/-- A problem under the eyes of a fatal reporter ends the program. -/
theorem run_guarded_of_fatal {step : Step σ α} {s s' : σ} {d : Doc} {p : Problem}
    (h : step.run s = ⟨s', d, .error (.problem p)⟩) (hfatal : (reporter s').fatal = true) :
    (guarded step).run s = ⟨s', d ++ p.announcement (headingOf s'), .error (.exit 1)⟩ := by
  rw [run_guarded_signal h rfl, if_pos hfatal]

/-- So does a fault. -/
theorem run_guarded_fault_of_fatal {step : Step σ α} {s s' : σ} {d : Doc} {f : Fault} {p : Problem}
    (h : step.run s = ⟨s', d, .error (.fault f)⟩) (hp : (faultNotice f).problem .general = .ok p)
    (hfatal : (reporter s').fatal = true) :
    (guarded step).run s = ⟨s', d ++ p.announcement (headingOf s'), .error (.exit 1)⟩ := by
  obtain rfl := Except.ok.inj ((problem_faultNotice f).symm.trans hp)
  rw [run_guarded_signal h rfl, if_pos hfatal]

/-- Any other reporter forgets where the problem was, and the step has no
answer. -/
theorem run_guarded_of_not_fatal {step : Step σ α} {s s' : σ} {d : Doc} {p : Problem}
    (h : step.run s = ⟨s', d, .error (.problem p)⟩) (hfatal : (reporter s').fatal = false) :
    (guarded step).run s = ⟨cleared s', d ++ p.announcement (headingOf s'), .ok none⟩ := by
  rw [run_guarded_signal h rfl, hfatal]
  rfl

end Reporting

/-! ## Mistakes in a source text -/

namespace SourceError

/-- A mistake in a source text can always be reported. -/
theorem exists_problem (source : Text) (e : SourceError) : ∃ p, e.problem source = .ok p := by
  cases e with
  | lexical e => exact e.exists_problem source
  | grammatical e =>
      obtain ⟨p, hp, -⟩ := e.exists_problem source
      exact ⟨p, hp⟩

/-- A mistake is announced by a notice about the source text, which is pointed
at unless it is empty. -/
theorem exists_notice {source : Text} {e : SourceError} {p : Problem}
    (h : e.problem source = .ok p) :
    ∃ (n : Notice) (cause : Cause), n.problem cause = .ok p ∧ n.snippets.head? = some source ∧
      n.pointed = !source.isEmpty ∧ n.internal = false := by
  match e with
  | .lexical e => exact ⟨_, _, h, rfl, rfl, rfl⟩
  | .grammatical (.unexpected expected found) => exact ⟨_, _, h, rfl, rfl, rfl⟩
  | .grammatical (.tooDeep found) => exact ⟨_, _, h, rfl, rfl, rfl⟩

/-- The problem is the user's, and it is about the source text, which is shown
unless it is empty. -/
theorem eq_of_problem {source : Text} {e : SourceError} {p : Problem}
    (h : e.problem source = .ok p) :
    p.subject = source ∧ p.pointed = !source.isEmpty ∧ p.internal = false := by
  obtain ⟨n, cause, hn, hsource, hpointed, hinternal⟩ := exists_notice h
  obtain ⟨message, subject, rest, -, hsnippets, rfl⟩ := Notice.eq_of_problem hn
  rw [hsnippets] at hsource
  exact ⟨Option.some.inj hsource, hpointed, hinternal⟩

/-- What there is of a source text is shown. -/
theorem showsSubject_of_problem {source : Text} {e : SourceError} {p : Problem}
    (h : e.problem source = .ok p) (hsource : source ≠ []) : p.showsSubject = true := by
  obtain ⟨hsubject, hpointed, hinternal⟩ := eq_of_problem h
  simp [Problem.showsSubject, hsubject, hpointed, hinternal, hsource]

/-- The report of a mistake: where it is, what it is, and the source text with
the offending part marked. -/
theorem announcement_eq {source : Text} {e : SourceError} {p : Problem}
    (h : e.problem source = .ok p) (hsource : source ≠ []) (heading : Text) :
    p.announcement heading =
      Doc.plain heading ++ Doc.styled .error "error: " ++ p.message ++ Doc.plain ['\n'] ++
        (p.diagnosis .error ++ Doc.plain ['\n']) := by
  rw [Problem.announcement, if_pos (showsSubject_of_problem h hsource), (eq_of_problem h).2.2]
  simp

end SourceError

end Conditional

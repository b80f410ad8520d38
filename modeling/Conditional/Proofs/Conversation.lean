import Conditional.Proofs.Balance
import Conditional.Proofs.Statements
import Conditional.Shell

/-!
# Conditional.Proofs.Conversation

What a shell does with a line.  Between two lines a shell has nothing in its
session but the display switches (`Shell.idle`), whatever the lines before
were: a statement is run as soon as it is complete, and a mistake is reported
and forgotten.  So what a line does depends on the switches and on the text
of the unfinished statement alone (`Shell.Reacts`), and the shell is idle again
after it (`Shell.Reached.exists_idle`).
-/

namespace Conditional

open LogicalLine

/-! ## Executing a statement -/

namespace Shell

open Step Reporting Session

theorem run_inSession {α : Type} {step : Step Session α} {s : Shell} {s' : Session} {d : Doc}
    {x : Except Signal α} (h : step.run s.session = ⟨s', d, x⟩) :
    (inSession step).run s = ⟨{ s with session := s' }, d, x⟩ := by
  change (inSession step) s = _
  rw [inSession, h]

theorem headingOf_mk (s : Session) (pending prompt : Text) (number : Nat) :
    headingOf (⟨s, pending, prompt, number⟩ : Shell) = headingOf s := rfl

section

variable {s : Session} {text : Text}

/-- A statement that can be parsed is answered, and leaves nothing behind. -/
theorem run_execute_ok {d : Doc} (h : Answers s.view text d) (hrest : s.AtRest)
    (hqueue : s.queue = []) (hresults : s.results = []) (number : Int) :
    (execute text number).run s = ⟨s, d, .ok ()⟩ := by
  obtain ⟨t, ht, hd⟩ := h
  have hadd := run_add_ok ht hrest number
  obtain ⟨docs, hdocs, hfinish⟩ := run_finish (s := { s with queue := s.queue.insert number t })
    hrest hresults (by simpa [hqueue, Queue.insert] using native_of_parse ht)
  have hprints : docs = [d] := by
    simp only [hqueue, Queue.insert] at hdocs
    obtain _ | ⟨hd', hnil⟩ := hdocs
    cases hnil
    rw [hd.unique hd']
  rw [execute, run_bind_silent hadd, hfinish, hprints, ← hqueue]
  simp

theorem run_execute_error {e : SourceError} {p : Problem} (h : parse text = .error e)
    (hp : e.problem text = .ok p) (number : Int) :
    (execute text number).run s = ⟨s.atLine text number, [], .error (.problem p)⟩ :=
  run_bind_error (run_add_error h hp s number)

end

/-! ## Lines of statements -/

/-- The prompt that goes with the text of an unfinished statement. -/
def promptFor (pending : Text) : Text := if pending.isEmpty then firstPrompt else furtherPrompt

theorem promptFor_of_isOpen {pending : Text} (h : isOpen pending) :
    promptFor pending = furtherPrompt := by
  cases pending with
  | nil => contradiction
  | cons c pending => rfl

theorem promptFor_eq_first_iff {pending : Text} :
    promptFor pending = firstPrompt ↔ pending = [] := by
  have hdistinct : furtherPrompt ≠ firstPrompt := by decide
  cases pending with
  | nil => simp [promptFor]
  | cons c pending => simpa [promptFor] using hdistinct

theorem promptFor_eq_further_iff {pending : Text} :
    promptFor pending = furtherPrompt ↔ pending ≠ [] := by
  have hdistinct : firstPrompt ≠ furtherPrompt := by decide
  cases pending with
  | nil => simpa [promptFor] using hdistinct
  | cons c pending => simp [promptFor]

/-- The shell between two lines. -/
def idle (view : View) (pending : Text) (number : Nat) : Shell :=
  { start view with pending := pending, prompt := promptFor pending, lineNumber := number }

theorem atRest_idle (view : View) (pending : Text) (number : Nat) :
    (idle view pending number).session.AtRest := rfl

/-- The text of an unfinished statement with a further line. -/
def withLine (pending line : Text) : Text :=
  Text.trimEnd (if pending.isEmpty then line else pending ++ ' ' :: line)

/-- What the shell keeps of the text of a statement, and what it prints. -/
inductive Responds (view : View) (text : Text) (number : Int) : Text → Doc → Prop where
  | goesOn : isOpen text = true → Responds view text number text []
  | nothing : text = [] → Responds view text number [] []
  | answers {d : Doc} : Answers view text d → Responds view text number [] d
  | mistake {e : SourceError} {p : Problem} :
      text ≠ [] → isOpen text = false → parse text = .error e → e.problem text = .ok p →
      Responds view text number [] (p.announcement (lineHeading inputPath text number))

/-- There is a response to every text. -/
theorem exists_responds (view : View) (text : Text) (number : Int) :
    ∃ pending d, Responds view text number pending d := by
  by_cases hnil : text = []
  · exact ⟨_, _, .nothing hnil⟩
  · cases hopen : isOpen text with
    | true => exact ⟨_, _, .goesOn hopen⟩
    | false =>
        cases hparse : parse text with
        | error e =>
            obtain ⟨p, hp⟩ := e.exists_problem text
            exact ⟨_, _, .mistake hnil hopen hparse hp⟩
        | ok t =>
            obtain ⟨d, hd⟩ := (native_of_parse hparse).exists_prints view
            exact ⟨_, _, .answers ⟨t, hparse, hd⟩⟩

section

variable {view : View} {pending line : Text}

theorem run_accept (view : View) (pending line : Text) (number : Nat) :
    (accept line).run (idle view pending number) =
      if isOpen (withLine pending line) then
        ⟨idle view (withLine pending line) (number + 1), [], .ok ()⟩
      else if withLine pending line = [] then ⟨idle view [] (number + 1), [], .ok ()⟩
      else (inSession (execute (withLine pending line) (number + 1 : Nat))).run
        (idle view [] (number + 1)) := by
  rw [accept, run_bind_silent (run_update _ _), run_bind_silent (run_state _)]
  change (if isOpen (withLine pending line) then _ else _ : Step Shell Unit).run _ = _
  cases hopen : isOpen (withLine pending line) with
  | true =>
      change (⟨{ idle view (withLine pending line) (number + 1) with prompt := furtherPrompt },
        [], .ok ()⟩ : Outcome Shell Unit) = _
      rw [← promptFor_of_isOpen hopen]
      rfl
  | false =>
      simp only [Bool.false_eq_true, if_false]
      rw [run_bind_silent (run_update _ _)]
      change (if !(withLine pending line).isEmpty then _ else _ : Step Shell Unit).run _ = _
      by_cases hnil : withLine pending line = []
      · rw [if_pos hnil, hnil]
        rfl
      · rw [if_neg hnil, if_pos (by simpa using hnil)]
        rfl

/-- An idle shell responds to a line of a statement, and is idle again. -/
theorem run_statement (number : Nat) {pending' : Text} {d : Doc}
    (h : Responds view (withLine pending line) (number + 1 : Nat) pending' d) :
    (perform (.statement line)).run (idle view pending number) =
      ⟨idle view pending' (number + 1), d, .ok .proceed⟩ := by
  have haccept := run_accept view pending line number
  have hguarded : ∃ x, (guarded (accept line)).run (idle view pending number) =
      ⟨idle view pending' (number + 1), d, .ok x⟩ := by
    cases h with
    | goesOn hopen =>
        rw [if_pos hopen] at haccept
        exact ⟨_, run_guarded_ok haccept⟩
    | nothing hnil =>
        have hopen : isOpen (withLine pending line) = false := by rw [hnil]; rfl
        rw [hopen, if_neg Bool.false_ne_true, if_pos hnil] at haccept
        exact ⟨_, run_guarded_ok haccept⟩
    | answers hanswers =>
        obtain ⟨t, ht, hd⟩ := hanswers
        have hopen := isOpen_eq_false_of_parse ht
        have hsome := ne_nil_of_parse ht
        have hexecute := run_execute_ok (s := (idle view [] (number + 1)).session)
          ⟨t, ht, hd⟩ (atRest_idle ..) rfl rfl (number + 1 : Nat)
        rw [hopen, if_neg Bool.false_ne_true, if_neg hsome, run_inSession hexecute] at haccept
        exact ⟨_, run_guarded_ok haccept⟩
    | mistake hsome hopen herror hp =>
        have hexecute := run_execute_error (s := (idle view [] (number + 1)).session)
          herror hp (number + 1 : Nat)
        rw [hopen, if_neg Bool.false_ne_true, if_neg hsome, run_inSession hexecute] at haccept
        have hreport := run_guarded_of_not_fatal haccept rfl
        rw [headingOf_mk, (atRest_idle ..).headingOf_atLine] at hreport
        exact ⟨_, hreport⟩
  obtain ⟨x, hguarded⟩ := hguarded
  rw [perform, run_bind_ok hguarded, run_pure, List.append_nil]

end

/-! ## Commands -/

namespace Switch

/-- The command that tells a switch something. -/
def command (switch : Switch) (argument : Text) : Command :=
  match switch with
  | tree => .tree argument
  | trace => .trace argument

/-- The position that a switch is told to take; none, if the argument is not
understood. -/
def wanted (switch : Switch) (argument : Text) (view : View) : Option Bool :=
  if argument.isEmpty then some (!switch.isOn view)
  else if argument = "on" then some true
  else if argument = "off" then some false
  else none

/-- The view after a switch was told something. -/
def turned (switch : Switch) (argument : Text) (view : View) : View :=
  match switch.wanted argument view with
  | some b => switch.set b view
  | none => view

end Switch

/-- The problem that a switch does not understand an argument. -/
def switchProblem (switch : Switch) (argument : Text) : Problem where
  cause := .general
  message := Doc.plain ['\''] ++ Doc.styled .bold switch.name ++
    Doc.plain "' expects 'on' or 'off', got '" ++ Doc.styled .bold argument ++ Doc.plain ['\'']
  subject := switch.name
  start := 0
  stop := switch.name.length
  pointed := false
  internal := false

theorem problem_switchNotice (switch : Switch) (argument : Text) :
    (switchNotice switch argument).problem .general = .ok (switchProblem switch argument) := by
  cases switch <;> rfl

/-- What the shell prints for a switch command. -/
def switchAnswer (switch : Switch) (argument : Text) (view : View) : Doc :=
  match switch.wanted argument view with
  | some b => Doc.plain (switch.name ++ [' '] ++ (if b then "on" else "off")) ++ Doc.plain ['\n']
  | none => (switchProblem switch argument).announcement []

theorem run_turn (switch : Switch) (argument : Text) (s : Session) :
    (turn switch argument).run s =
      match switch.wanted argument s.view with
      | some b => ⟨{ s with view := switch.set b s.view },
          Doc.plain (switch.name ++ [' '] ++ (if b then "on" else "off")) ++ Doc.plain ['\n'],
          .ok ()⟩
      | none => ⟨s, [], .error (.problem (switchProblem switch argument))⟩ := by
  have hproblem := problem_switchNotice switch argument
  rw [turn, run_bind_silent (run_state s), Switch.wanted]
  split_ifs
  · rfl
  · rfl
  · rfl
  · exact run_bind_error (run_raiseProblem hproblem s)

/-- A switch command changes nothing but the view. -/
theorem run_switch (switch : Switch) (argument : Text) (view : View) (pending : Text)
    (number : Nat) :
    ∃ x, (guarded (inSession (turn switch argument))).run (idle view pending number) =
      ⟨idle (switch.turned argument view) pending number, switchAnswer switch argument view,
        .ok x⟩ := by
  have hturn := run_turn switch argument (idle view pending number).session
  have hview : (idle view pending number).session.view = view := rfl
  rw [hview] at hturn
  rw [Switch.turned, switchAnswer]
  cases hwanted : switch.wanted argument view with
  | some b =>
      rw [hwanted] at hturn
      exact ⟨_, run_guarded_ok (run_inSession hturn)⟩
  | none =>
      rw [hwanted] at hturn
      exact ⟨_, run_guarded_of_not_fatal (run_inSession hturn) rfl⟩

/-- What an idle shell comes to on a command, what it prints, and how it goes
on. -/
inductive Reacts (view : View) (pending : Text) (number : Nat) :
    Command → Shell → Doc → Reply → Prop where
  | blank : Reacts view pending number .blank (idle view pending number) [] .ignored
  | switch (switch : Switch) (argument : Text) :
      Reacts view pending number (switch.command argument)
        (idle (switch.turned argument view) pending number) (switchAnswer switch argument view)
        .proceed
  | help :
      Reacts view pending number .help (idle view pending number)
        (Doc.plain helpText ++ Doc.plain ['\n']) .proceed
  | endOfInput :
      Reacts view pending number .endOfInput (idle view pending number) (Doc.plain ['\n']) .stop
  | exit : Reacts view pending number .exit (idle view pending number) [] .stop
  | statement {line pending' : Text} {d : Doc} :
      Responds view (withLine pending line) (number + 1 : Nat) pending' d →
      Reacts view pending number (.statement line) (idle view pending' (number + 1)) d .proceed

section

variable {view : View} {pending : Text} {number : Nat} {command : Command} {s : Shell} {d : Doc}
  {reply : Reply}

/-- The reaction is what carrying out the command comes to. -/
theorem Reacts.run_perform (h : Reacts view pending number command s d reply) :
    (perform command).run (idle view pending number) = ⟨s, d, .ok reply⟩ := by
  cases h with
  | blank => rfl
  | switch switch argument =>
      obtain ⟨x, hswitch⟩ := run_switch switch argument view pending number
      cases switch <;> rw [Switch.command, perform, run_bind_ok hswitch, run_pure, List.append_nil]
  | help => rfl
  | endOfInput => rfl
  | exit => rfl
  | statement hresponds => exact run_statement number hresponds

/-- After a command an idle shell is idle again. -/
theorem Reacts.exists_idle (h : Reacts view pending number command s d reply) :
    ∃ view' pending' number', s = idle view' pending' number' := by
  cases h <;> exact ⟨_, _, _, rfl⟩

end

/-- There is a reaction to every command. -/
theorem exists_reacts (view : View) (pending : Text) (number : Nat) (command : Command) :
    ∃ s d reply, Reacts view pending number command s d reply := by
  cases command with
  | blank => exact ⟨_, _, _, .blank⟩
  | tree argument => exact ⟨_, _, _, .switch .tree argument⟩
  | trace argument => exact ⟨_, _, _, .switch .trace argument⟩
  | help => exact ⟨_, _, _, .help⟩
  | endOfInput => exact ⟨_, _, _, .endOfInput⟩
  | exit => exact ⟨_, _, _, .exit⟩
  | statement line =>
      obtain ⟨pending', d, h⟩ := exists_responds view (withLine pending line) (number + 1 : Nat)
      exact ⟨_, _, _, .statement h⟩

/-! ## Shells in use -/

/-- A shell that has carried out commands, one after another. -/
inductive Reached : Shell → Prop where
  | start (view : View) : Reached (start view)
  | perform {s : Shell} (command : Command) : Reached s → Reached ((perform command).run s).state

/-- A shell in use is idle. -/
theorem Reached.exists_idle {s : Shell} (h : Reached s) :
    ∃ view pending number, s = idle view pending number := by
  induction h with
  | start view => exact ⟨view, [], 0, rfl⟩
  | perform command _ ih =>
      obtain ⟨view, pending, number, rfl⟩ := ih
      obtain ⟨s', d, reply, hreacts⟩ := exists_reacts view pending number command
      rw [hreacts.run_perform]
      exact hreacts.exists_idle

end Shell

end Conditional

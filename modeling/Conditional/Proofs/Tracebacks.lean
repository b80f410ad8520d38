import Conditional.Proofs.Statements
import Mathlib.Data.List.Induction

/-!
# Conditional.Proofs.Tracebacks

What a reporter says after whatever has been done with it
(`Reporter.operations_reported`).

What can be done with a reporter is a list of operations
(`Reporter.Operation`).  A single one puts a place into the traceback, or it
reports a problem and so may clear the traceback, or it leaves the traceback
alone (`Reporter.state_step`).  So the traceback after a list of operations is
told by the order in which they mention the paths (`Reporter.map_fst_after`), and
by the last mention of each path with the reports that come later
(`Reporter.lookup_after`).

A guarded block is its body and the settlement of the signal that cuts the body
short, and what becomes of the signal is decided by its kind and by the reporter
as the body has left it (`Reporting.run_settle`).
-/

namespace Conditional

/-! ## Guarded blocks -/

namespace Reporting

open Step

variable {σ α : Type} [Reporting σ]

/-- What a guarded step comes to, by what cuts it short. -/
structure Guards (step : Step σ α) (s : σ) : Prop where
  /-- A step that comes to its end is left alone. -/
  ends : ∀ a, (step.run s).answer = .ok a →
    (guarded step).run s = ⟨(step.run s).state, (step.run s).output, .ok (some a)⟩
  /-- A request to end the program passes, without a report and without a change
  of the state. -/
  exits : ∀ code, (step.run s).answer = .error (.exit code) →
    (guarded step).run s = ⟨(step.run s).state, (step.run s).output, .error (.exit code)⟩
  /-- Any other signal is reported, and a fatal reporter ends the program, with
  its traceback as it was. -/
  fatal : ∀ signal, (step.run s).answer = .error signal → (∀ code, signal ≠ .exit code) →
    (reporter (step.run s).state).fatal = true →
    ∃ p, signal.problem? = some p ∧ (guarded step).run s =
      ⟨(step.run s).state, (step.run s).output ++ p.announcement (headingOf (step.run s).state),
        .error (.exit 1)⟩
  /-- A reporter that is not fatal clears its traceback.  Then a fault is passed
  on, and everything else is settled. -/
  not_fatal : ∀ signal, (step.run s).answer = .error signal → (∀ code, signal ≠ .exit code) →
    (reporter (step.run s).state).fatal = false →
    ∃ p, signal.problem? = some p ∧ (guarded step).run s =
      ⟨cleared (step.run s).state,
        (step.run s).output ++ p.announcement (headingOf (step.run s).state),
        if signal.IsSettled then .ok none else .error signal⟩
  /-- So a signal is swallowed exactly under these conditions. -/
  swallows_iff : ((guarded step).run s).answer = .ok none ↔
    (reporter (step.run s).state).fatal = false ∧
      ∃ signal, (step.run s).answer = .error signal ∧ signal.IsSettled

theorem guards (step : Step σ α) (s : σ) : Guards step s := by
  rcases hrun : step.run s with ⟨s', d, x⟩
  cases x with
  | ok a =>
      have hguarded := run_guarded_ok hrun
      constructor <;> simp [hrun, hguarded]
  | error signal =>
      by_cases hexit : ∃ code, signal = .exit code
      · obtain ⟨code, rfl⟩ := hexit
        have hguarded := run_guarded_exit hrun
        constructor <;> simp [hrun, hguarded, Signal.IsSettled]
      · rw [not_exists] at hexit
        obtain ⟨p, hp⟩ := Signal.exists_problem? hexit
        have hguarded := run_guarded_signal hrun hp
        constructor
        case ends => simp [hrun]
        case exits =>
          intro code hcode
          rw [hrun] at hcode
          exact absurd (Except.error.inj hcode) (hexit code)
        case fatal =>
          intro signal' hsignal _ hfatal
          rw [hrun] at hsignal hfatal
          obtain rfl := Except.error.inj hsignal
          rw [if_pos hfatal] at hguarded
          rw [hrun]
          exact ⟨p, hp, hguarded⟩
        case not_fatal =>
          intro signal' hsignal _ hfatal
          rw [hrun] at hsignal hfatal
          obtain rfl := Except.error.inj hsignal
          rw [hfatal] at hguarded
          rw [hrun]
          exact ⟨p, hp, hguarded⟩
        case swallows_iff =>
          rw [hguarded, hrun]
          cases hfatal : (reporter s').fatal with
          | true => simp
          | false => by_cases hsettled : signal.IsSettled <;> simp [hsettled]

end Reporting

/-! ## Entries of a traceback -/

namespace Traceback

/-- The lines that are being worked on, with their paths and numbers, in the
order of the paths. -/
def lines (t : Traceback) : List (Text × Text × Int) :=
  t.filterMap fun
    | (path, .line (some text) number) => some (path, text, number)
    | _ => none

/-- The heading of an error report names these lines and nothing else. -/
theorem heading_eq (t : Traceback) :
    t.heading = t.lines.flatMap fun line => Session.lineHeading line.1 line.2.1 line.2.2 := by
  induction t with
  | nil => rfl
  | cons entry t ih =>
      rw [heading] at ih ⊢
      rw [List.flatMap_cons, ih]
      match entry with
      | (_, .whole) => rfl
      | (_, .line none _) => rfl
      | (path, .line (some text) number) => rfl

/-- The heading of a warning names the first of them. -/
theorem origin_eq (t : Traceback) :
    t.origin = match t.lines.head? with
      | some line => Doc.styled .bold (line.1 ++ ":" ++ Text.ofInt line.2.2 ++ ": ")
      | none => [] := by
  induction t with
  | nil => rfl
  | cons entry t ih =>
      match entry with
      | (_, .whole) => exact ih
      | (_, .line none _) => exact ih
      | (path, .line (some text) number) => rfl

theorem map_fst_set (path : Text) (place : Place) (t : Traceback) :
    (t.set path place).map Prod.fst =
      if path ∈ t.map Prod.fst then t.map Prod.fst else t.map Prod.fst ++ [path] := by
  induction t with
  | nil => rfl
  | cons entry t ih =>
      obtain ⟨p, q⟩ := entry
      by_cases hp : p = path
      · simp [set, hp]
      · rw [set, if_neg hp, List.map_cons, ih]
        have hmem : path ∈ ((p, q) :: t).map Prod.fst ↔ path ∈ t.map Prod.fst := by
          simp [Ne.symm hp]
        by_cases ht : path ∈ t.map Prod.fst
        · rw [if_pos ht, if_pos (hmem.2 ht)]
          rfl
        · rw [if_neg ht, if_neg (mt hmem.1 ht)]
          rfl

theorem map_fst_clear (t : Traceback) : t.clear.map Prod.fst = t.map Prod.fst := by
  simp [clear]

theorem lookup_set_self (path : Text) (place : Place) (t : Traceback) :
    (t.set path place).lookup path = some place := by
  induction t with
  | nil => simp [set]
  | cons entry t ih =>
      obtain ⟨p, q⟩ := entry
      by_cases hp : p = path
      · simp [set, hp]
      · simp [set, hp, List.lookup_cons, beq_false_of_ne (Ne.symm hp), ih]

theorem lookup_set_of_ne {path path' : Text} (h : path' ≠ path) (place : Place) (t : Traceback) :
    (t.set path place).lookup path' = t.lookup path' := by
  induction t with
  | nil => simp [set, h]
  | cons entry t ih =>
      obtain ⟨p, q⟩ := entry
      by_cases hp : p = path
      · simp [set, hp, List.lookup_cons, beq_false_of_ne h]
      · simp [set, hp, List.lookup_cons, ih]

theorem lookup_clear (path : Text) (t : Traceback) :
    t.clear.lookup path = (t.lookup path).map fun _ => .whole := by
  induction t with
  | nil => rfl
  | cons entry t ih =>
      obtain ⟨p, q⟩ := entry
      rw [clear] at ih ⊢
      rw [List.map_cons, List.lookup_cons, List.lookup_cons, ih]
      cases path == p <;> rfl

end Traceback

/-! ## Operations -/

namespace Reporter

open Step Reporting

/-- What can be done with a reporter. -/
inductive Operation where
  /-- Makes the reporter fatal, or the opposite. -/
  | setFatal (fatal : Bool)
  | registerFile (path : Text)
  | registerLine (path : Text) (text : Option Text) (number : Int)
  | removeLine (path : Text)
  | warn (notice : Notice)
  /-- Reports an error. -/
  | throw (p : Problem)
  /-- Ends a guarded block, with the signal that cuts it short if there is one.
  What the block does with the reporter comes before this as operations of its
  own (`run_guarded_eq_block`). -/
  | block (signal : Option Signal)

namespace Operation

/-- The step that carries out an operation. -/
def step : Operation → Step Reporter Unit
  | setFatal fatal => update fun r => { r with fatal := fatal }
  | registerFile path => Reporting.registerFile path
  | registerLine path text number => Reporting.registerLine path text number
  | removeLine path => Reporting.removeLine path
  | warn notice => Reporting.warn notice
  | throw p => report p
  | block none => do let _ ← guarded (done () : Step Reporter Unit)
  | block (some signal) => do let _ ← guarded (raise signal : Step Reporter Unit)

/-- The place that an operation writes into the traceback, and its path. -/
def entry? : Operation → Option (Text × Place)
  | registerFile path | removeLine path => some (path, .whole)
  | registerLine path text number => some (path, .line text number)
  | _ => none

/-- The path that an operation mentions. -/
def path? (operation : Operation) : Option Text := operation.entry?.map Prod.fst

/-- Whether an operation makes the reporter fatal, or the opposite. -/
def fatal? : Operation → Option Bool
  | setFatal fatal => some fatal
  | _ => none

/-- The problem that an operation reports. -/
def problem? : Operation → Option Problem
  | throw p => some p
  | block (some signal) => signal.problem?
  | _ => none

/-- An operation that writes a place does nothing else. -/
theorem of_entry? {operation : Operation} {entry : Text × Place}
    (h : operation.entry? = some entry) : operation.fatal? = none ∧ operation.problem? = none := by
  cases operation <;> first | exact ⟨rfl, rfl⟩ | contradiction

/-- Neither does an operation that reports a problem. -/
theorem of_problem? {operation : Operation} {p : Problem} (h : operation.problem? = some p) :
    operation.entry? = none ∧ operation.fatal? = none := by
  cases operation <;> first | exact ⟨rfl, rfl⟩ | contradiction

end Operation

/-- An operation that reports a problem prints the report.  Unless the reporter
is fatal, its traceback is cleared. -/
theorem run_step_of_problem {operation : Operation} {p : Problem} (h : operation.problem? = some p)
    (r : Reporter) :
    (operation.step.run r).output = p.announcement r.traceback.heading ∧
      (operation.step.run r).state =
        { r with traceback := if r.fatal then r.traceback else r.traceback.clear } := by
  match operation with
  | .throw p' =>
      obtain rfl : p' = p := Option.some.inj h
      rw [Operation.step, run_report]
      obtain ⟨fatal, traceback⟩ := r
      cases fatal <;> exact ⟨rfl, rfl⟩
  | .block (some signal) =>
      have hraise : (raise signal : Step Reporter Unit).run r = ⟨r, [], .error signal⟩ := rfl
      have hguarded := run_guarded_signal hraise h
      rw [Operation.step, run_bind, hguarded]
      obtain ⟨fatal, traceback⟩ := r
      cases fatal with
      | true => exact ⟨rfl, rfl⟩
      | false =>
          by_cases hsettled : signal.IsSettled
          · simpa [hsettled, Outcome.andThen] using ⟨rfl, rfl⟩
          · simpa [hsettled, Outcome.andThen] using ⟨rfl, rfl⟩

/-- The end of a block without a report does nothing to the reporter. -/
theorem state_step_block {signal : Option Signal} (h : (Operation.block signal).problem? = none)
    (r : Reporter) : ((Operation.block signal).step.run r).state = r := by
  match signal with
  | none => rfl
  | some (.exit code) =>
      have hraise : (raise (.exit code) : Step Reporter Unit).run r =
          ⟨r, [], .error (.exit code)⟩ := rfl
      rw [Operation.step, run_bind_error (run_guarded_exit hraise)]

/-- The reporter after an operation: at most one entry of its traceback is
written, or else all are cleared by a report. -/
theorem state_step (operation : Operation) (r : Reporter) :
    (operation.step.run r).state =
      { fatal := operation.fatal?.getD r.fatal
        traceback := match operation.entry? with
          | some (path, place) => r.traceback.set path place
          | none => if operation.problem?.isSome ∧ r.fatal = false then r.traceback.clear
              else r.traceback } := by
  cases hproblem : operation.problem? with
  | some p =>
      obtain ⟨hentry, hfatal⟩ := Operation.of_problem? hproblem
      rw [(run_step_of_problem hproblem r).2, hentry, hfatal]
      cases r.fatal <;> simp
  | none =>
      cases operation with
      | setFatal fatal => rfl
      | registerFile path => rfl
      | registerLine path text number => rfl
      | removeLine path => rfl
      | warn notice => exact state_warn notice r
      | throw p => contradiction
      | block signal => exact state_step_block hproblem r

/-! ## Sequences of operations -/

/-- The reporter after operations, whether they have succeeded or not. -/
def after (r : Reporter) (operations : List Operation) : Reporter :=
  operations.foldl (fun r operation => (operation.step.run r).state) r

theorem after_append (r : Reporter) (operations more : List Operation) :
    r.after (operations ++ more) = (r.after operations).after more := List.foldl_append

theorem after_concat (r : Reporter) (operations : List Operation) (operation : Operation) :
    r.after (operations ++ [operation]) = (operation.step.run (r.after operations)).state :=
  List.foldl_concat ..

/-- Whether the reporter is fatal after operations: it is as the last one has
left it that has made it fatal or the opposite. -/
def modeAfter (fatal : Bool) (operations : List Operation) : Bool :=
  (operations.filterMap Operation.fatal?).getLast?.getD fatal

theorem modeAfter_concat (fatal : Bool) (operations : List Operation) (operation : Operation) :
    modeAfter fatal (operations ++ [operation]) =
      operation.fatal?.getD (modeAfter fatal operations) := by
  rw [modeAfter, List.filterMap_append]
  cases h : operation.fatal? <;> simp [modeAfter, h]

theorem fatal_after (r : Reporter) (operations : List Operation) :
    (r.after operations).fatal = modeAfter r.fatal operations := by
  induction operations using List.reverseRecOn with
  | nil => rfl
  | append_singleton operations operation ih =>
      rw [after_concat, state_step, modeAfter_concat, ih]

/-- The paths of a traceback are those that were mentioned, in the order in which
they were mentioned first. -/
theorem map_fst_after (fatal : Bool) (operations : List Operation) :
    ((new fatal).after operations).traceback.map Prod.fst =
      (operations.filterMap Operation.path?).eraseDups := by
  induction operations using List.reverseRecOn with
  | nil => rfl
  | append_singleton operations operation ih =>
      rw [after_concat, state_step, List.filterMap_append, List.eraseDups_append, ← ih]
      cases hentry : operation.entry? with
      | some entry =>
          obtain ⟨path, place⟩ := entry
          have hpath : [operation].filterMap Operation.path? = [path] := by
            simp [Operation.path?, hentry]
          rw [hpath, Traceback.map_fst_set, ih]
          generalize operations.filterMap Operation.path? = mentioned
          by_cases hmem : path ∈ mentioned <;> simp [List.removeAll, List.eraseDups_cons, hmem]
      | none =>
          have hpath : [operation].filterMap Operation.path? = [] := by
            simp [Operation.path?, hentry]
          rw [hpath]
          simp only [List.removeAll, List.filter_nil, List.eraseDups_nil, List.append_nil]
          split_ifs
          · exact Traceback.map_fst_clear _
          · rfl

/-- An error is reported by a reporter that is not fatal. -/
def ClearsDuring (fatal : Bool) (operations : List Operation) : Prop :=
  ∃ earlier report rest, operations = earlier ++ report :: rest ∧ report.problem?.isSome ∧
    modeAfter fatal earlier = false

theorem not_clearsDuring_nil (fatal : Bool) : ¬ ClearsDuring fatal [] := by
  rintro ⟨earlier, report, rest, heq, -⟩
  simp at heq

theorem clearsDuring_concat {fatal : Bool} {operations : List Operation} {operation : Operation} :
    ClearsDuring fatal (operations ++ [operation]) ↔
      ClearsDuring fatal operations ∨
        operation.problem?.isSome ∧ modeAfter fatal operations = false := by
  constructor
  · rintro ⟨earlier, report, rest, heq, hreport, hmode⟩
    induction rest using List.reverseRecOn with
    | nil =>
        obtain ⟨rfl, hlast⟩ := List.append_inj' heq rfl
        obtain rfl := List.singleton_inj.1 hlast
        exact .inr ⟨hreport, hmode⟩
    | append_singleton rest last _ =>
        rw [← List.cons_append, ← List.append_assoc] at heq
        obtain ⟨rfl, -⟩ := List.append_inj' heq rfl
        exact .inl ⟨earlier, report, rest, rfl, hreport, hmode⟩
  · rintro (⟨earlier, report, rest, rfl, hreport, hmode⟩ | ⟨hreport, hmode⟩)
    · exact ⟨earlier, report, rest ++ [operation], by simp, hreport, hmode⟩
    · exact ⟨operations, operation, [], rfl, hreport, hmode⟩

/-- A place stays in the traceback while its path is not mentioned, until an
error is reported that does not end the program. -/
theorem lookup_after {r : Reporter} {path : Text} {place : Place} {operations : List Operation}
    (h : r.traceback.lookup path = some place)
    (hother : ∀ operation ∈ operations, operation.path? ≠ some path) :
    (ClearsDuring r.fatal operations → (r.after operations).traceback.lookup path = some .whole) ∧
      (¬ ClearsDuring r.fatal operations →
        (r.after operations).traceback.lookup path = some place) := by
  induction operations using List.reverseRecOn with
  | nil => exact ⟨fun hclears => absurd hclears (not_clearsDuring_nil _), fun _ => h⟩
  | append_singleton operations operation ih =>
      rw [List.forall_mem_append] at hother
      obtain ⟨hcleared, hkept⟩ := ih hother.1
      have hpath : operation.path? ≠ some path := hother.2 operation (by simp)
      rw [after_concat, state_step, fatal_after, clearsDuring_concat]
      cases hentry : operation.entry? with
      | some entry =>
          obtain ⟨path', place'⟩ := entry
          have hne : path ≠ path' := by
            rintro rfl
            exact hpath (by simp [Operation.path?, hentry])
          obtain ⟨-, hproblem⟩ := Operation.of_entry? hentry
          simp only [hproblem, Traceback.lookup_set_of_ne hne]
          simpa using ⟨hcleared, hkept⟩
      | none =>
          by_cases hclears : operation.problem?.isSome ∧ modeAfter r.fatal operations = false
          · have hlookup : (r.after operations).traceback.clear.lookup path = some .whole := by
              rw [Traceback.lookup_clear]
              by_cases hearlier : ClearsDuring r.fatal operations
              · rw [hcleared hearlier]
                rfl
              · rw [hkept hearlier]
                rfl
            simpa [hclears] using hlookup
          · simpa [hclears] using ⟨hcleared, hkept⟩

/-! ## Guarded blocks -/

/-- The signal with which a step ends, if one cuts it short. -/
def ending {α : Type} : Except Signal α → Option Signal
  | .ok _ => none
  | .error signal => some signal

/-- A guarded block does to the reporter what its body does, and then what the
end of a block does. -/
theorem run_guarded_eq_block {α : Type} (body : Step Reporter α) (r : Reporter) :
    let finish := (Operation.block (ending (body.run r).answer)).step.run (body.run r).state
    ((guarded body).run r).state = finish.state ∧
      ((guarded body).run r).output = (body.run r).output ++ finish.output ∧
      ((guarded body).run r).answer.map (fun _ => ()) = finish.answer := by
  rcases hrun : body.run r with ⟨r', d, x⟩
  cases x with
  | ok a =>
      rw [run_guarded_ok hrun]
      exact ⟨rfl, (List.append_nil d).symm, rfl⟩
  | error signal =>
      have hraise : (raise signal : Step Reporter Unit).run r' = ⟨r', [], .error signal⟩ := rfl
      have hblock := run_guarded_error hraise
      rw [run_guarded_error hrun, ending, Operation.step, run_bind, hblock]
      cases ((settle signal).run r').answer <;> simp [Outcome.andThen, Except.map]

/-! ## What a reporter reports -/

/-- What a reporter does after operations on a new one. -/
structure Accounts (fatal : Bool) (operations : List Operation) (r : Reporter) : Prop where
  /-- It is fatal if it was made so last. -/
  mode : r.fatal = modeAfter fatal operations
  /-- Its traceback has the paths that were mentioned, in the order in which they
  were mentioned first. -/
  paths : r.traceback.map Prod.fst = (operations.filterMap Operation.path?).eraseDups
  /-- A path has the place that was written last, unless an error has been reported
  since by a reporter that was not fatal. -/
  place : ∀ before operation later path place, operations = before ++ operation :: later →
    operation.entry? = some (path, place) → (∀ o ∈ later, o.path? ≠ some path) →
    (ClearsDuring (modeAfter fatal before) later → r.traceback.lookup path = some .whole) ∧
      (¬ ClearsDuring (modeAfter fatal before) later → r.traceback.lookup path = some place)
  /-- The report of an error is headed by the lines that are being worked on. -/
  report : ∀ (operation : Operation) (p : Problem), operation.problem? = some p →
    (operation.step.run r).output =
      p.announcement (r.traceback.lines.flatMap fun line =>
        Session.lineHeading line.1 line.2.1 line.2.2)
  /-- An error that is thrown ends the program and leaves the traceback, or it
  clears the traceback. -/
  throw : ∀ p : Problem,
    ((Operation.throw p).step.run r).state =
        (if r.fatal then r else ⟨false, r.traceback.clear⟩) ∧
      ((Operation.throw p).step.run r).answer = if r.fatal then .error (.exit 1) else .ok ()
  /-- A warning is headed by the first of the lines. -/
  caution : ∀ (notice : Notice) (p : Problem), notice.problem .general = .ok p →
    (Operation.warn notice).step.run r =
      ⟨r, p.caution (match r.traceback.lines.head? with
        | some line => Doc.styled .bold (line.1 ++ ":" ++ Text.ofInt line.2.2 ++ ": ")
        | none => []), .ok ()⟩
  /-- It changes nothing, even if it is not well-formed. -/
  unchanged : ∀ notice : Notice, ((Operation.warn notice).step.run r).state = r
  /-- A block is guarded. -/
  guards : ∀ {α : Type} (body : Step Reporter α), Guards body r
  /-- It does what its body does, and then what the end of a block does. -/
  block : ∀ {α : Type} (body : Step Reporter α),
    let finish := (Operation.block (ending (body.run r).answer)).step.run (body.run r).state
    ((guarded body).run r).state = finish.state ∧
      ((guarded body).run r).output = (body.run r).output ++ finish.output ∧
      ((guarded body).run r).answer.map (fun _ => ()) = finish.answer

/-- Whatever has been done with a reporter tells what it will say and what it
will do to a block. -/
theorem operations_reported (fatal : Bool) (operations : List Operation) :
    Accounts fatal operations ((new fatal).after operations) where
  mode := fatal_after (new fatal) operations
  paths := map_fst_after fatal operations
  place := by
    rintro before operation later path place rfl hentry hother
    obtain ⟨hfatal, -⟩ := Operation.of_entry? hentry
    have hlookup : (((new fatal).after before).after [operation]).traceback.lookup path =
        some place := by
      change (operation.step.run ((new fatal).after before)).state.traceback.lookup path = _
      rw [state_step, hentry]
      exact Traceback.lookup_set_self path place _
    have hmode : (((new fatal).after before).after [operation]).fatal = modeAfter fatal before := by
      rw [← after_append, fatal_after, modeAfter_concat, hfatal]
      rfl
    rw [← List.singleton_append, after_append, after_append, ← hmode]
    exact lookup_after hlookup hother
  report operation p hp := by
    rw [(run_step_of_problem hp _).1, Traceback.heading_eq]
  throw p := by
    rw [Operation.step, run_report]
    obtain ⟨mode, traceback⟩ := (new fatal).after operations
    cases mode <;> exact ⟨rfl, rfl⟩
  caution notice p hp := by
    rw [Operation.step, run_warn_ok hp, ← Traceback.origin_eq]
    rfl
  unchanged notice := state_warn notice _
  guards body := Reporting.guards body _
  block body := run_guarded_eq_block body _

/-- The work on one file is interrupted, and the work on another one ends the
program. -/
def interruptedWork : List Operation :=
  [.registerLine ['a'] (some "true") 1, .block (some .interrupt), .setFatal true,
    .registerLine ['b'] (some "false") 2, .block (some .tooDeep)]

theorem operations_reported_interruptedWork :
    ((new false).after interruptedWork).fatal = true ∧
      ((new false).after interruptedWork).traceback.lookup ['a'] = some .whole ∧
      ((new false).after interruptedWork).traceback.lookup ['b'] =
        some (.line (some "false") 2) ∧
      ∀ p : Problem, ((Operation.throw p).step.run ((new false).after interruptedWork)).output =
        p.announcement (Session.lineHeading ['b'] "false" 2) := by
  have h := operations_reported false interruptedWork
  have hcleared : ClearsDuring false (interruptedWork.drop 1) := ⟨[], _, _, rfl, rfl, rfl⟩
  have hkept : ¬ ClearsDuring true [.block (some .tooDeep)] := by
    rintro ⟨earlier, report, rest, hlast, -, hmode⟩
    cases earlier with
    | nil => contradiction
    | cons first earlier => simp at hlast
  have ha := (h.place [] _ (interruptedWork.drop 1) ['a'] _ rfl rfl (by decide)).1 hcleared
  have hb := (h.place (interruptedWork.take 3) _ [.block (some .tooDeep)] ['b'] _ rfl rfl
    (by decide)).2 hkept
  refine ⟨h.mode, ha, hb, fun p => ?_⟩
  rw [h.report (.throw p) p rfl]
  rfl

end Reporter

end Conditional

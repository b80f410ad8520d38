import Conditional.Proofs.Canonical
import Conditional.Proofs.Reports
import Conditional.Proofs.Valuation
import Mathlib.Data.List.Forall2

/-!
# Conditional.Proofs.Statements

What a session does with statements, one lemma for each of its steps.  A
session is at rest when its traceback names its own file and no line
(`Session.AtRest`); adding, running and printing what can be parsed lead from
rest to rest, and only the queue and the results are changed.

* `run_addAll_ok`, `run_addAll_error` — statements with ascending numbers
  are queued in their order, up to the first one that cannot be parsed; with
  that one the session stops, and its traceback points to it;
* `exists_run_run` — running a session, at rest or not, moves everything
  from the queue to the results;
* `run_finish` — queued native terms are run and their results printed,
  one after another in the order of the queue, and then nothing is left.
-/

namespace Conditional

/-! ## Queues -/

namespace Queue

/-- A number beyond those in the queue is put at its end. -/
theorem insert_of_lt {number : Int} {q : Queue} (h : ∀ entry ∈ q, entry.1 < number) (t : Term) :
    q.insert number t = q ++ [(number, t)] := by
  induction q with
  | nil => rfl
  | cons entry q ih =>
      obtain ⟨n, u⟩ := entry
      have hlt : n < number := h (n, u) List.mem_cons_self
      have hrest := ih fun entry hentry => h entry (List.mem_cons_of_mem _ hentry)
      rw [insert, if_neg (by omega), if_neg (by omega), hrest]
      rfl

/-- Erasing the numbers of all entries leaves nothing. -/
theorem foldl_erase_self (q : Queue) : q.foldl (fun q' entry => q'.erase entry.1) q = [] := by
  have hfilter (entries q' : Queue) :
      entries.foldl (fun q' entry => q'.erase entry.1) q' =
        q'.filter fun entry => entry.1 ∉ entries.map Prod.fst := by
    induction entries generalizing q' with
    | nil => simp
    | cons entry entries ih =>
        rw [List.foldl_cons, ih, erase, List.filter_filter]
        refine List.filter_congr fun entry' _ => ?_
        rw [List.map_cons, Bool.and_comm, Bool.eq_iff_iff]
        simp only [List.mem_cons, not_or, Bool.and_eq_true, decide_eq_true_eq]
  rw [hfilter, List.filter_eq_nil_iff]
  intro entry hentry
  simpa using ⟨entry.2, hentry⟩

end Queue

/-! ## Tracebacks -/

namespace Traceback

theorem set_set (path : Text) (place place' : Place) (t : Traceback) :
    set path place (set path place' t) = set path place t := by
  induction t with
  | nil => simp [set]
  | cons entry t ih =>
      obtain ⟨p, q⟩ := entry
      by_cases hp : p = path
      · simp [set, hp]
      · simp [set, hp, ih]

end Traceback

theorem Reporter.setPlace_setPlace (path : Text) (place place' : Place) (r : Reporter) :
    (r.setPlace path place').setPlace path place = r.setPlace path place := by
  rw [setPlace, setPlace, setPlace, Traceback.set_set]

/-- The statement denotes a term. -/
abbrev LogicalLine.Parses (statement : LogicalLine) : Prop := ∃ t, parse statement.text = .ok t

namespace Session

open Step Reporting

/-- No line of the session is being worked on, and its file is the only one
that its reporter has heard of. -/
def AtRest (s : Session) : Prop := s.reporter.traceback = [(s.path, .whole)]

theorem AtRest.setPlace_whole {s : Session} (h : s.AtRest) :
    s.reporter.setPlace s.path .whole = s.reporter := by
  have htraceback : s.reporter.traceback.set s.path .whole = s.reporter.traceback := by
    rw [h]
    simp [Traceback.set]
  rw [Reporter.setPlace, htraceback]

/-! ## Adding statements -/

/-- The session while it is at work on a line. -/
def atLine (s : Session) (text : Text) (number : Int) : Session :=
  { s with reporter := s.reporter.setPlace s.path (.line (some text) number) }

/-- The heading of a report about a line of a file: the file, the number of the
line, and its text. -/
def lineHeading (path text : Text) (number : Int) : Text :=
  "  File '" ++ path ++ "', line " ++ Text.ofInt number ++ ":\n" ++ "    " ++ text ++ ['\n']

/-- Only the line is in the heading of a report from a session that was at
rest. -/
theorem AtRest.headingOf_atLine {s : Session} (h : s.AtRest) (text : Text) (number : Int) :
    headingOf (s.atLine text number) = lineHeading s.path text number := by
  have htraceback : (s.atLine text number).reporter.traceback =
      [(s.path, .line (some text) number)] := by
    rw [atLine, Reporter.setPlace, h]
    simp [Traceback.set]
  change Traceback.heading (s.atLine text number).reporter.traceback = _
  rw [htraceback]
  exact List.append_nil _

/-- The session when its work on a line is done. -/
def settled (s : Session) : Session := { s with reporter := s.reporter.setPlace s.path .whole }

theorem AtRest.settled_eq {s : Session} (h : s.AtRest) : s.settled = s := by
  rw [settled, h.setPlace_whole]

/-- A statement that can be parsed is put under its number. -/
theorem run_add_parsed {source : Text} {t : Term} (h : parse source = .ok t) (s : Session)
    (number : Int) :
    (add source number).run s =
      ⟨{ s.settled with queue := s.queue.insert number t }, [], .ok ()⟩ := by
  have hline : (registerLine s.path (some source) number : Step Session Unit).run s =
      ⟨s.atLine source number, [], .ok ()⟩ := rfl
  rw [add, run_bind_silent (run_state s), run_bind_silent hline, h]
  change (⟨{ s with
    reporter := (s.atLine source number).reporter.setPlace s.path .whole
    queue := s.queue.insert number t }, [], .ok ()⟩ : Outcome Session Unit) = _
  rw [atLine, Reporter.setPlace_setPlace]
  rfl

theorem run_add_ok {source : Text} {t : Term} (h : parse source = .ok t) {s : Session}
    (hrest : s.AtRest) (number : Int) :
    (add source number).run s = ⟨{ s with queue := s.queue.insert number t }, [], .ok ()⟩ := by
  rw [run_add_parsed h, hrest.settled_eq]

theorem run_add_error {source : Text} {e : SourceError} {p : Problem}
    (h : parse source = .error e) (hp : e.problem source = .ok p) (s : Session) (number : Int) :
    (add source number).run s = ⟨s.atLine source number, [], .error (.problem p)⟩ := by
  have hline : (registerLine s.path (some source) number : Step Session Unit).run s =
      ⟨s.atLine source number, [], .ok ()⟩ := rfl
  rw [add, run_bind_silent (run_state s), run_bind_silent hline, h]
  exact run_bind_error (run_raiseProblem hp _)

/-- The entries are the terms of the statements, under their numbers. -/
abbrev Entries (statements : List LogicalLine) (entries : Queue) : Prop :=
  List.Forall₂ (fun statement entry =>
    entry.1 = statement.number ∧ parse statement.text = .ok entry.2) statements entries

theorem native_of_entries {statements : List LogicalLine} {entries : Queue}
    (h : Entries statements entries) : ∀ entry ∈ entries, entry.2.Native := by
  induction h with
  | nil => simp
  | cons hentry _ ih =>
      rw [List.forall_mem_cons]
      exact ⟨native_of_parse hentry.2, ih⟩

theorem exists_entries {statements : List LogicalLine}
    (h : ∀ statement ∈ statements, statement.Parses) :
    ∃ entries, Entries statements entries := by
  induction statements with
  | nil => exact ⟨[], .nil⟩
  | cons statement statements ih =>
      obtain ⟨t, ht⟩ := h statement List.mem_cons_self
      obtain ⟨entries, hentries⟩ :=
        ih fun statement' hmem => h statement' (List.mem_cons_of_mem _ hmem)
      exact ⟨(statement.number, t) :: entries, .cons ⟨rfl, ht⟩ hentries⟩

/-- Statements that can be parsed are queued in their order, behind what is in
the queue, if their numbers ascend beyond those there. -/
theorem run_addAll_ok {statements : List LogicalLine} {entries : Queue}
    (h : Entries statements entries)
    (hascending : statements.Pairwise fun a b => a.number < b.number) {s : Session}
    (hrest : s.AtRest)
    (hbeyond : ∀ entry ∈ s.queue, ∀ statement ∈ statements, entry.1 < statement.number) :
    (addAll statements).run s = ⟨{ s with queue := s.queue ++ entries }, [], .ok ()⟩ := by
  induction h generalizing s with
  | nil =>
      rw [List.append_nil]
      rfl
  | @cons statement entry statements entries hentry _ ih =>
      obtain ⟨number, t⟩ := entry
      obtain ⟨rfl, ht⟩ := hentry
      rw [List.pairwise_cons] at hascending
      have hend := Queue.insert_of_lt
        (fun entry hmem => hbeyond entry hmem statement List.mem_cons_self) t
      have hadd := run_add_ok ht hrest statement.number
      rw [hend] at hadd
      have hothers := ih hascending.2 (s := { s with queue := s.queue ++ [(statement.number, t)] })
        hrest (by
          intro entry hentry statement' hstatement'
          obtain hentry | hentry := List.mem_append.1 hentry
          · exact hbeyond entry hentry statement' (List.mem_cons_of_mem _ hstatement')
          · rw [List.mem_singleton.1 hentry]
            exact hascending.1 statement' hstatement')
      rw [addAll, run_bind_silent hadd, hothers, List.append_assoc, List.singleton_append]

theorem addAll_append (earlier later : List LogicalLine) :
    addAll (earlier ++ later) = (addAll earlier >>= fun _ => addAll later) := by
  induction earlier with
  | nil => rfl
  | cons statement earlier ih => simp only [List.cons_append, addAll, ih, bind_assoc]

/-- At the first statement that cannot be parsed the session stops, and the
traceback points to that statement. -/
theorem run_addAll_error {earlier : List LogicalLine} {statement : LogicalLine}
    {entries : Queue} {e : SourceError} {p : Problem} (h : Entries earlier entries)
    (herror : parse statement.text = .error e) (hp : e.problem statement.text = .ok p)
    (hascending : earlier.Pairwise fun a b => a.number < b.number) {s : Session}
    (hrest : s.AtRest) (hempty : s.queue = []) (later : List LogicalLine) :
    (addAll (earlier ++ statement :: later)).run s =
      ⟨atLine { s with queue := entries } statement.text statement.number, [],
        .error (.problem p)⟩ := by
  have hearlier := run_addAll_ok h hascending hrest (by simp [hempty])
  rw [hempty, List.nil_append] at hearlier
  rw [addAll_append, run_bind_silent hearlier, addAll]
  exact run_bind_error (run_add_error herror hp _ _)

/-! ## Running statements -/

/-- The entry can be run, and this is its result. -/
def HasResult (view : View) (entry : Int × Term) (r : Result) : Prop :=
  (∃ text, entry.2.text = .ok text) ∧ result view.trace entry.1 entry.2 = .ok r

/-- The document is what is printed for the result. -/
def Shows (view : View) (r : Result) (d : Doc) : Prop :=
  ∃ shown, render view r = .ok shown ∧ d = Doc.plain shown ++ Doc.plain ['\n']

/-- Native terms have results, and something is printed for each. -/
theorem exists_results (view : View) {entries : Queue} (h : ∀ entry ∈ entries, entry.2.Native) :
    ∃ results docs, List.Forall₂ (HasResult view) entries results ∧
      List.Forall₂ (Shows view) results docs ∧
      List.Forall₂ (fun entry d => Prints view entry.2 d) entries docs := by
  induction entries with
  | nil => exact ⟨[], [], .nil, .nil, .nil⟩
  | cons entry entries ih =>
      obtain ⟨results, docs, hruns, hshows, hprints⟩ :=
        ih fun entry' hmem => h entry' (List.mem_cons_of_mem _ hmem)
      have hnative := h entry List.mem_cons_self
      obtain ⟨r, shown, hr, hvalue, hshown⟩ := hnative.exists_result view entry.1
      refine ⟨r :: results, _ :: docs, .cons ⟨hnative.exists_text, hr⟩ hruns,
        .cons ⟨shown, hshown, rfl⟩ hshows,
        .cons ⟨entry.1, r, shown, hr, hvalue, hshown, rfl⟩ hprints⟩

/-- Running a statement adds its result; an interactive session takes the
statement out of the queue. -/
theorem run_runStatement {t : Term} {r : Result} {number : Int} {s : Session}
    (h : HasResult s.view (number, t) r) :
    (runStatement number t).run s =
      ⟨{ s.settled with
          results := s.results ++ [r]
          queue := if s.interactive then s.queue.erase number else s.queue }, [], .ok ()⟩ := by
  obtain ⟨⟨text, ht⟩, hr⟩ := h
  have hline : (registerLine s.path (some text) number : Step Session Unit).run s =
      ⟨s.atLine text number, [], .ok ()⟩ := rfl
  have hadd : (check (result s.view.trace number t) >>= fun r =>
      update fun s : Session => { s with results := s.results ++ [r] }).run (s.atLine text number) =
      ⟨{ s.atLine text number with results := s.results ++ [r] }, [], .ok ()⟩ := by
    rw [run_bind_silent (run_check_ok hr _)]
    rfl
  rw [runStatement, run_bind_silent (run_state s), run_bind_silent (run_check_ok ht s),
    run_bind_silent hline]
  dsimp only
  rw [run_bind_silent (run_settling hadd _)]
  change (⟨withReporter (Reporter.setPlace s.path .whole) _, [], .ok ()⟩ :
    Outcome Session Unit) = _
  cases hinteractive : s.interactive <;>
    simp [hinteractive, atLine, settled, withReporter, Reporter.setPlace_setPlace]

/-- Running statements adds their results in the same order.  Beside them and
the queue, only the place in the session's own file can have changed. -/
theorem exists_run_runAll {entries : Queue} {results : List Result} {s : Session}
    (h : List.Forall₂ (HasResult s.view) entries results) :
    ∃ reporter, (s.settled = s → reporter = s.reporter) ∧
      (runAll entries).run s =
        ⟨{ s with
            reporter := reporter
            results := s.results ++ results
            queue := if s.interactive then entries.foldl (fun q entry => q.erase entry.1) s.queue
              else s.queue }, [], .ok ()⟩ := by
  generalize hview : s.view = view at h
  induction h generalizing s with
  | nil =>
      subst hview
      refine ⟨s.reporter, fun _ => rfl, ?_⟩
      cases hinteractive : s.interactive <;> simp [runAll, ← hinteractive]
  | @cons entry r entries results hentry _ ih =>
      obtain ⟨number, t⟩ := entry
      rw [← hview] at hentry
      obtain ⟨reporter, hsame, hothers⟩ := ih (s := { s.settled with
        results := s.results ++ [r]
        queue := if s.interactive then s.queue.erase number else s.queue }) hview
      refine ⟨reporter, fun hsettled => ?_, ?_⟩
      · have hreporter : s.settled.reporter = s.reporter := congrArg Session.reporter hsettled
        refine (hsame ?_).trans hreporter
        simp only [settled, Reporter.setPlace_setPlace]
      · rw [runAll, run_bind_silent (run_runStatement hentry), hothers]
        cases hinteractive : s.interactive <;> simp [settled, hinteractive]

/-- Running a session moves everything from the queue to the results. -/
theorem exists_run_run {results : List Result} {s : Session}
    (h : List.Forall₂ (HasResult s.view) s.queue results) :
    ∃ reporter, (s.settled = s → reporter = s.reporter) ∧
      run.run s =
        ⟨{ s with reporter := reporter, results := s.results ++ results, queue := [] }, [],
          .ok ()⟩ := by
  obtain ⟨reporter, hsame, hall⟩ := exists_run_runAll h
  refine ⟨reporter, hsame, ?_⟩
  rw [run, run_bind_silent (run_state s), run_bind_silent hall, run_update,
    Queue.foldl_erase_self]
  cases hinteractive : s.interactive <;> rfl

/-! ## Printing results -/

/-- The document is what a session prints for a source text: the value of the
term that the text denotes. -/
def Answers (view : View) (source : Text) (d : Doc) : Prop :=
  ∃ t, parse source = .ok t ∧ Prints view t d

theorem Answers.unique {view : View} {source : Text} {d d' : Doc} (h : Answers view source d)
    (h' : Answers view source d') : d = d' := by
  obtain ⟨t, ht, hd⟩ := h
  obtain ⟨t', ht', hd'⟩ := h'
  obtain rfl : t = t' := Except.ok.inj (ht.symm.trans ht')
  exact hd.unique hd'

/-- Sources with the same tokens have the same answer. -/
theorem Answers.of_spells {view : View} {source source' : Text} {ts : List Token} {d : Doc}
    (h : Answers view source d) (hsource : Spells source ts) (hsource' : Spells source' ts) :
    Answers view source' d := by
  obtain ⟨t, ht, hd⟩ := h
  exact ⟨t, parse_of_spells ht hsource hsource', hd⟩

/-- What is printed for entries answers their statements. -/
theorem answers_of_entries {view : View} {statements : List LogicalLine} {entries : Queue}
    {docs : List Doc} (h : Entries statements entries)
    (hprints : List.Forall₂ (fun entry d => Prints view entry.2 d) entries docs) :
    List.Forall₂ (fun statement d => Answers view statement.text d) statements docs := by
  induction h generalizing docs with
  | nil =>
      cases hprints
      exact .nil
  | cons hentry _ ih =>
      cases hprints with
      | cons hd hdocs => exact .cons ⟨_, hentry.2, hd⟩ (ih hdocs)

/-- The oldest result is taken out. -/
theorem run_pop_cons {r : Result} {rest : List Result} {shown : Text} {s : Session}
    (hresults : s.results = r :: rest) (hshown : render s.view r = .ok shown) :
    pop.run s = ⟨{ s with results := rest }, [], .ok shown⟩ := by
  rw [pop, run_bind_silent (run_state s), hresults]
  rw [run_bind_silent (run_update _ s), run_bind_silent (run_state _)]
  exact run_check_ok hshown _

/-- Printing results takes them out in their order. -/
theorem run_printResults {results more : List Result} {docs : List Doc} {s : Session}
    (h : List.Forall₂ (Shows s.view) results docs) (hresults : s.results = results ++ more) :
    (printResults results.length).run s =
      ⟨{ s with results := more }, docs.flatten, .ok ()⟩ := by
  generalize hview : s.view = view at h
  induction h generalizing s with
  | nil =>
      subst hview
      rw [List.nil_append] at hresults
      rw [← hresults]
      rfl
  | @cons r d results docs hd _ ih =>
      obtain ⟨shown, hshown, rfl⟩ := hd
      rw [← hview] at hshown
      rw [List.cons_append] at hresults
      have hpop := run_pop_cons hresults hshown
      have hothers := ih (s := { s with results := results ++ more }) rfl hview
      rw [List.length_cons, printResults, run_bind_silent hpop,
        run_bind_ok (run_printLine _ _), hothers]
      rfl

/-- Running the statements of a session and printing their results leaves
nothing to be done. -/
theorem run_finish {s : Session} (hrest : s.AtRest) (hresults : s.results = [])
    (hnative : ∀ entry ∈ s.queue, entry.2.Native) :
    ∃ docs, List.Forall₂ (fun entry d => Prints s.view entry.2 d) s.queue docs ∧
      (do run; drain : Step Session Unit).run s =
        ⟨{ s with queue := [] }, docs.flatten, .ok ()⟩ := by
  obtain ⟨results, docs, hruns, hshows, hprints⟩ := exists_results s.view hnative
  obtain ⟨reporter, hsame, hrun⟩ := exists_run_run hruns
  rw [hsame hrest.settled_eq, hresults, List.nil_append] at hrun
  have hdrain := run_printResults (s := { s with results := results, queue := [] }) hshows
    (List.append_nil _).symm
  refine ⟨docs, hprints, ?_⟩
  rw [run_bind_silent hrun, drain, run_bind_silent (run_state _), hdrain, ← hresults]

end Session

end Conditional

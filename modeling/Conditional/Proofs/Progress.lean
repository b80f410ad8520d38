import Conditional.Proofs.Recording
import Conditional.Proofs.Tracebacks

/-!
# Conditional.Proofs.Progress

How far a run gets.  A session runs its statements in the order of their
numbers, whatever the order in which they were put into the queue
(`Queue.ofEntries_perm`, `Queue.ascending_ofEntries`), and stops at the first
one that cannot be rendered or cannot be evaluated.

A run that has got through some statements has added their results, and it has
left a state that does not depend on what comes next (`Session.progressed`,
`Session.run_runAll_append`).  What the run comes to is then a matter of the
statement that it has reached (`Session.Runs`), if there is one; the two kinds of
failure leave different traces, since a statement is taken out of the queue of an
interactive session only after it was rendered.
-/

namespace Conditional

/-! ## The order of the queue -/

namespace Queue

/-- The numbers ascend. -/
abbrev Ascending (q : Queue) : Prop := q.Pairwise fun entry entry' => entry.1 < entry'.1

/-- The queue into which entries were put, one after another. -/
def ofEntries (entries : List (Int × Term)) : Queue :=
  entries.foldl (fun q entry => q.insert entry.1 entry.2) []

/-- A number that is not in the queue is added to it. -/
theorem insert_perm {number : Int} {q : Queue} (h : number ∉ q.map Prod.fst) (t : Term) :
    (q.insert number t).Perm ((number, t) :: q) := by
  induction q with
  | nil => exact .refl _
  | cons entry q ih =>
      obtain ⟨n, u⟩ := entry
      rw [List.map_cons, List.mem_cons, not_or] at h
      obtain ⟨hne, hrest⟩ := h
      rw [insert, if_neg hne]
      split_ifs
      · exact .refl _
      · exact ((ih hrest).cons (n, u)).trans (.swap (number, t) (n, u) q)

/-- It is added at the place where it belongs. -/
theorem Ascending.insert {number : Int} {q : Queue} (hq : Ascending q)
    (h : number ∉ q.map Prod.fst) (t : Term) : Ascending (q.insert number t) := by
  induction hq with
  | nil => exact List.pairwise_singleton _ _
  | @cons entry q hentry hq ih =>
      obtain ⟨n, u⟩ := entry
      rw [List.map_cons, List.mem_cons, not_or] at h
      obtain ⟨hne, hrest⟩ := h
      rw [Queue.insert, if_neg hne]
      split_ifs with hlt
      · refine .cons (List.forall_mem_cons.2 ⟨hlt, fun entry' hmem => ?_⟩) (.cons hentry hq)
        exact Int.lt_trans hlt (hentry entry' hmem)
      · refine .cons (fun entry' hmem => ?_) (ih hrest)
        obtain rfl | hmem := List.mem_cons.1 ((insert_perm hrest t).subset hmem)
        · exact Int.lt_iff_le_and_ne.2 ⟨Int.not_lt.1 hlt, Ne.symm hne⟩
        · exact hentry entry' hmem

section

variable {entries : List (Int × Term)}

/-- Entries with different numbers stand in the queue in ascending order, and
nothing else does. -/
theorem foldl_insert (h : (entries.map Prod.fst).Nodup) {q : Queue} (hq : Ascending q)
    (hdisjoint : ∀ entry ∈ entries, entry.1 ∉ q.map Prod.fst) :
    let filled := entries.foldl (fun q entry => q.insert entry.1 entry.2) q
    filled.Perm (entries ++ q) ∧ Ascending filled := by
  induction entries generalizing q with
  | nil => exact ⟨.refl _, hq⟩
  | cons entry entries ih =>
      rw [List.map_cons, List.nodup_cons] at h
      obtain ⟨hentry, hothers⟩ := h
      obtain ⟨hnew, hdisjoint⟩ := List.forall_mem_cons.1 hdisjoint
      have hinsert := insert_perm hnew entry.2
      obtain ⟨hperm, hascending⟩ := ih hothers (hq.insert hnew entry.2) (by
        intro entry' hmem hcontra
        rw [(hinsert.map Prod.fst).mem_iff, List.map_cons, List.mem_cons] at hcontra
        obtain heq | hcontra := hcontra
        · exact hentry (heq ▸ List.mem_map_of_mem hmem)
        · exact hdisjoint entry' hmem hcontra)
      exact ⟨hperm.trans ((hinsert.append_left entries).trans List.perm_middle), hascending⟩

theorem ofEntries_perm (h : (entries.map Prod.fst).Nodup) : (ofEntries entries).Perm entries := by
  have hperm := (foldl_insert h (q := []) .nil (by simp)).1
  rwa [List.append_nil] at hperm

theorem ascending_ofEntries (h : (entries.map Prod.fst).Nodup) : Ascending (ofEntries entries) :=
  (foldl_insert h (q := []) .nil (by simp)).2

end

/-- Taking out the first number leaves the others. -/
theorem erase_head {number : Int} {t : Term} {q : Queue} (h : Ascending ((number, t) :: q)) :
    Queue.erase number ((number, t) :: q) = q := by
  rw [erase, List.filter_cons_of_neg (by simp), List.filter_eq_self]
  intro entry hentry
  have hlt : number < entry.1 := (List.pairwise_cons.1 h).1 entry hentry
  exact decide_eq_true (Int.ne_of_gt hlt)

end Queue

namespace Session

open Step Reporting

/-! ## Single statements -/

/-- The statement can be rendered, and this is the result of its evaluation. -/
structure Completed (view : View) (statement : Int × Term) (r : Result) : Prop where
  rendered : ∃ text, statement.2.text = .ok text
  number : r.number = statement.1
  term : r.term = statement.2
  value : Evaluates statement.2 r.value
  judgments : if view.trace then Records 0 statement.2 r.value r.judgments else r.judgments = []

/-- The statement has no result because of the fault.  Its text is given if it
could be rendered. -/
inductive Defective (t : Term) : Option Text → Fault → Prop where
  | unrenderable {f : Fault} : t.text = .error f → Defective t none f
  | unevaluable {text : Text} {f : Fault} :
      t.text = .ok text → t.evaluate = .error f → Defective t (some text) f

section

variable {view : View} {statement : Int × Term} {r : Result} {number : Int} {t : Term} {s : Session}
  {f : Fault}

theorem result_of_evaluate_error (h : t.evaluate = .error f) (trace : Bool) (number : Int) :
    result trace number t = .error f := by
  cases trace with
  | false => rw [result, if_neg Bool.false_ne_true, h]; rfl
  | true =>
      have hanswer := t.answer_recordAt 0 []
      rw [h] at hanswer
      rw [result, if_pos rfl, Term.record]
      cases hrecord : t.recordAt 0 [] with
      | ok value judgments =>
          rw [hrecord] at hanswer
          contradiction
      | error f' judgments =>
          rw [hrecord] at hanswer
          exact congrArg Except.error (Except.error.inj hanswer)

/-- Every statement has a result or is defective. -/
theorem completed_or_defective (view : View) (number : Int) (t : Term) :
    (∃ r, HasResult view (number, t) r ∧ Completed view (number, t) r) ∨
      ∃ rendered f, Defective t rendered f := by
  cases htext : t.text with
  | error f => exact .inr ⟨none, f, .unrenderable htext⟩
  | ok text =>
      cases hvalue : t.evaluate with
      | error f => exact .inr ⟨some text, f, .unevaluable htext hvalue⟩
      | ok v =>
          have hevaluates := evaluates_of_evaluate hvalue
          obtain ⟨judgments, hrecords⟩ := hevaluates.exists_records 0
          refine .inl ⟨⟨number, t, v, if view.trace then judgments else []⟩, ⟨⟨text, htext⟩, ?_⟩,
            ⟨text, htext⟩, rfl, rfl, hevaluates, ?_⟩
          · cases htrace : view.trace with
            | false => rw [result, if_neg Bool.false_ne_true, hvalue]; rfl
            | true => rw [result, if_pos rfl, Term.record, hrecords.recordAt_eq]; rfl
          · cases htrace : view.trace with
            | false => rfl
            | true => exact hrecords

/-- A statement that cannot be rendered changes nothing. -/
theorem run_runStatement_unrenderable (h : t.text = .error f) (s : Session) (number : Int) :
    (runStatement number t).run s = ⟨s, [], .error (.fault f)⟩ := by
  have hcheck : (check t.text : Step Session Text).run s = ⟨s, [], .error (.fault f)⟩ := by
    rw [h]
    rfl
  rw [runStatement, run_bind_silent (run_state s), run_bind_error hcheck]

/-- A statement that is rendered and cannot be evaluated stays in the traceback,
and an interactive session takes it out of the queue. -/
theorem run_runStatement_unevaluable {text : Text} (htext : t.text = .ok text)
    (h : t.evaluate = .error f) (s : Session) (number : Int) :
    (runStatement number t).run s =
      ⟨atLine { s with queue := if s.interactive then s.queue.erase number else s.queue } text
        number, [], .error (.fault f)⟩ := by
  have hline : (registerLine s.path (some text) number : Step Session Unit).run s =
      ⟨s.atLine text number, [], .ok ()⟩ := rfl
  have hcheck : (check (result s.view.trace number t) : Step Session Result).run
      (s.atLine text number) = ⟨s.atLine text number, [], .error (.fault f)⟩ := by
    rw [result_of_evaluate_error h]
    rfl
  rw [runStatement, run_bind_silent (run_state s), run_bind_silent (run_check_ok htext s),
    run_bind_silent hline]
  dsimp only
  rw [run_bind_error (run_settling (run_bind_error hcheck) _)]
  cases hinteractive : s.interactive <;> simp [hinteractive, atLine]

end

/-! ## Runs -/

/-- The session when statements are done with, the results of which are given.
An interactive session has only the remaining ones left in its queue. -/
def progressed (s : Session) (completed : List (Int × Term)) (results : List Result)
    (remaining : Queue) : Session :=
  { s with
    reporter := if completed = [] then s.reporter else s.reporter.setPlace s.path .whole
    results := s.results ++ results
    queue := if s.interactive then remaining else s.queue }

/-- What a run of the statements comes to. -/
inductive Runs (s : Session) (statements : List (Int × Term)) : Outcome Session Unit → Prop where
  /-- All statements have results, and the queue is empty. -/
  | finished {results : List Result} :
      List.Forall₂ (Completed s.view) statements results →
      Runs s statements ⟨{ s.progressed statements results [] with queue := [] }, [], .ok ()⟩
  /-- A statement cannot be rendered.  It is left in the queue. -/
  | unrenderable {earlier later : List (Int × Term)} {number : Int} {t : Term} {f : Fault}
      {results : List Result} :
      statements = earlier ++ (number, t) :: later →
      List.Forall₂ (Completed s.view) earlier results → Defective t none f →
      Runs s statements
        ⟨s.progressed earlier results ((number, t) :: later), [], .error (.fault f)⟩
  /-- A statement cannot be evaluated.  The traceback points to it. -/
  | unevaluable {earlier later : List (Int × Term)} {number : Int} {t : Term} {text : Text}
      {f : Fault} {results : List Result} :
      statements = earlier ++ (number, t) :: later →
      List.Forall₂ (Completed s.view) earlier results → Defective t (some text) f →
      Runs s statements
        ⟨atLine (s.progressed earlier results later) text number, [], .error (.fault f)⟩

section

variable {s : Session} {earlier later statements : List (Int × Term)} {results : List Result}

theorem progressed_nil (h : s.interactive → s.queue = later) : s.progressed [] [] later = s := by
  have hkept : (if s.interactive then later else s.queue) = s.queue := by
    split_ifs with hinteractive
    · exact (h hinteractive).symm
    · rfl
  rw [progressed, hkept, if_pos rfl, List.append_nil]

/-- Statements that have results are got through. -/
theorem run_runAll_append (h : List.Forall₂ (HasResult s.view) earlier results)
    (hqueue : s.interactive → s.queue = earlier ++ later)
    (hascending : Queue.Ascending (earlier ++ later)) :
    (runAll (earlier ++ later)).run s =
      (runAll later).run (s.progressed earlier results later) := by
  generalize hview : s.view = view at h
  induction h generalizing s with
  | nil => rw [List.nil_append, progressed_nil (by simpa using hqueue)]
  | @cons statement r earlier results hstatement _ ih =>
      obtain ⟨number, t⟩ := statement
      rw [← hview] at hstatement
      rw [List.cons_append] at hascending hqueue ⊢
      rw [runAll, run_bind_silent (run_runStatement hstatement), ih]
      -- the traceback is written anew by each statement, so only the last entry counts
      · cases hinteractive : s.interactive <;>
          simp [progressed, settled, hinteractive, Reporter.setPlace_setPlace]
      -- an interactive session loses the head of its queue, and no other entry has that number
      · intro hinteractive
        change (if s.interactive then s.queue.erase number else s.queue) = earlier ++ later
        have hinteractive : s.interactive = true := hinteractive
        rw [if_pos hinteractive, hqueue hinteractive, Queue.erase_head hascending]
      · exact (List.pairwise_cons.1 hascending).2
      · exact hview

/-- Among statements that do not all have results there is a first one that has
none. -/
theorem exists_first_defective (view : View) (statements : List (Int × Term)) :
    (∃ results, List.Forall₂ (HasResult view) statements results ∧
      List.Forall₂ (Completed view) statements results) ∨
    ∃ earlier number t later results rendered f, statements = earlier ++ (number, t) :: later ∧
      List.Forall₂ (HasResult view) earlier results ∧
      List.Forall₂ (Completed view) earlier results ∧ Defective t rendered f := by
  induction statements with
  | nil => exact .inl ⟨[], .nil, .nil⟩
  | cons statement statements ih =>
      obtain ⟨number, t⟩ := statement
      obtain ⟨r, hr, hcompleted⟩ | ⟨rendered, f, hdefective⟩ :=
        completed_or_defective view number t
      · obtain ⟨results, hresults, hall⟩ |
          ⟨earlier, number', t', later, results, rendered, f, rfl, hresults, hall, hdefective⟩ := ih
        · exact .inl ⟨r :: results, .cons hr hresults, .cons hcompleted hall⟩
        · exact .inr ⟨(number, t) :: earlier, number', t', later, r :: results, rendered, f, rfl,
            .cons hr hresults, .cons hcompleted hall, hdefective⟩
      · exact .inr ⟨[], number, t, statements, [], rendered, f, rfl, .nil, .nil, hdefective⟩

/-- A session whose numbers ascend gets as far as the first statement without a
result. -/
theorem runs_queue (hascending : Queue.Ascending s.queue) : Runs s s.queue (run.run s) := by
  obtain ⟨results, hresults, hcompleted⟩ |
    ⟨earlier, number, t, later, results, rendered, f, hsplit, hresults, hcompleted, hdefective⟩ :=
    exists_first_defective s.view s.queue
  · have hqueue : s.queue = s.queue ++ [] := (List.append_nil _).symm
    have hall := run_runAll_append hresults (fun _ => hqueue) (by rwa [List.append_nil])
    rw [List.append_nil] at hall
    have hrun : run.run s =
        ⟨{ s.progressed s.queue results [] with queue := [] }, [], .ok ()⟩ := by
      rw [run, run_bind_silent (run_state s), run_bind_silent hall, run_update]
      cases hinteractive : s.interactive <;> simp [progressed, hinteractive]
    rw [hrun]
    exact .finished hcompleted
  · rw [hsplit] at hascending
    have hall := run_runAll_append hresults (fun _ => hsplit) hascending
    have hrest : Queue.Ascending ((number, t) :: later) := (List.pairwise_append.1 hascending).2.1
    cases hdefective with
    | unrenderable htext =>
        have hstatement := run_runStatement_unrenderable htext
          (s.progressed earlier results ((number, t) :: later)) number
        have hrun : run.run s =
            ⟨s.progressed earlier results ((number, t) :: later), [], .error (.fault f)⟩ := by
          rw [run, run_bind_silent (run_state s), hsplit]
          refine run_bind_error ?_
          rw [hall, runAll, run_bind_error hstatement]
        rw [hrun]
        exact .unrenderable hsplit hcompleted (.unrenderable htext)
    | @unevaluable text _ htext hvalue =>
        have hstatement := run_runStatement_unevaluable htext hvalue
          (s.progressed earlier results ((number, t) :: later)) number
        have hrun : run.run s =
            ⟨atLine (s.progressed earlier results later) text number, [], .error (.fault f)⟩ := by
          rw [run, run_bind_silent (run_state s), hsplit]
          refine run_bind_error ?_
          rw [hall, runAll, run_bind_error hstatement]
          cases hinteractive : s.interactive <;>
            simp [progressed, hinteractive, Queue.erase_head hrest]
        rw [hrun]
        exact .unevaluable hsplit hcompleted (.unevaluable htext hvalue)

end

/-- **A run gets as far as it can.**  The statements in the queue are run in the
order of their numbers, whatever the order in which they were put there, up to
the first that has no result; and that they were run, and how far, is all that
has changed. -/
theorem run_progresses {s : Session} {entries : List (Int × Term)}
    (hdistinct : (entries.map Prod.fst).Nodup) (hqueue : s.queue = Queue.ofEntries entries) :
    s.queue.Perm entries ∧ Queue.Ascending s.queue ∧ Runs s s.queue (run.run s) ∧
      ∀ place,
        (s.reporter.setPlace s.path place).traceback.lookup s.path = some place ∧
        ∀ path ≠ s.path, (s.reporter.setPlace s.path place).traceback.lookup path =
          s.reporter.traceback.lookup path := by
  have hascending : Queue.Ascending s.queue := hqueue ▸ Queue.ascending_ofEntries hdistinct
  refine ⟨hqueue ▸ Queue.ofEntries_perm hdistinct, hascending, runs_queue hascending,
    fun place => ⟨?_, fun path hne => ?_⟩⟩
  · exact Traceback.lookup_set_self s.path place s.reporter.traceback
  · exact Traceback.lookup_set_of_ne hne place s.reporter.traceback

/-- Statements that were not put into the queue in the order of their numbers.
One has a text and no value. -/
def shuffled : List (Int × Term) :=
  [(30, .lit false), (10, .ite (.lit true) (.lit false) (.lit true)),
    (20, .foreign (.extension "Unit" "unit"))]

/-- A session in which they wait. -/
def shuffledSession : Session :=
  { start (Reporter.new false) inputPath true ⟨false, false⟩ with
    queue := Queue.ofEntries shuffled }

theorem run_progresses_shuffled :
    (shuffled.map Prod.fst).Nodup ∧ shuffledSession.queue.map Prod.fst = [10, 20, 30] ∧
      Runs shuffledSession shuffledSession.queue (run.run shuffledSession) ∧
      run.run shuffledSession =
        ⟨{ shuffledSession with
          reporter := ⟨false, [(inputPath, .line (some "unit") 20)]⟩
          results := [⟨10, .ite (.lit true) (.lit false) (.lit true), false, []⟩]
          queue := [(30, .lit false)] }, [], .error (.fault (.notEvaluable "Unit"))⟩ := by
  have hdistinct : (shuffled.map Prod.fst).Nodup := by decide
  obtain ⟨-, -, hruns, -⟩ := run_progresses (s := shuffledSession) hdistinct rfl
  exact ⟨hdistinct, rfl, hruns, rfl⟩

end Session

end Conditional

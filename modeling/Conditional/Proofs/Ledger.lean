import Conditional.Proofs.FileRun

/-!
# Conditional.Proofs.Ledger

A session neither loses nor repeats nor reorders statements, whatever is done
with it and in whatever order (`Session.ledger_accounts`).

What is done with a session is a list of operations (`Session.Operation`), and
from such a list alone one can tell which statements were added and which run
is due to run each of them (`Session.added`).  A `Ledger` says where these
statements are: under their numbers in the queue, replaced, among the results,
or popped.  It is in order (`Ledger.Accounts`) if each statement is entered
once, and if what is entered as pending and as waiting is what the session
really holds.

The steps of a session are looked at once, in `Operation.responds`; after
that, there is one lemma for each way in which an entry moves
(`Ledger.Accounts.enter`, `Ledger.Accounts.settle`, `Ledger.Accounts.pay`),
and the induction over the operations is a case distinction.
-/

namespace Conditional

namespace Session

open Step Reporting

/-! ## Operations -/

/-- What can be done with a session. -/
inductive Operation where
  | add (source : Text) (number : Int)
  | run
  | pop
  | display (view : View)
deriving DecidableEq

namespace Operation

/-- The step that carries out an operation.  It answers with the text of a
result that was popped. -/
def step : Operation → Step Session (Option Text)
  | add source number => do
    Session.add source number
    return none
  | run => do
    Session.run
    return none
  | pop => do return some (← Session.pop)
  | display view => do
    update fun s => { s with view := view }
    return none

end Operation

/-- The session after operations, whether they have succeeded or not. -/
def after (s : Session) (operations : List Operation) : Session :=
  operations.foldl (fun s operation => (operation.step.run s).state) s

@[simp] theorem after_nil (s : Session) : s.after [] = s := rfl

@[simp] theorem after_cons (s : Session) (operation : Operation) (operations : List Operation) :
    s.after (operation :: operations) = (operation.step.run s).state.after operations := rfl

/-- What an operation has popped, with the view in which it was shown. -/
def poppedBy (s : Session) (operation : Operation) : Option (View × Text) :=
  match (operation.step.run s).answer with
  | .ok (some text) => some (s.view, text)
  | _ => none

/-- What operations have popped, in the order of popping. -/
def popped (s : Session) : List Operation → List (View × Text)
  | [] => []
  | operation :: operations =>
    (s.poppedBy operation).toList ++ (operation.step.run s).state.popped operations

@[simp] theorem popped_nil (s : Session) : s.popped [] = [] := rfl

@[simp] theorem popped_cons (s : Session) (operation : Operation) (operations : List Operation) :
    s.popped (operation :: operations) =
      (s.poppedBy operation).toList ++ (operation.step.run s).state.popped operations := rfl

/-- How many of the operations are runs. -/
def runs (operations : List Operation) : Nat := operations.count .run

theorem runs_concat_run (operations : List Operation) :
    runs (operations ++ [.run]) = runs operations + 1 := by
  simp [runs]

theorem runs_concat_of_ne {operation : Operation} (h : operation ≠ .run)
    (operations : List Operation) : runs (operations ++ [operation]) = runs operations := by
  simp [runs, h]

/-! ## What an operation comes to -/

/-- What an operation on a session comes to. -/
inductive Responds (s : Session) : Operation → Outcome Session (Option Text) → Prop where
  | added {source : Text} {number : Int} {t : Term} {reporter : Reporter} :
      parse source = .ok t →
      Responds s (.add source number)
        ⟨{ s with reporter := reporter, queue := s.queue.insert number t }, [], .ok none⟩
  | refused {source : Text} {number : Int} {e : SourceError} {p : Problem} {reporter : Reporter} :
      parse source = .error e → e.problem source = .ok p →
      Responds s (.add source number) ⟨{ s with reporter := reporter }, [], .error (.problem p)⟩
  | ran {results : List Result} {reporter : Reporter} :
      List.Forall₂ (HasResult s.view) s.queue results →
      Responds s .run
        ⟨{ s with reporter := reporter, results := s.results ++ results, queue := [] }, [],
          .ok none⟩
  | popped {r : Result} {rest : List Result} {text : Text} :
      s.results = r :: rest → render s.view r = .ok text →
      Responds s .pop ⟨{ s with results := rest }, [], .ok (some text)⟩
  | empty : s.results = [] → Responds s .pop ⟨s, [], .error (.fault .emptyList)⟩
  | displayed (view : View) :
      Responds s (.display view) ⟨{ s with view := view }, [], .ok none⟩

/-- Everything that the session holds can be run and shown. -/
structure Sound (s : Session) : Prop where
  native : ∀ entry ∈ s.queue, entry.2.Native
  shown : ∀ r ∈ s.results, ∀ view, ∃ text, render view r = .ok text

theorem run_step_add_ok {source : Text} {t : Term} (h : parse source = .ok t) (s : Session)
    (number : Int) :
    (Operation.add source number).step.run s =
      ⟨{ s.settled with queue := s.queue.insert number t }, [], .ok none⟩ := by
  rw [Operation.step, run_bind_silent (run_add_parsed h s number)]
  rfl

theorem run_step_add_error {source : Text} {e : SourceError} {p : Problem}
    (h : parse source = .error e) (hp : e.problem source = .ok p) (s : Session) (number : Int) :
    (Operation.add source number).step.run s =
      ⟨s.atLine source number, [], .error (.problem p)⟩ := by
  rw [Operation.step, run_bind_error (run_add_error h hp s number)]

/-- Every operation on a sound session comes to one of these. -/
theorem Operation.responds {s : Session} (h : s.Sound) (operation : Operation) :
    Responds s operation (operation.step.run s) := by
  cases operation with
  | add source number =>
      cases hparse : parse source with
      | ok t =>
          rw [run_step_add_ok hparse]
          exact .added hparse
      | error e =>
          obtain ⟨p, hp⟩ := e.exists_problem source
          rw [run_step_add_error hparse hp]
          exact .refused hparse hp
  | run =>
      obtain ⟨results, -, hresults, -⟩ := exists_results s.view h.native
      obtain ⟨reporter, -, hrun⟩ := exists_run_run hresults
      rw [step, run_bind_silent hrun]
      exact .ran hresults
  | pop =>
      cases hresults : s.results with
      | nil =>
          have hpop : Session.pop.run s = ⟨s, [], .error (.fault .emptyList)⟩ := by
            rw [Session.pop, run_bind_silent (run_state s), hresults]
            rfl
          rw [step, run_bind_error hpop]
          exact .empty hresults
      | cons r rest =>
          obtain ⟨text, htext⟩ := h.shown r (by simp [hresults]) s.view
          rw [step, run_bind_silent (run_pop_cons hresults htext)]
          exact .popped hresults htext
  | display view => exact .displayed view

/-! ## Statements -/

/-- A statement that was added: the place of its addition among the operations,
the number of runs before it, and what was added. -/
structure Added where
  place : Nat
  round : Nat
  number : Int
  source : Text
  term : Term

/-- The statement that the operation at a place adds, if that is what it does
and if the statement can be parsed. -/
def statementAt (operations : List Operation) (place : Nat) : Option Added :=
  match operations[place]? with
  | some (.add source number) =>
    match parse source with
    | .ok t => some ⟨place, runs (operations.take place), number, source, t⟩
    | .error _ => none
  | _ => none

/-- The statements that operations add, in the order of their addition. -/
def added (operations : List Operation) : List Added :=
  (List.range operations.length).filterMap (statementAt operations)

section

variable {operations : List Operation} {place : Nat} {e : Added}

theorem statementAt_eq_some_iff :
    statementAt operations place = some e ↔
      e.place = place ∧ operations[place]? = some (.add e.source e.number) ∧
        parse e.source = .ok e.term ∧ e.round = runs (operations.take place) := by
  obtain ⟨place', round, number, source, t⟩ := e
  rw [statementAt]
  split
  · next source' number' hoperation =>
      cases hparse : parse source' with
      | ok t' => grind
      | error _ => grind
  · next hother => grind

/-- The statements are those of the additions that can be parsed, and each
knows how many runs there were before it. -/
theorem mem_added_iff :
    e ∈ added operations ↔
      operations[e.place]? = some (.add e.source e.number) ∧ parse e.source = .ok e.term ∧
        e.round = runs (operations.take e.place) := by
  rw [added, List.mem_filterMap]
  constructor
  · rintro ⟨place, -, he⟩
    obtain ⟨rfl, h⟩ := statementAt_eq_some_iff.1 he
    exact h
  · intro h
    obtain ⟨hlt, -⟩ := List.getElem?_eq_some_iff.1 h.1
    exact ⟨e.place, List.mem_range.2 hlt, statementAt_eq_some_iff.2 ⟨rfl, h⟩⟩

theorem place_lt_of_mem_added (h : e ∈ added operations) : e.place < operations.length :=
  (List.getElem?_eq_some_iff.1 (mem_added_iff.1 h).1).1

/-- No statement is added twice. -/
theorem pairwise_added (operations : List Operation) :
    (added operations).Pairwise fun e e' => e.place < e'.place := by
  rw [added, List.pairwise_filterMap]
  refine List.pairwise_lt_range.imp fun {i j} hij e he e' he' => ?_
  rw [(statementAt_eq_some_iff.1 he).1, (statementAt_eq_some_iff.1 he').1]
  exact hij

theorem added_concat (operations : List Operation) (operation : Operation) :
    added (operations ++ [operation]) =
      added operations ++ (statementAt (operations ++ [operation]) operations.length).toList := by
  have hbefore : (List.range operations.length).filterMap
      (statementAt (operations ++ [operation])) = added operations := by
    refine List.filterMap_congr fun place hplace => ?_
    have hlt := List.mem_range.1 hplace
    rw [statementAt, statementAt, List.getElem?_append_left hlt,
      List.take_append_of_le_length (Nat.le_of_lt hlt)]
  rw [added, List.length_append, List.length_singleton, List.range_succ, List.filterMap_append,
    hbefore, List.filterMap_cons]
  cases statementAt (operations ++ [operation]) operations.length <;> rfl

theorem added_concat_ok {source : Text} {number : Int} {t : Term} (h : parse source = .ok t)
    (operations : List Operation) :
    added (operations ++ [.add source number]) =
      added operations ++
        [⟨operations.length, runs operations, number, source, t⟩] := by
  rw [added_concat, statementAt]
  simp [h]

theorem added_concat_error {source : Text} {number : Int} {e : SourceError}
    (h : parse source = .error e) (operations : List Operation) :
    added (operations ++ [.add source number]) = added operations := by
  rw [added_concat, statementAt]
  simp [h]

theorem added_concat_other {operation : Operation}
    (h : ∀ source number, operation ≠ .add source number) (operations : List Operation) :
    added (operations ++ [operation]) = added operations := by
  rw [added_concat, statementAt]
  cases operation <;> simp_all

end

/-- The result is that of the statement: it has its number, and its value is
that of the term that the text of the statement denotes. -/
structure Added.Yields (e : Added) (r : Result) : Prop where
  number : r.number = e.number
  term : parse e.source = .ok r.term
  value : r.term.evaluate = .ok r.value
  shown : ∀ view, ∃ text, render view r = .ok text

/-- One statement comes before another: an earlier run runs it, or the same run
does and its number is smaller. -/
def Added.Precedes (e e' : Added) : Prop :=
  e.round < e'.round ∨ (e.round = e'.round ∧ e.number < e'.number)

/-- The entry of a statement in the queue. -/
def Added.entry (e : Added) : Int × Term := (e.number, e.term)

end Session

/-! ## Ledgers -/

open Session
open scoped List

/-- Where the statements are that were added to a session. -/
structure Ledger where
  /-- Under their numbers in the queue. -/
  pending : List Added
  /-- Given up for later ones. -/
  replaced : List Added
  /-- Run, with results that are still there. -/
  waiting : List Added
  /-- Run, with results that were popped. -/
  popped : List Added

/-- The ledger is in order for the statements that were added, after so many
runs, with these answers popped and this session left. -/
structure Ledger.Accounts (ledger : Ledger) (statements : List Added) (runs : Nat)
    (answers : List (View × Text)) (s : Session) : Prop where
  partition : ledger.pending ++ ledger.replaced ++ (ledger.popped ++ ledger.waiting) ~ statements
  queue : s.queue = ledger.pending.map Added.entry
  parsed : ∀ e ∈ ledger.pending, parse e.source = .ok e.term
  ascending : ledger.pending.Pairwise fun e e' => e.number < e'.number
  due : ∀ e ∈ ledger.pending, e.round = runs
  superseded : ∀ e ∈ ledger.replaced,
    ∃ e' ∈ statements, e.place < e'.place ∧ e'.number = e.number ∧ e'.round = e.round
  results : List.Forall₂ Added.Yields ledger.waiting s.results
  answered : List.Forall₂ (fun e answer => ∃ r, e.Yields r ∧ render answer.1 r = .ok answer.2)
    ledger.popped answers
  done : ∀ e ∈ ledger.popped ++ ledger.waiting, e.round < runs
  in_order : (ledger.popped ++ ledger.waiting).Pairwise Added.Precedes

/-- Putting a statement into the queue drops the one of the same number, if there
is one, and leaves the others where they are. -/
theorem Queue.exists_insert_entry (e : Added) {pending : List Added}
    (h : pending.Pairwise fun e e' => e.number < e'.number) :
    ∃ pending' dropped : List Added,
      Queue.insert e.number e.term (pending.map Added.entry) = pending'.map Added.entry ∧
      pending'.Pairwise (fun e e' => e.number < e'.number) ∧
      pending' ++ dropped ~ e :: pending ∧
      ∀ d ∈ dropped, d ∈ pending ∧ d.number = e.number := by
  induction h with
  | nil => exact ⟨[e], [], rfl, List.pairwise_singleton _ _, .refl _, by simp⟩
  | @cons d pending hd hpending ih =>
      rw [List.map_cons, Added.entry, insert]
      obtain hlt | heq | hgt := Int.lt_trichotomy e.number d.number
      · rw [if_pos hlt]
        refine ⟨e :: d :: pending, [], rfl, .cons (fun x hx => ?_) (.cons hd hpending),
          by simp, by simp⟩
        obtain rfl | hx := List.mem_cons.1 hx
        · exact hlt
        · exact Int.lt_trans hlt (hd x hx)
      · rw [if_neg (by omega), if_pos heq]
        exact ⟨e :: pending, [d], rfl, .cons (fun x hx => heq ▸ hd x hx) hpending,
          .cons _ (List.perm_append_singleton d pending), by simp [heq]⟩
      · rw [if_neg (by omega), if_neg (by omega)]
        obtain ⟨pending', dropped, hinsert, hascending, hperm, hdropped⟩ := ih
        refine ⟨d :: pending', dropped, by rw [hinsert]; rfl, .cons (fun x hx => ?_) hascending,
          (hperm.cons d).trans (.swap e d pending),
          fun x hx => (hdropped x hx).imp_left (List.mem_cons_of_mem d)⟩
        obtain rfl | hx := List.mem_cons.1 (hperm.subset (List.mem_append_left _ hx))
        · exact hgt
        · exact hd x hx

/-- Results of statements can be shown. -/
theorem Session.Added.shown_of_yields {entries : List Added} {results : List Result}
    (h : List.Forall₂ Added.Yields entries results) :
    ∀ r ∈ results, ∀ view, ∃ text, render view r = .ok text := by
  induction h with
  | nil => simp
  | cons hyields _ ih => exact List.forall_mem_cons.2 ⟨hyields.shown, ih⟩

/-- What a statement has as its result when it is run is what it yields. -/
theorem Session.Added.yields_of_hasResult {e : Added} {r : Result} {view : View}
    (hparse : parse e.source = .ok e.term) (h : HasResult view e.entry r) : e.Yields r := by
  obtain ⟨-, hr⟩ := h
  obtain ⟨r', hr', hvalue, hshown⟩ :=
    (native_of_parse hparse).exists_result_shown view.trace e.number
  obtain rfl : r' = r := Except.ok.inj (hr'.symm.trans hr)
  obtain ⟨hnumber, hterm⟩ := eq_of_result hr'
  rw [← hterm] at hparse hvalue
  exact ⟨hnumber, hparse, hvalue.evaluate_eq, hshown⟩

theorem Session.Added.forall₂_yields {entries : List Added} {results : List Result}
    {view : View} (hparse : ∀ e ∈ entries, parse e.source = .ok e.term)
    (h : List.Forall₂ (HasResult view) (entries.map Added.entry) results) :
    List.Forall₂ Added.Yields entries results := by
  rw [List.forall₂_map_left_iff] at h
  induction h with
  | nil => exact .nil
  | cons hresult _ ih =>
      rw [List.forall_mem_cons] at hparse
      exact .cons (yields_of_hasResult hparse.1 hresult) (ih hparse.2)

namespace Ledger.Accounts

variable {ledger : Ledger} {statements : List Added} {runs : Nat} {answers : List (View × Text)}
  {s s' : Session}

/-- A session that was begun has an empty ledger. -/
theorem empty (hqueue : s.queue = []) (hresults : s.results = []) :
    Accounts ⟨[], [], [], []⟩ [] 0 [] s where
  partition := .refl _
  queue := hqueue
  parsed := by simp
  ascending := .nil
  due := by simp
  superseded := by simp
  results := by rw [hresults]; exact .nil
  answered := .nil
  done := by simp
  in_order := .nil

theorem of_same (h : ledger.Accounts statements runs answers s) (hqueue : s'.queue = s.queue)
    (hresults : s'.results = s.results) : ledger.Accounts statements runs answers s' :=
  { h with
    queue := hqueue.trans h.queue
    results := hresults ▸ h.results }

/-- Whatever is accounted for can be run and shown. -/
theorem sound (h : ledger.Accounts statements runs answers s) : s.Sound where
  native := by
    rw [h.queue, List.forall_mem_map]
    exact fun e he => native_of_parse (h.parsed e he)
  shown := Added.shown_of_yields h.results

/-- An addition enters the statement as pending.  The statement that it
replaces, if there is one, goes to the replaced ones. -/
theorem enter (h : ledger.Accounts statements runs answers s) {e : Added}
    (hparse : parse e.source = .ok e.term) (hround : e.round = runs)
    (hplace : ∀ e' ∈ statements, e'.place < e.place)
    (hqueue : s'.queue = s.queue.insert e.number e.term) (hresults : s'.results = s.results) :
    ∃ ledger' : Ledger, ledger'.Accounts (statements ++ [e]) runs answers s' := by
  obtain ⟨pending, dropped, hinsert, hascending, hperm, hdropped⟩ :=
    Queue.exists_insert_entry e h.ascending
  have hpending : ∀ x ∈ pending, x = e ∨ x ∈ ledger.pending := fun x hx =>
    List.mem_cons.1 (hperm.subset (List.mem_append_left _ hx))
  refine ⟨⟨pending, ledger.replaced ++ dropped, ledger.waiting, ledger.popped⟩, ?_⟩
  refine
    { partition := ?_
      queue := by rw [hqueue, h.queue, hinsert]
      parsed := fun x hx => ?_
      ascending := hascending
      due := fun x hx => ?_
      superseded := fun x hx => ?_
      results := hresults ▸ h.results
      answered := h.answered
      done := h.done
      in_order := h.in_order }
  · have hcomm : ledger.replaced ++ dropped ~ dropped ++ ledger.replaced := List.perm_append_comm
    calc pending ++ (ledger.replaced ++ dropped) ++ (ledger.popped ++ ledger.waiting)
      _ ~ pending ++ (dropped ++ ledger.replaced) ++ (ledger.popped ++ ledger.waiting) :=
        (hcomm.append_left pending).append_right _
      _ = pending ++ dropped ++ (ledger.replaced ++ (ledger.popped ++ ledger.waiting)) := by simp
      _ ~ e :: ledger.pending ++ (ledger.replaced ++ (ledger.popped ++ ledger.waiting)) :=
        hperm.append_right _
      _ = e :: (ledger.pending ++ ledger.replaced ++ (ledger.popped ++ ledger.waiting)) := by simp
      _ ~ e :: statements := h.partition.cons e
      _ ~ statements ++ [e] := (List.perm_append_singleton e statements).symm
  · obtain rfl | hx := hpending x hx
    · exact hparse
    · exact h.parsed x hx
  · obtain rfl | hx := hpending x hx
    · exact hround
    · exact h.due x hx
  · obtain hx | hx := List.mem_append.1 hx
    · obtain ⟨e', he', hlater⟩ := h.superseded x hx
      exact ⟨e', List.mem_append_left _ he', hlater⟩
    · obtain ⟨hmem, hnumber⟩ := hdropped x hx
      have hstatement : x ∈ statements := h.partition.subset (by simp [hmem])
      exact ⟨e, by simp, hplace x hstatement, hnumber.symm, hround.trans (h.due x hmem).symm⟩

/-- A run settles what is pending: behind the statements that were run before,
in the order of the numbers. -/
theorem settle (h : ledger.Accounts statements runs answers s) {results : List Result}
    (hyields : List.Forall₂ Added.Yields ledger.pending results) (hqueue : s'.queue = [])
    (hresults : s'.results = s.results ++ results) :
    Accounts ⟨[], ledger.replaced, ledger.waiting ++ ledger.pending, ledger.popped⟩ statements
      (runs + 1) answers s' where
  partition := by
    rw [List.nil_append, ← List.append_assoc, ← List.append_assoc]
    refine List.perm_append_comm.trans (.trans ?_ h.partition)
    rw [List.append_assoc, List.append_assoc]
  queue := hqueue
  parsed := by simp
  ascending := .nil
  due := by simp
  superseded := h.superseded
  results := by
    rw [hresults]
    exact List.rel_append h.results hyields
  answered := h.answered
  done := fun e he => by
    obtain he | he := List.mem_append.1 (List.append_assoc .. ▸ he)
    · exact Nat.lt_succ_of_lt (h.done e he)
    · rw [h.due e he]
      exact Nat.lt_succ_self runs
  in_order := by
    rw [← List.append_assoc, List.pairwise_append]
    refine ⟨h.in_order, ?_, fun e he e' he' => .inl ?_⟩
    · refine h.ascending.imp_of_mem fun {e e'} he he' hlt => .inr ⟨?_, hlt⟩
      rw [h.due e he, h.due e' he']
    · rw [h.due e' he']
      exact h.done e he

/-- A result that is popped is that of the statement which has waited
longest. -/
theorem pay (h : ledger.Accounts statements runs answers s) {r : Result} {rest : List Result}
    {view : View} {text : Text} (hresults : s.results = r :: rest)
    (htext : render view r = .ok text) (hqueue : s'.queue = s.queue) (hrest : s'.results = rest) :
    ∃ ledger' : Ledger, ledger'.Accounts statements runs (answers ++ [(view, text)]) s' := by
  have hwaiting := h.results
  rw [hresults] at hwaiting
  obtain ⟨e, waiting, hyields, hothers, heq⟩ := List.forall₂_cons_right_iff.1 hwaiting
  have hline : ledger.popped ++ ledger.waiting = ledger.popped ++ [e] ++ waiting := by
    rw [heq, List.append_assoc, List.singleton_append]
  exact ⟨⟨ledger.pending, ledger.replaced, waiting, ledger.popped ++ [e]⟩,
    { partition := hline ▸ h.partition
      queue := hqueue.trans h.queue
      parsed := h.parsed
      ascending := h.ascending
      due := h.due
      superseded := h.superseded
      results := hrest ▸ hothers
      answered := List.rel_append h.answered (.cons ⟨r, hyields, htext⟩ .nil)
      done := hline ▸ h.done
      in_order := hline ▸ h.in_order }⟩

section

variable {history : List Operation}

/-- An operation that adds and runs nothing leaves the ledger as it is. -/
theorem keep (h : ledger.Accounts (added history) (Session.runs history) answers s)
    {operation : Operation} (hadded : added (history ++ [operation]) = added history)
    (hrun : operation ≠ .run) (hqueue : s'.queue = s.queue) (hresults : s'.results = s.results) :
    ledger.Accounts (added (history ++ [operation])) (Session.runs (history ++ [operation]))
      (answers ++ []) s' := by
  rw [hadded, runs_concat_of_ne hrun, List.append_nil]
  exact h.of_same hqueue hresults

/-- One more operation: the ledger is kept in order. -/
theorem step (h : ledger.Accounts (added history) (Session.runs history) answers s)
    (operation : Operation) :
    ∃ ledger' : Ledger, ledger'.Accounts (added (history ++ [operation]))
      (Session.runs (history ++ [operation])) (answers ++ (s.poppedBy operation).toList)
      (operation.step.run s).state := by
  have hresponds := operation.responds h.sound
  rw [poppedBy]
  generalize operation.step.run s = outcome at hresponds
  cases hresponds with
  | @added source number t _ hparse =>
      rw [added_concat_ok hparse, runs_concat_of_ne (by simp), Option.toList_none,
        List.append_nil]
      exact h.enter (e := ⟨history.length, Session.runs history, number, source, t⟩) hparse rfl
        (fun _ => place_lt_of_mem_added) rfl rfl
  | refused hparse =>
      exact ⟨ledger, h.keep (added_concat_error hparse history) (by simp) rfl rfl⟩
  | ran hresults =>
      rw [h.queue] at hresults
      rw [added_concat_other (by simp), runs_concat_run, Option.toList_none, List.append_nil]
      exact ⟨_, h.settle (Added.forall₂_yields h.parsed hresults) rfl rfl⟩
  | popped hresults htext =>
      rw [added_concat_other (by simp), runs_concat_of_ne (by simp)]
      exact h.pay hresults htext rfl rfl
  | empty | displayed =>
      exact ⟨ledger, h.keep (added_concat_other (by simp) history) (by simp) rfl rfl⟩

/-- Any number of operations: the ledger is kept in order. -/
theorem after (h : ledger.Accounts (added history) (Session.runs history) answers s)
    (operations : List Operation) :
    ∃ ledger' : Ledger, ledger'.Accounts (added (history ++ operations))
      (Session.runs (history ++ operations)) (answers ++ s.popped operations)
      (s.after operations) := by
  induction operations generalizing ledger history answers s with
  | nil => exact ⟨ledger, by simpa using h⟩
  | cons operation operations ih =>
      obtain ⟨ledger', hstep⟩ := h.step operation
      obtain ⟨ledger'', hothers⟩ := ih hstep
      exact ⟨ledger'', by simpa using hothers⟩

end

end Ledger.Accounts

namespace Session

open Step

/-! ## Beginnings -/

/-- The addition of a statement from a file. -/
def Operation.ofLine (statement : LogicalLine) : Operation := .add statement.text statement.number

/-- The session has just been begun, and these operations are what that amounts
to: none, or the additions of all statements of its file. -/
inductive Begins : Session → List Operation → Prop where
  | start (reporter : Reporter) (path : Text) (interactive : Bool) (view : View) :
      Begins (Session.start reporter path interactive view) []
  | load {files : Files} {reporter : Reporter} {path text : Text} {view : View}
      {statements : List LogicalLine} {s : Session} {d : Doc} :
      Readable files path text → LogicalLine.assemble (Text.lines text) = .ok statements →
      (Session.load files).run (Session.start reporter path false view) = ⟨s, d, .ok ()⟩ →
      Begins s (statements.map .ofLine)

/-- A file that was loaded could be read. -/
theorem exists_readable_of_load {files : Files} {s s' : Session} {d : Doc}
    (h : (load files).run s = ⟨s', d, .ok ()⟩) : ∃ text, Readable files s.path text := by
  by_contra hnone
  have hread : ∃ signal, (readText files).run s = ⟨s, [], .error signal⟩ := by
    rw [readText, run_bind_silent (run_state s)]
    by_cases hreserved : s.path ∈ reservedPaths
    · rw [if_pos hreserved]
      exact ⟨_, run_raiseProblem rfl s⟩
    · by_cases hnul : '\x00' ∈ s.path
      · rw [if_neg hreserved, if_pos hnul]
        exact ⟨_, run_raise _ s⟩
      · rw [if_neg hreserved, if_neg hnul]
        cases hbytes : files s.path with
        | none => exact ⟨_, run_raiseProblem rfl s⟩
        | some bytes =>
            cases htext : SourceFile.decode bytes with
            | none =>
                simp only [htext]
                exact ⟨_, run_raiseProblem rfl s⟩
            | some text => exact absurd ⟨text, hreserved, hnul, bytes, hbytes, htext⟩ hnone
  obtain ⟨signal, hread⟩ := hread
  rw [load, run_bind_error hread] at h
  cases h

/-- So every session that was loaded has begun in this sense. -/
theorem exists_begins_of_load {files : Files} {reporter : Reporter} {path : Text} {view : View}
    {s : Session} {d : Doc}
    (h : (load files).run (Session.start reporter path false view) = ⟨s, d, .ok ()⟩) :
    ∃ past, Begins s past := by
  obtain ⟨text, htext⟩ := exists_readable_of_load h
  obtain ⟨statements, hgroups⟩ := LogicalLine.exists_groups 1 (Text.lines text)
  exact ⟨_, .load htext (LogicalLine.assemble_eq_ok_iff.2 hgroups) h⟩

/-- Adding statements one after another is carrying out their additions. -/
theorem after_map_ofLine {statements : List LogicalLine} {s s' : Session} {d : Doc}
    (h : (addAll statements).run s = ⟨s', d, .ok ()⟩) :
    s.after (statements.map .ofLine) = s' ∧ s.popped (statements.map .ofLine) = [] := by
  induction statements generalizing s d with
  | nil =>
      cases h
      exact ⟨rfl, rfl⟩
  | cons statement statements ih =>
      cases hparse : parse statement.text with
      | error e =>
          obtain ⟨p, hp⟩ := e.exists_problem statement.text
          rw [addAll, run_bind_error (run_add_error hparse hp s statement.number)] at h
          cases h
      | ok t =>
          rw [addAll, run_bind_silent (run_add_parsed hparse s statement.number)] at h
          simpa [Operation.ofLine, poppedBy, run_step_add_ok hparse] using ih h

/-- A session has begun with a ledger in order. -/
theorem Begins.exists_accounts {s : Session} {past : List Operation} (h : Begins s past) :
    ∃ ledger : Ledger, ledger.Accounts (added past) (runs past) [] s := by
  cases h with
  | start reporter path interactive view => exact ⟨_, .empty rfl rfl⟩
  | @load files reporter path text view statements _ d htext hstatements hload =>
      have hempty : Ledger.Accounts ⟨[], [], [], []⟩ (added []) (runs [])
        [] (Session.start reporter path false view) := .empty rfl rfl
      obtain ⟨ledger, hafter⟩ := hempty.after (statements.map .ofLine)
      obtain ⟨warning, -, hrun⟩ := exists_run_load
        (s := Session.start reporter path false view) htext hstatements
      rw [hload] at hrun
      injection hrun with hstate _ hanswer
      have hadd : ∃ d', (addAll statements).run (Session.start reporter path false view) =
          ⟨s, d', .ok ()⟩ := ⟨_, by rw [hstate, hanswer]⟩
      obtain ⟨d', hadd⟩ := hadd
      obtain ⟨hsession, hpopped⟩ := after_map_ofLine hadd
      rw [hsession, hpopped] at hafter
      exact ⟨ledger, hafter⟩

/-! ## Every session -/

/-- The operation succeeds: a statement can be parsed, or there is a result. -/
def Operation.Succeeds (s : Session) : Operation → Prop
  | add source _ => ∃ t, parse source = .ok t
  | pop => s.results ≠ []
  | run | display _ => True

theorem Responds.succeeds_iff {s : Session} {operation : Operation}
    {outcome : Outcome Session (Option Text)} (h : Responds s operation outcome) :
    (∃ answer, outcome.answer = .ok answer) ↔ operation.Succeeds s := by
  cases h <;> simp_all [Operation.Succeeds]

/-- An operation that fails changes neither the queue nor the results. -/
theorem Responds.unchanged {s : Session} {operation : Operation}
    {outcome : Outcome Session (Option Text)} (h : Responds s operation outcome) {signal : Signal}
    (hsignal : outcome.answer = .error signal) :
    outcome.state.queue = s.queue ∧ outcome.state.results = s.results := by
  cases h with
  | refused | empty => exact ⟨rfl, rfl⟩
  | added | ran | popped | displayed => contradiction

/-- **No statement is lost, repeated or reordered.**  After any operations on a
session there is a ledger in order for all statements that were added to it,
each of which was added once: pending statements are in the queue under their
numbers, and a statement was replaced by one that was added later under its
number and before any run; each result has the value of its own statement, and
the results, in the order of popping, are those of one run after another, each
run in the order of the numbers.  Operations fail only for a statement that
cannot be parsed and for want of a result, and leave queue and results as they
were. -/
theorem ledger_accounts {s : Session} {past : List Operation} (h : Begins s past)
    (operations : List Operation) :
    (∃ ledger : Ledger, ledger.Accounts (added (past ++ operations)) (runs (past ++ operations))
      (s.popped operations) (s.after operations)) ∧
    (added (past ++ operations)).Pairwise (fun e e' => e.place < e'.place) ∧
    ∀ operation : Operation,
      let outcome := operation.step.run (s.after operations)
      ((∃ answer, outcome.answer = .ok answer) ↔ operation.Succeeds (s.after operations)) ∧
      ∀ signal, outcome.answer = .error signal →
        outcome.state.queue = (s.after operations).queue ∧
        outcome.state.results = (s.after operations).results := by
  obtain ⟨ledger, hbegins⟩ := h.exists_accounts
  obtain ⟨ledger', hafter⟩ := hbegins.after operations
  refine ⟨⟨ledger', hafter⟩, pairwise_added _, fun operation => ?_⟩
  have hresponds := operation.responds hafter.sound
  exact ⟨hresponds.succeeds_iff, fun _ => hresponds.unchanged⟩

/-- A statement that is replaced before the run, one with a smaller number
after it, and a result too many asked for. -/
def replacement : List Operation :=
  [.add "true" 2, .add "false" 2, .add "true" 1, .run, .pop, .pop, .pop]

theorem ledger_accounts_replacement :
    Begins (Session.start (Reporter.new true) inputPath true ⟨false, false⟩) [] ∧
      (Session.start (Reporter.new true) inputPath true ⟨false, false⟩).popped replacement =
        [(⟨false, false⟩, ("true" : Text)), (⟨false, false⟩, ("false" : Text))] ∧
      ∃ ledger : Ledger, ledger.Accounts (added replacement) 1
        [(⟨false, false⟩, ("true" : Text)), (⟨false, false⟩, ("false" : Text))]
        ((Session.start (Reporter.new true) inputPath true ⟨false, false⟩).after replacement) := by
  have hbegins := Begins.start (Reporter.new true) inputPath true ⟨false, false⟩
  have htrue : parse "true" = .ok (.lit true) :=
    parse_eq_ok_iff.2 ⟨_, _, .single (t := .litTrue) (by decide), .litTrue, by decide⟩
  have hfalse : parse "false" = .ok (.lit false) :=
    parse_eq_ok_iff.2 ⟨_, _, .single (t := .litFalse) (by decide), .litFalse, by decide⟩
  have hpopped : (Session.start (Reporter.new true) inputPath true ⟨false, false⟩).popped
      replacement = [(⟨false, false⟩, ("true" : Text)), (⟨false, false⟩, ("false" : Text))] := by
    rw [replacement, popped_cons, poppedBy, run_step_add_ok htrue, popped_cons, poppedBy,
      run_step_add_ok hfalse, popped_cons, poppedBy, run_step_add_ok htrue]
    rfl
  obtain ⟨⟨ledger, haccounts⟩, -⟩ := ledger_accounts hbegins replacement
  rw [hpopped] at haccounts
  exact ⟨hbegins, hpopped, ledger, haccounts⟩

end Session

end Conditional

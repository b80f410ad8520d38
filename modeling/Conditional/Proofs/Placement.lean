import Conditional.Proofs.Substitution
import Mathlib.Data.List.Forall2

/-!
# Conditional.Proofs.Placement

Where the judgments on record belong.  A judgment has a term and a depth, but it
does not say at which position of the whole term its own term stands.
`Term.log` does: it lists the subterms whose evaluation comes to an end, in the
order in which that happens, with their positions and their values.  What
evaluation puts on record are the judgments about the entries of this list, no
matter whether it has a value in the end (`Term.recordAt_eq`).

Two facts about evaluation are facts about this list.  An evaluation that fails
at a foreign node has put on record what it would have put there before a
literal in the place of that node, and nothing else (`record_breaks_off`).  And
what lies in a branch that is not taken changes nothing (`untaken_unread`).
-/

namespace Conditional

/-! ## Entries -/

/-- A subterm whose evaluation has come to an end: where it stands, and its
value. -/
structure Entry where
  position : List Part
  term : Term
  value : Bool
deriving DecidableEq, Repr

namespace Entry

/-- The judgment about an entry of a term that stands at a depth. -/
def judgment (depth : Int) (e : Entry) : Judgment := ⟨e.term, e.value, depth + e.position.length⟩

/-- An entry of a part, as an entry of the conditional. -/
def within (part : Part) (e : Entry) : Entry := { e with position := part :: e.position }

theorem judgment_within (depth : Int) (part : Part) (e : Entry) :
    (e.within part).judgment depth = e.judgment (depth + 1) := by
  have hdepth : depth + ((part :: e.position).length : Int) = depth + 1 + e.position.length := by
    rw [List.length_cons]
    omega
  rw [judgment, judgment, within, hdepth]

theorem map_judgment_within (depth : Int) (part : Part) (entries : List Entry) :
    (entries.map (within part)).map (judgment depth) = entries.map (judgment (depth + 1)) := by
  rw [List.map_map]
  exact List.map_congr_left fun e _ => judgment_within depth part e

end Entry

/-- The branch that is taken for a value of the condition. -/
def Part.taken : Bool → Part
  | true => .thenBranch
  | false => .elseBranch

namespace Term

open Entry

/-- The entry for the whole term, if it has a value. -/
def conclusion (t : Term) : List Entry :=
  match t.evaluate with
  | .ok value => [⟨[], t, value⟩]
  | .error _ => []

/-- The subterms whose evaluation comes to an end, in the order in which that
happens. -/
def log : Term → List Entry
  | ite c a b =>
    c.log.map (within .condition) ++
      (match c.evaluate with
      | .ok true => a.log.map (within .thenBranch)
      | .ok false => b.log.map (within .elseBranch)
      | .error _ => []) ++
      (ite c a b).conclusion
  | t => t.conclusion

variable {t c a b : Term}

theorem log_ite_ok {v : Bool} (h : c.evaluate = .ok v) :
    (ite c a b).log = c.log.map (within .condition) ++
      (if v then a else b).log.map (within (.taken v)) ++ (ite c a b).conclusion := by
  rw [log, h]
  cases v <;> rfl

theorem log_ite_error {f : Fault} (h : c.evaluate = .error f) :
    (ite c a b).log = c.log.map (within .condition) := by
  rw [log, h, conclusion, evaluate_ite_error h]
  simp

/-- The condition comes first. -/
theorem exists_log_ite (c a b : Term) :
    ∃ more, (ite c a b).log = c.log.map (within .condition) ++ more := by
  rw [log, List.append_assoc]
  exact ⟨_, rfl⟩

/-! ## The record and the log -/

/-- How evaluation ends, with what is on record then. -/
def ending (outcome : Except Fault Bool) (judgments : List Judgment) :
    EStateM.Result Fault (List Judgment) Bool :=
  match outcome with
  | .ok value => .ok value judgments
  | .error f => .error f judgments

/-- Evaluation puts the judgments about the log on record, behind those that are
there before, whether the term has a value or not. -/
theorem recordAt_eq (t : Term) (depth : Int) (before : List Judgment) :
    t.recordAt depth before = ending t.evaluate (before ++ t.log.map (judgment depth)) := by
  induction t generalizing depth before with
  | lit value => simp [recordAt, conclude, evaluate, log, conclusion, ending, judgment]
  | ite c a b hc ha hb =>
      have hcondition := hc (depth + 1) before
      cases hvalue : c.evaluate with
      | error f =>
          rw [hvalue] at hcondition
          rw [recordAt_ite_error hcondition, evaluate_ite_error hvalue, log_ite_error hvalue,
            map_judgment_within]
          rfl
      | ok v =>
          rw [hvalue] at hcondition
          have hbranch (before : List Judgment) :
              (if v then a else b).recordAt (depth + 1) before =
                ending (if v then a else b).evaluate
                  (before ++ (if v then a else b).log.map (judgment (depth + 1))) := by
            cases v with
            | true => exact ha (depth + 1) before
            | false => exact hb (depth + 1) before
          rw [recordAt_ite_ok hcondition, log_ite_ok hvalue, conclusion, evaluate_ite_ok hvalue,
            List.map_append, List.map_append, map_judgment_within, map_judgment_within]
          cases hvalue : (if v then a else b).evaluate <;>
            simp [bind, EStateM.bind, hbranch, hvalue, ending, conclude, judgment]
  | foreign node =>
      have hrecord : (foreign node).recordAt depth before =
          .error (.notEvaluable node.form) before := rfl
      have hlog : (foreign node).log = [] := rfl
      rw [hrecord, hlog, List.map_nil, List.append_nil]
      rfl

/-- The entries are what evaluation puts on record: each is about the subterm at
its position, which has its value. -/
structure Traced (t : Term) (entries : List Entry) : Prop where
  record_eq : ∀ before,
    t.record before = ending t.evaluate (before ++ entries.map (judgment 0))
  at_position : ∀ e ∈ entries, t.at? e.position = some e.term
  evaluates : ∀ e ∈ entries, Evaluates e.term e.value

/-! ## Positions -/

theorem Visits.at?_eq {u : Term} {position : List Part} (h : t.Visits position u) :
    t.at? position = some u := by
  induction h with
  | root t => exact at?_nil t
  | condition _ ih | thenBranch _ _ ih | elseBranch _ _ ih => exact ih

theorem Visits.taken {v : Bool} {u : Term} {position : List Part} (hvalue : Evaluates c v)
    (h : (if v then a else b).Visits position u) :
    (ite c a b).Visits (.taken v :: position) u := by
  cases v with
  | true => exact .thenBranch hvalue h
  | false => exact .elseBranch hvalue h

/-- Evaluation comes by every entry of the log, and the entry has its value. -/
theorem visits_of_mem_log {e : Entry} (h : e ∈ t.log) :
    t.Visits e.position e.term ∧ Evaluates e.term e.value := by
  have hconclusion {t : Term} {e : Entry} (h : e ∈ t.conclusion) :
      t.Visits e.position e.term ∧ Evaluates e.term e.value := by
    rw [conclusion] at h
    cases hvalue : t.evaluate with
    | ok v =>
        rw [hvalue] at h
        obtain rfl := List.mem_singleton.1 h
        exact ⟨.root t, evaluates_of_evaluate hvalue⟩
    | error f =>
        rw [hvalue] at h
        contradiction
  induction t generalizing e with
  | lit value | foreign node => exact hconclusion h
  | ite c a b hc ha hb =>
      cases hvalue : c.evaluate with
      | error f =>
          rw [log_ite_error hvalue] at h
          obtain ⟨e, he, rfl⟩ := List.mem_map.1 h
          exact (hc he).imp_left .condition
      | ok v =>
          have hbranch {e : Entry} (he : e ∈ (if v then a else b).log) :
              (if v then a else b).Visits e.position e.term ∧ Evaluates e.term e.value := by
            cases v with
            | true => exact ha he
            | false => exact hb he
          rw [log_ite_ok hvalue, List.mem_append, List.mem_append] at h
          obtain (h | h) | h := h
          · obtain ⟨e, he, rfl⟩ := List.mem_map.1 h
            exact (hc he).imp_left .condition
          · obtain ⟨e, he, rfl⟩ := List.mem_map.1 h
            exact (hbranch he).imp_left (.taken (evaluates_of_evaluate hvalue))
          · exact hconclusion h

theorem traced_log (t : Term) : t.Traced t.log where
  record_eq := t.recordAt_eq 0
  at_position _ h := (visits_of_mem_log h).1.at?_eq
  evaluates _ h := (visits_of_mem_log h).2

/-! ## Evaluation that fails -/

section

variable {position : List Part} {node : Foreign}

theorem Visits.evaluate_error (h : t.Visits position (.foreign node)) :
    ∃ f, t.evaluate = .error f :=
  evaluate_eq_error_iff.2 fun ⟨_, hv⟩ => hv.not_visits_foreign h

/-- What evaluation comes by below a subterm, evaluation of the subterm comes by. -/
theorem Visits.of_append {u w : Term} {above below : List Part} (h : t.Visits above u)
    (h' : t.Visits (above ++ below) w) : u.Visits below w := by
  induction h with
  | root t => exact h'
  | condition _ ih =>
      cases h' with
      | condition h' => exact ih h'
  | thenBranch _ _ ih =>
      cases h' with
      | thenBranch _ h' => exact ih h'
  | elseBranch _ _ ih =>
      cases h' with
      | elseBranch _ h' => exact ih h'

/-- What is around the foreign node that evaluation comes by has no value. -/
theorem Visits.not_prefix_of_mem_log (h : t.Visits position (.foreign node)) {e : Entry}
    (he : e ∈ t.log) : ¬ e.position <+: position := by
  rintro ⟨below, rfl⟩
  obtain ⟨hvisits, hvalue⟩ := visits_of_mem_log he
  exact hvalue.not_visits_foreign (hvisits.of_append h)

/-- If the branch that is taken has no value, but goes on in another conditional,
then that conditional goes on in the same way. -/
theorem exists_log_ite_branch {a' b' : Term} {v : Bool} {f : Fault} {e : Entry}
    {later : List Entry} (hvalue : c.evaluate = .ok v)
    (hfails : (if v then a else b).evaluate = .error f)
    (h : (if v then a' else b').log = (if v then a else b).log ++ e :: later) :
    ∃ more, (ite c a' b').log = (ite c a b).log ++ e.within (.taken v) :: more := by
  have hnone : (ite c a b).conclusion = [] := by
    rw [conclusion, evaluate_ite_ok hvalue, hfails]
  refine ⟨later.map (within (.taken v)) ++ (ite c a' b').conclusion, ?_⟩
  rw [log_ite_ok hvalue, log_ite_ok hvalue, hnone, h]
  simp

/-- With a literal in the place of the foreign node, evaluation first does what it
did before, and then goes on with the literal. -/
theorem Visits.exists_log_replace (h : t.Visits position (.foreign node)) (value : Bool) :
    ∃ later, (t.replace position (.lit value)).log =
      t.log ++ ⟨position, .lit value, value⟩ :: later := by
  generalize hu : Term.foreign node = u at h
  induction h with
  | root t =>
      subst hu
      rw [replace_nil]
      exact ⟨[], rfl⟩
  | @condition c a b u position hvisits ih =>
      obtain ⟨later, hlater⟩ := ih hu
      subst hu
      obtain ⟨f, hfails⟩ := hvisits.evaluate_error
      obtain ⟨more, hmore⟩ := exists_log_ite (c.replace position (.lit value)) a b
      refine ⟨later.map (within .condition) ++ more, ?_⟩
      rw [replace, hmore, hlater, log_ite_error hfails]
      simp [within]
  | thenBranch htrue hvisits ih =>
      obtain ⟨later, hlater⟩ := ih hu
      subst hu
      obtain ⟨f, hfails⟩ := hvisits.evaluate_error
      exact exists_log_ite_branch htrue.evaluate_eq hfails hlater
  | elseBranch hfalse hvisits ih =>
      obtain ⟨later, hlater⟩ := ih hu
      subst hu
      obtain ⟨f, hfails⟩ := hvisits.evaluate_error
      exact exists_log_ite_branch hfalse.evaluate_eq hfails hlater

end

end Term

open Term

/-- **A record that breaks off is complete up to there.**  If evaluation fails, it
does so at a foreign node, and has put the judgments of its log on record behind
those that were there before.  None of them is about a term around that node.
With any literal in the place of the node, evaluation puts the same judgments on
record, in the same order and for the same positions, and then the one about the
literal. -/
theorem record_breaks_off {t : Term} {f : Fault} {before after : List Judgment}
    (h : t.record before = .error f after) :
    ∃ position node, t.Visits position (.foreign node) ∧ f = .notEvaluable node.form ∧
      after = before ++ t.log.map (Entry.judgment 0) ∧ t.Traced t.log ∧
      (∀ e ∈ t.log, ¬ e.position <+: position) ∧
      ∀ value, ∃ later,
        (t.replace position (.lit value)).Traced
          (t.log ++ ⟨position, .lit value, value⟩ :: later) := by
  have hrecord := t.traced_log.record_eq before
  rw [h] at hrecord
  cases hvalue : t.evaluate with
  | ok v =>
      rw [hvalue] at hrecord
      contradiction
  | error g =>
      rw [hvalue] at hrecord
      obtain ⟨rfl, rfl⟩ : f = g ∧ after = before ++ t.log.map (Entry.judgment 0) := by
        injection hrecord with hf hafter
        exact ⟨hf, hafter⟩
      obtain ⟨position, node, hvisits, rfl⟩ := exists_visits_foreign hvalue
      refine ⟨position, node, hvisits, rfl, rfl, t.traced_log,
        fun e he => hvisits.not_prefix_of_mem_log he, fun value => ?_⟩
      obtain ⟨later, hlater⟩ := hvisits.exists_log_replace value
      exact ⟨later, hlater ▸ (t.replace position (.lit value)).traced_log⟩

/-- A term whose evaluation fails in a branch of a branch, with another foreign node
on the way that it does not take. -/
def halfDone : Term :=
  .ite (.ite (.lit false) (.foreign (.datum "int")) (.lit true))
    (.ite (.lit true) (.foreign (.extension "Opaque" "?")) (.lit false)) (.lit false)

theorem record_breaks_off_halfDone :
    halfDone.record [⟨.lit false, false, 7⟩] = .error (.notEvaluable "Opaque")
        ([⟨.lit false, false, 7⟩] ++ halfDone.log.map (Entry.judgment 0)) ∧
      halfDone.log.map Entry.position =
        [[.condition, .condition], [.condition, .elseBranch], [.condition],
          [.thenBranch, .condition]] ∧
      ∃ later, (halfDone.replace [.thenBranch, .thenBranch] (.lit true)).Traced
        (halfDone.log ++ ⟨[.thenBranch, .thenBranch], .lit true, true⟩ :: later) := by
  have hrecord : halfDone.record [⟨.lit false, false, 7⟩] = .error (.notEvaluable "Opaque")
      ([⟨.lit false, false, 7⟩] ++ halfDone.log.map (Entry.judgment 0)) := rfl
  have hvisits : halfDone.Visits [.thenBranch, .thenBranch]
      (.foreign (.extension "Opaque" "?")) :=
    .thenBranch (.ifFalse (.lit false) (.lit true)) (.thenBranch (.lit true) (.root _))
  obtain ⟨position, node, hnode, -, -, -, -, hrepaired⟩ := record_breaks_off hrecord
  obtain ⟨rfl, -⟩ := hvisits.unique_foreign hnode
  exact ⟨hrecord, rfl, hrepaired true⟩

/-! ## Branches that are not taken -/

namespace Term

/-- Two terms have the same root, whatever is below it. -/
def SameRoot : Term → Term → Prop
  | lit value, lit value' => value' = value
  | ite _ _ _, ite _ _ _ => True
  | foreign node, foreign node' => node' = node
  | _, _ => False

/-- The second term has the same root as the first one wherever evaluation of the
first one comes by, so the two differ only in branches that are not taken. -/
def AgreesOnWay (t t' : Term) : Prop :=
  ∀ position u, t.Visits position u → ∃ u', t'.at? position = some u' ∧ u.SameRoot u'

variable {t t' c a b : Term}

theorem AgreesOnWay.sameRoot (h : t.AgreesOnWay t') : t.SameRoot t' := by
  obtain ⟨u', hu', hsame⟩ := h [] t (.root t)
  rw [at?_nil] at hu'
  obtain rfl := Option.some.inj hu'
  exact hsame

/-- Conditionals agree if their conditions do, and the branches that are taken. -/
theorem AgreesOnWay.exists_ite (h : (ite c a b).AgreesOnWay t') :
    ∃ c' a' b', t' = ite c' a' b' ∧ c.AgreesOnWay c' ∧
      ∀ v, Evaluates c v → (if v then a else b).AgreesOnWay (if v then a' else b') := by
  match t', h.sameRoot with
  | ite c' a' b', _ =>
      refine ⟨c', a', b', rfl, fun position u hu => h _ u (.condition hu), fun v hv => ?_⟩
      intro position u hu
      obtain ⟨u', hu', hsame⟩ := h _ u (hu.taken hv)
      cases v with
      | true => exact ⟨u', hu', hsame⟩
      | false => exact ⟨u', hu', hsame⟩

end Term

namespace Entry

/-- What an entry says without its term. -/
def outline (e : Entry) : List Part × Bool := (e.position, e.value)

theorem map_outline_within (part : Part) (entries : List Entry) :
    (entries.map (within part)).map outline =
      (entries.map outline).map fun o => (part :: o.1, o.2) := by
  rw [List.map_map, List.map_map]
  exact List.map_congr_left fun _ _ => rfl

theorem map_outline_conclusion {t t' : Term} (h : t'.evaluate = t.evaluate) :
    t'.conclusion.map outline = t.conclusion.map outline := by
  rw [Term.conclusion, Term.conclusion, h]
  cases t.evaluate <;> rfl

end Entry

namespace Term

open Entry

/-- Terms that agree have the same outcome, and it is reached in the same way. -/
theorem AgreesOnWay.evaluate_eq {t t' : Term} (h : t.AgreesOnWay t') :
    t'.evaluate = t.evaluate ∧ t'.log.map outline = t.log.map outline := by
  induction t generalizing t' with
  | lit value =>
      match t', h.sameRoot with
      | lit _, rfl => exact ⟨rfl, rfl⟩
  | ite c a b hc ha hb =>
      obtain ⟨c', a', b', rfl, hcondition, htaken⟩ := h.exists_ite
      obtain ⟨hvalue', hlog⟩ := hc hcondition
      cases hvalue : c.evaluate with
      | error f =>
          rw [hvalue] at hvalue'
          refine ⟨by rw [evaluate_ite_error hvalue', evaluate_ite_error hvalue], ?_⟩
          rw [log_ite_error hvalue', log_ite_error hvalue, map_outline_within, map_outline_within,
            hlog]
      | ok v =>
          rw [hvalue] at hvalue'
          have hbranch : (if v then a' else b').evaluate = (if v then a else b).evaluate ∧
              (if v then a' else b').log.map outline = (if v then a else b).log.map outline := by
            have hagree := htaken v (evaluates_of_evaluate hvalue)
            cases v with
            | true => exact ha hagree
            | false => exact hb hagree
          have houtcome : (ite c' a' b').evaluate = (ite c a b).evaluate := by
            rw [evaluate_ite_ok hvalue', evaluate_ite_ok hvalue, hbranch.1]
          refine ⟨houtcome, ?_⟩
          rw [log_ite_ok hvalue', log_ite_ok hvalue]
          simp only [List.map_append, map_outline_within, map_outline_conclusion houtcome, hlog,
            hbranch.2]
  | foreign node =>
      match t', h.sameRoot with
      | foreign _, rfl => exact ⟨rfl, rfl⟩

end Term

/-- **Branches that are not taken are not read.**  If two terms agree wherever
evaluation of the first one comes by, then they have the same outcome, a value or a
fault, on record as without one.  The judgments that go on record are as many for
the one as for the other, and in their order they are about the same positions at
the same depths, with the same values. -/
theorem untaken_unread {t t' : Term} (h : t.AgreesOnWay t') :
    t'.evaluate = t.evaluate ∧
      (∀ before, Recording.answer (t'.record before) = Recording.answer (t.record before)) ∧
      t.Traced t.log ∧ t'.Traced t'.log ∧
      List.Forall₂ (fun e e' => e'.position = e.position ∧
        (e'.judgment 0).value = (e.judgment 0).value ∧
        (e'.judgment 0).depth = (e.judgment 0).depth) t.log t'.log := by
  obtain ⟨houtcome, hlog⟩ := h.evaluate_eq
  refine ⟨houtcome, fun before => ?_, t.traced_log, t'.traced_log, ?_⟩
  · rw [record, t'.answer_recordAt, t.answer_recordAt, houtcome]
  · have hsame : List.Forall₂ (· = ·) (t.log.map Entry.outline) (t'.log.map Entry.outline) := by
      rw [hlog, List.forall₂_eq_eq_eq]
    rw [List.forall₂_map_left_iff, List.forall₂_map_right_iff] at hsame
    refine hsame.imp fun e e' heq => ?_
    obtain ⟨hposition, hvalue⟩ := Prod.mk.inj heq
    exact ⟨hposition.symm, hvalue.symm, by rw [Entry.judgment, Entry.judgment, hposition]⟩

/-- The conditional of `negation`, with other terms in the branches that are not
taken. -/
def otherNegation : Term :=
  .ite (.ite (.lit false) (.ite (.lit true) (.lit true) (.lit true)) (.lit true)) (.lit false)
    (.foreign (.datum "str"))

theorem untaken_unread_negation :
    negation.AgreesOnWay otherNegation ∧ otherNegation ≠ negation ∧
      otherNegation.evaluate = negation.evaluate ∧
      List.Forall₂ (fun e e' => e'.position = e.position ∧
        (e'.judgment 0).value = (e.judgment 0).value ∧
        (e'.judgment 0).depth = (e.judgment 0).depth) negation.log otherNegation.log := by
  have hagree : negation.AgreesOnWay otherNegation := by
    intro position u h
    cases h with
    | root => exact ⟨_, rfl, trivial⟩
    | condition h =>
        cases h with
        | root => exact ⟨_, rfl, trivial⟩
        | condition h =>
            cases h
            exact ⟨_, rfl, rfl⟩
        | thenBranch htrue _ => cases htrue
        | elseBranch _ h =>
            cases h
            exact ⟨_, rfl, rfl⟩
    | thenBranch _ h =>
        cases h
        exact ⟨_, rfl, rfl⟩
    | elseBranch hfalse _ =>
        have htrue : Evaluates (.ite (.lit false) (.foreign (.datum "int")) (.lit true)) true :=
          .ifFalse (.lit false) (.lit true)
        exact absurd (hfalse.unique htrue) Bool.false_ne_true
  obtain ⟨houtcome, -, -, -, hlog⟩ := untaken_unread hagree
  exact ⟨hagree, by decide, houtcome, hlog⟩

end Conditional

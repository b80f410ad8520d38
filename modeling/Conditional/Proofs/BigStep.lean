import Conditional.Evaluation

/-!
# Conditional.Proofs.BigStep

Evaluation and the rules of the big-step relation agree on every term, also
on terms with foreign nodes (`evaluate_follows_rules`).  Where the rules give
a value, evaluation finds it.  Where they give none, there is a reason that
can be pointed to: evaluation goes from the root into conditions, and from a
condition that has a value into the branch that the value selects
(`Term.Visits`), and on this way it meets exactly one foreign node, which it
names.  Foreign nodes elsewhere do no harm.

Writing a record makes no difference to any of this
(`Term.answer_recordAt`).
-/

namespace Conditional

/-! ## Values -/

namespace Term

variable {c a b : Term}

theorem evaluate_ite_ok {v : Bool} (h : c.evaluate = .ok v) :
    (ite c a b).evaluate = (if v then a else b).evaluate := by
  cases v <;> simp [evaluate, h, bind, Except.bind]

theorem evaluate_ite_error {f : Fault} (h : c.evaluate = .error f) :
    (ite c a b).evaluate = .error f := by
  simp [evaluate, h, bind, Except.bind]

end Term

/-- Evaluation finds the values that the rules give. -/
theorem Evaluates.evaluate_eq {t : Term} {v : Bool} (h : Evaluates t v) :
    t.evaluate = .ok v := by
  induction h with
  | lit value => rfl
  | ifTrue _ _ hc ha => rwa [Term.evaluate_ite_ok hc, if_pos rfl]
  | ifFalse _ _ hc hb => rwa [Term.evaluate_ite_ok hc, if_neg Bool.false_ne_true]

/-- And it finds no others. -/
theorem evaluates_of_evaluate {t : Term} {v : Bool} (h : t.evaluate = .ok v) :
    Evaluates t v := by
  induction t generalizing v with
  | lit value =>
      obtain rfl := Except.ok.inj h
      exact .lit value
  | ite c a b hc ha hb =>
      cases hcondition : c.evaluate with
      | error f =>
          rw [Term.evaluate_ite_error hcondition] at h
          contradiction
      | ok w =>
          rw [Term.evaluate_ite_ok hcondition] at h
          cases w with
          | true => exact .ifTrue (hc hcondition) (ha h)
          | false => exact .ifFalse (hc hcondition) (hb h)
  | foreign node => contradiction

theorem evaluate_eq_ok_iff {t : Term} {v : Bool} : t.evaluate = .ok v ↔ Evaluates t v :=
  ⟨evaluates_of_evaluate, Evaluates.evaluate_eq⟩

theorem Evaluates.unique {t : Term} {v w : Bool} (h : Evaluates t v) (h' : Evaluates t w) :
    v = w := by
  have hsame := h.evaluate_eq.symm.trans h'.evaluate_eq
  exact Except.ok.inj hsame

/-! ## The way of evaluation -/

/-- A part of a conditional. -/
inductive Part where
  | condition
  | thenBranch
  | elseBranch
deriving DecidableEq, Repr

namespace Term

/-- Evaluation of the first term comes by the second one, which stands in it
at the position. -/
inductive Visits : Term → List Part → Term → Prop where
  | root (t : Term) : Visits t [] t
  | condition {c a b u : Term} {position : List Part} :
      Visits c position u → Visits (.ite c a b) (.condition :: position) u
  | thenBranch {c a b u : Term} {position : List Part} :
      Evaluates c true → Visits a position u → Visits (.ite c a b) (.thenBranch :: position) u
  | elseBranch {c a b u : Term} {position : List Part} :
      Evaluates c false → Visits b position u → Visits (.ite c a b) (.elseBranch :: position) u

end Term

/-- Evaluation of a term with a value comes by no foreign node. -/
theorem Evaluates.not_visits_foreign {t : Term} {v : Bool} (h : Evaluates t v)
    {position : List Part} {node : Foreign} : ¬ t.Visits position (.foreign node) := by
  intro hvisits
  induction h generalizing position with
  | lit value => cases hvisits
  | ifTrue hcondition _ hc ha =>
      cases hvisits with
      | condition hvisits => exact hc hvisits
      | thenBranch _ hvisits => exact ha hvisits
      | elseBranch hfalse _ => exact Bool.false_ne_true (hfalse.unique hcondition)
  | ifFalse hcondition _ hc hb =>
      cases hvisits with
      | condition hvisits => exact hc hvisits
      | thenBranch htrue _ => exact Bool.false_ne_true (hcondition.unique htrue)
      | elseBranch _ hvisits => exact hb hvisits

namespace Term

/-- There is at most one foreign node that evaluation comes by. -/
theorem Visits.unique_foreign {t : Term} {position position' : List Part} {node node' : Foreign}
    (h : t.Visits position (.foreign node)) (h' : t.Visits position' (.foreign node')) :
    position' = position ∧ node' = node := by
  generalize hu : Term.foreign node = u at h
  induction h generalizing position' with
  | root t =>
      subst hu
      cases h'
      exact ⟨rfl, rfl⟩
  | condition hvisits ih =>
      subst hu
      cases h' with
      | condition hvisits' => exact (ih hvisits' rfl).imp_left (congrArg _)
      | thenBranch htrue _ => exact absurd hvisits htrue.not_visits_foreign
      | elseBranch hfalse _ => exact absurd hvisits hfalse.not_visits_foreign
  | thenBranch htrue _ ih =>
      cases h' with
      | condition hvisits' => exact absurd hvisits' htrue.not_visits_foreign
      | thenBranch _ hvisits' => exact (ih hvisits' hu).imp_left (congrArg _)
      | elseBranch hfalse _ => exact absurd (hfalse.unique htrue) Bool.false_ne_true
  | elseBranch hfalse _ ih =>
      cases h' with
      | condition hvisits' => exact absurd hvisits' hfalse.not_visits_foreign
      | thenBranch htrue _ => exact absurd (hfalse.unique htrue) Bool.false_ne_true
      | elseBranch _ hvisits' => exact (ih hvisits' hu).imp_left (congrArg _)

/-- Evaluation that fails has come by a foreign node, and names it. -/
theorem exists_visits_foreign {t : Term} {f : Fault} (h : t.evaluate = .error f) :
    ∃ position node, t.Visits position (.foreign node) ∧ f = .notEvaluable node.form := by
  induction t with
  | lit value => contradiction
  | ite c a b hc ha hb =>
      cases hcondition : c.evaluate with
      | error g =>
          rw [evaluate_ite_error hcondition] at h
          obtain rfl := Except.error.inj h
          obtain ⟨position, node, hvisits, rfl⟩ := hc hcondition
          exact ⟨_, node, .condition hvisits, rfl⟩
      | ok w =>
          rw [evaluate_ite_ok hcondition] at h
          have hvalue := evaluates_of_evaluate hcondition
          cases w with
          | true =>
              obtain ⟨position, node, hvisits, rfl⟩ := ha h
              exact ⟨_, node, .thenBranch hvalue hvisits, rfl⟩
          | false =>
              obtain ⟨position, node, hvisits, rfl⟩ := hb h
              exact ⟨_, node, .elseBranch hvalue hvisits, rfl⟩
  | foreign node => exact ⟨[], node, .root _, (Except.error.inj h).symm⟩

/-! ## Evaluation on record -/

section

variable {c a b : Term} {depth : Int} {before after : List Judgment}

/-- The record of a conditional begins with that of its condition, goes on
with that of the branch which is taken, and ends with the judgment about the
whole. -/
theorem recordAt_ite_ok {v : Bool} (h : c.recordAt (depth + 1) before = .ok v after) :
    (ite c a b).recordAt depth before =
      ((if v then a else b).recordAt (depth + 1) >>= fun w => conclude (ite c a b) w depth)
        after := by
  cases v <;> simp [recordAt, h, bind, EStateM.bind]

theorem recordAt_ite_error {f : Fault} (h : c.recordAt (depth + 1) before = .error f after) :
    (ite c a b).recordAt depth before = .error f after := by
  simp [recordAt, h, bind, EStateM.bind]

end

end Term

namespace Recording

/-- What a computation on record answers, without the record. -/
def answer {α : Type} : EStateM.Result Fault (List Judgment) α → Except Fault α
  | .ok a _ => .ok a
  | .error f _ => .error f

/-- A judgment at the end of the record does not change the answer. -/
theorem answer_bind_conclude (x : Recording Bool) (t : Term) (depth : Int)
    (before : List Judgment) :
    answer ((x >>= fun v => conclude t v depth) before) = answer (x before) := by
  cases h : x before <;> simp [bind, EStateM.bind, h, conclude, answer]

end Recording

namespace Term

open Recording

/-- Evaluation on record answers like evaluation without one. -/
theorem answer_recordAt (t : Term) (depth : Int) (before : List Judgment) :
    answer (t.recordAt depth before) = t.evaluate := by
  induction t generalizing depth before with
  | lit value => rfl
  | ite c a b hc ha hb =>
      have hcondition := hc (depth + 1) before
      cases hrecord : c.recordAt (depth + 1) before with
      | error f after =>
          rw [hrecord] at hcondition
          rw [recordAt_ite_error hrecord, evaluate_ite_error hcondition.symm]
          rfl
      | ok v after =>
          rw [hrecord] at hcondition
          rw [recordAt_ite_ok hrecord, answer_bind_conclude, evaluate_ite_ok hcondition.symm]
          cases v with
          | true => exact ha (depth + 1) after
          | false => exact hb (depth + 1) after
  | foreign node => rfl

end Term

/-! ## Agreement with the rules -/

/-- The outcome is the one that the rules give to the term: its value, or, if
it has none, a fault that names the only foreign node on the way of its
evaluation. -/
structure FollowsRules (t : Term) (outcome : Except Fault Bool) : Prop where
  value_iff : ∀ v, outcome = .ok v ↔ Evaluates t v
  error_iff : (∃ f, outcome = .error f) ↔ ¬ ∃ v, Evaluates t v
  error_names : ∀ f, outcome = .error f → f.kind = "TypeError" ∧
    ∃ position node, t.Visits position (.foreign node) ∧
      (∀ position' node', t.Visits position' (.foreign node') →
        position' = position ∧ node' = node) ∧
      f.detail = "cannot evaluate " ++ node.form ++ ", expected an Expr"

theorem evaluate_eq_error_iff {t : Term} :
    (∃ f, t.evaluate = .error f) ↔ ¬ ∃ v, Evaluates t v := by
  cases h : t.evaluate with
  | ok v =>
      have hvalue : ∃ v, Evaluates t v := ⟨v, evaluates_of_evaluate h⟩
      simp [hvalue]
  | error f =>
      have hnone : ¬ ∃ v, Evaluates t v := by
        rintro ⟨v, hv⟩
        rw [hv.evaluate_eq] at h
        contradiction
      simp [hnone]

/-- **Evaluation follows the rules.**  A term has at most one value by the
rules.  Evaluation gives this value, or else fails for the one foreign node on
its way; and it comes to the same on record, whatever is on record before. -/
theorem evaluate_follows_rules (t : Term) :
    (∀ v w, Evaluates t v → Evaluates t w → v = w) ∧ FollowsRules t t.evaluate ∧
      ∀ before, Recording.answer (t.record before) = t.evaluate := by
  refine ⟨fun v w => Evaluates.unique, ?_, t.answer_recordAt 0⟩
  refine ⟨fun v => evaluate_eq_ok_iff, evaluate_eq_error_iff, fun f h => ?_⟩
  obtain ⟨position, node, hvisits, rfl⟩ := Term.exists_visits_foreign h
  exact ⟨rfl, position, node, hvisits, fun _ _ => hvisits.unique_foreign, rfl⟩

end Conditional

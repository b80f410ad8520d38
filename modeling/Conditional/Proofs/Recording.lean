import Conditional.Proofs.BigStep

/-!
# Conditional.Proofs.Recording

What evaluation puts on record.  `Records` describes the judgments of a whole
evaluation: those of the condition, those of the branch that is taken, and
then the judgment about the conditional itself.  Every term with a value has
such judgments, and evaluation on record adds exactly them
(`Evaluates.exists_recordAt`).

A record is a derivation in postfix order, so it can be checked without the
term: on a stack, a conditional takes away the judgments about its condition
and its branch, which are its premises, and puts itself in their place
(`Judgment.check`).  Checked in this way, the record of an evaluation leaves
the judgment about the whole term and nothing else (`record_accepted`).
-/

namespace Conditional

/-! ## The judgments of an evaluation -/

/-- The judgments are those of an evaluation of the term, at a depth and to a
value, in the order in which they are put on record. -/
inductive Records : Int → Term → Bool → List Judgment → Prop where
  | lit {depth : Int} (value : Bool) :
      Records depth (.lit value) value [⟨.lit value, value, depth⟩]
  | ite {depth : Int} {c a b : Term} {v w : Bool} {first second : List Judgment} :
      Records (depth + 1) c v first → Records (depth + 1) (if v then a else b) w second →
      Records depth (.ite c a b) w (first ++ second ++ [⟨.ite c a b, w, depth⟩])

/-- An evaluation has its judgments, at any depth. -/
theorem Evaluates.exists_records {t : Term} {v : Bool} (h : Evaluates t v) (depth : Int) :
    ∃ judgments, Records depth t v judgments := by
  induction h generalizing depth with
  | lit value => exact ⟨_, .lit value⟩
  | ifTrue _ _ hc ha =>
      obtain ⟨first, hfirst⟩ := hc (depth + 1)
      obtain ⟨second, hsecond⟩ := ha (depth + 1)
      exact ⟨_, .ite hfirst hsecond⟩
  | ifFalse _ _ hc hb =>
      obtain ⟨first, hfirst⟩ := hc (depth + 1)
      obtain ⟨second, hsecond⟩ := hb (depth + 1)
      exact ⟨_, .ite hfirst hsecond⟩

namespace Records

variable {depth : Int} {t : Term} {v : Bool} {judgments : List Judgment}

/-- They are what evaluation on record adds. -/
theorem recordAt_eq (h : Records depth t v judgments) (before : List Judgment) :
    t.recordAt depth before = .ok v (before ++ judgments) := by
  induction h generalizing before with
  | lit value => rfl
  | @ite depth c a b v w first second _ _ hc hbranch =>
      rw [Term.recordAt_ite_ok (hc before)]
      simp [bind, EStateM.bind, hbranch, conclude]

/-- They are about subterms of the term, so they are about native terms if it
is native. -/
theorem native (h : Records depth t v judgments) (hnative : t.Native) :
    ∀ j ∈ judgments, j.term.Native := by
  induction h with
  | lit value => simp [Term.Native]
  | @ite depth c a b v w first second _ _ hc hbranch =>
      obtain ⟨nc, na, nb⟩ := Term.native_ite.1 hnative
      have hfirst := hc nc
      have hsecond := hbranch (by cases v <;> assumption)
      simpa [or_imp, forall_and] using ⟨hfirst, hsecond, hnative⟩

end Records

/-- Evaluation on record adds the judgments of the evaluation, which are about
native terms if the term is native. -/
theorem Evaluates.exists_recordAt {t : Term} {v : Bool} (h : Evaluates t v) (hnative : t.Native)
    (depth : Int) (before : List Judgment) :
    ∃ added, t.recordAt depth before = .ok v (before ++ added) ∧
      ∀ j ∈ added, j.term.Native := by
  obtain ⟨added, hadded⟩ := h.exists_records depth
  exact ⟨added, hadded.recordAt_eq before, hadded.native hnative⟩

/-! ## Checking judgments -/

namespace Judgment

/-- Checks a judgment against the judgments on a stack.  A literal has its own
value.  A conditional has the value of the branch that its condition selects;
both have to be on top of the stack, one level deeper, the branch above the
condition, and the judgment takes their place. -/
def check (stack : List Judgment) (j : Judgment) : Option (List Judgment) :=
  match j.term, stack with
  | .lit value, stack => if j.value = value then some (j :: stack) else none
  | .ite c a b, branch :: condition :: rest =>
    if condition = ⟨c, condition.value, j.depth + 1⟩ ∧
        branch = ⟨if condition.value then a else b, j.value, j.depth + 1⟩ then
      some (j :: rest)
    else none
  | _, _ => none

/-- Checks judgments one after another. -/
def checkAll (stack judgments : List Judgment) : Option (List Judgment) :=
  judgments.foldlM check stack

theorem checkAll_append (stack first second : List Judgment) :
    checkAll stack (first ++ second) = (checkAll stack first).bind (checkAll · second) :=
  List.foldlM_append

theorem checkAll_singleton (stack : List Judgment) (j : Judgment) :
    checkAll stack [j] = check stack j := by
  simp [checkAll]

end Judgment

open Judgment

/-- The judgments of an evaluation are accepted, whatever is on the stack, and
leave the judgment about the whole term on top of it. -/
theorem Records.checkAll_eq {depth : Int} {t : Term} {v : Bool} {judgments : List Judgment}
    (h : Records depth t v judgments) (stack : List Judgment) :
    checkAll stack judgments = some (⟨t, v, depth⟩ :: stack) := by
  induction h generalizing stack with
  | lit value => simp [checkAll_singleton, check]
  | ite _ _ hc hbranch =>
      rw [checkAll_append, checkAll_append, hc, Option.bind_some, hbranch, Option.bind_some,
        checkAll_singleton]
      simp [check]

/-- **A record is a derivation.**  If a term has a value, evaluation on record
adds judgments behind those that are on record before, and the added judgments
check out, with the judgment about the whole term as the only one left. -/
theorem record_accepted {t : Term} {v : Bool} (h : t.evaluate = .ok v) (before : List Judgment) :
    ∃ added, t.record before = .ok v (before ++ added) ∧
      checkAll [] added = some [⟨t, v, 0⟩] := by
  obtain ⟨added, hadded⟩ := (evaluates_of_evaluate h).exists_records 0
  exact ⟨added, hadded.recordAt_eq before, hadded.checkAll_eq []⟩

/-- A conditional that negates a conditional, with foreign nodes in the
branches that are not taken. -/
def negation : Term :=
  .ite (.ite (.lit false) (.foreign (.datum "int")) (.lit true)) (.lit false)
    (.foreign (.extension "Opaque" "?"))

theorem record_accepted_negation :
    negation.evaluate = .ok false ∧
      ∃ added, negation.record [⟨.lit true, true, 3⟩] =
          .ok false ([⟨.lit true, true, 3⟩] ++ added) ∧
        checkAll [] added = some [⟨negation, false, 0⟩] := by
  have hvalue : negation.evaluate = .ok false := rfl
  exact ⟨hvalue, record_accepted hvalue _⟩

end Conditional

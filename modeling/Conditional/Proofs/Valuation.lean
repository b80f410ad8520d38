import Conditional.Grammar
import Conditional.Proofs.Recording
import Conditional.Session

/-!
# Conditional.Proofs.Valuation

Native terms have values, and their values can be shown.  The rules of the
big-step relation give every native term a value, which evaluation finds.  A
native term can be rendered, and so can the judgments on record, since they
are about its subterms.  So a session has something to print for every native
term (`Term.Native.exists_prints`), and only one thing
(`Session.Prints.unique`).
-/

namespace Conditional

/-! ## Values -/

theorem Term.Native.exists_evaluates {t : Term} (h : t.Native) : ∃ v, Evaluates t v := by
  induction t with
  | lit value => exact ⟨value, .lit value⟩
  | ite c a b hc ha hb =>
      obtain ⟨nc, na, nb⟩ := Term.native_ite.1 h
      obtain ⟨v, hv⟩ := hc nc
      cases v with
      | true =>
          obtain ⟨w, hw⟩ := ha na
          exact ⟨w, .ifTrue hv hw⟩
      | false =>
          obtain ⟨w, hw⟩ := hb nb
          exact ⟨w, .ifFalse hv hw⟩
  | foreign node => exact h.elim

/-! ## Renderings -/

theorem Term.Native.exists_text {t : Term} (h : t.Native) : ∃ s, t.text = .ok s := by
  obtain ⟨s, hs, -⟩ := h.spells
  exact ⟨s, hs⟩

theorem Term.Native.exists_display {t : Term} (h : t.Native) (level : Int) :
    ∃ s, t.display level = .ok s := by
  induction t generalizing level with
  | lit value => exact ⟨_, rfl⟩
  | ite c a b hc ha hb =>
      obtain ⟨s, hs⟩ := h.exists_text
      obtain ⟨nc, na, nb⟩ := Term.native_ite.1 h
      obtain ⟨sc, hsc⟩ := hc nc (level + 1)
      obtain ⟨sa, hsa⟩ := ha na (level + 1)
      obtain ⟨sb, hsb⟩ := hb nb (level + 1)
      simp only [Term.display, Term.header, hs, hsc, hsa, hsb, bind, Except.bind, pure, Except.pure]
      exact ⟨_, rfl⟩
  | foreign node => exact h.elim

theorem exists_derivation {judgments : List Judgment} (h : ∀ j ∈ judgments, j.term.Native) :
    ∃ s, derivation judgments = .ok s := by
  have hlines : ∃ lines, judgments.mapM Judgment.line = .ok lines := by
    induction judgments with
    | nil => exact ⟨[], rfl⟩
    | cons j judgments ih =>
        obtain ⟨lines, hlines⟩ := ih fun j' hj' => h j' (List.mem_cons_of_mem j hj')
        obtain ⟨s, hs⟩ := (h j List.mem_cons_self).exists_text
        rw [List.mapM_cons, hlines, Judgment.line, Judgment.text, hs]
        exact ⟨_, rfl⟩
  obtain ⟨lines, hlines⟩ := hlines
  rw [derivation, hlines]
  exact ⟨_, rfl⟩

/-! ## Results -/

namespace Session

/-- The document is what a session prints for a term: the value of the term,
rendered as the view asks for it, on lines of its own. -/
def Prints (view : View) (t : Term) (d : Doc) : Prop :=
  ∃ (number : Int) (r : Result) (shown : Text),
    result view.trace number t = .ok r ∧ Evaluates t r.value ∧ render view r = .ok shown ∧
      d = Doc.plain shown ++ Doc.plain ['\n']

/-- The number of a result is that of its statement, and nothing else about
the result depends on it. -/
theorem result_number (trace : Bool) (number : Int) (t : Term) :
    result trace number t = (result trace 0 t).map fun r => { r with number := number } := by
  cases trace with
  | true =>
      simp only [result, if_true]
      cases t.record [] <;> rfl
  | false =>
      simp only [result, Bool.false_eq_true, if_false]
      cases t.evaluate <;> rfl

/-- A session prints one thing for a term, whatever the number of the
statement. -/
theorem Prints.unique {view : View} {t : Term} {d d' : Doc} (h : Prints view t d)
    (h' : Prints view t d') : d = d' := by
  obtain ⟨number, r, shown, hr, -, hshown, rfl⟩ := h
  obtain ⟨number', r', shown', hr', -, hshown', rfl⟩ := h'
  rw [result_number] at hr hr'
  cases hresult : result view.trace 0 t with
  | error f =>
      rw [hresult] at hr
      contradiction
  | ok r₀ =>
      rw [hresult] at hr hr'
      obtain rfl := Except.ok.inj hr
      obtain rfl := Except.ok.inj hr'
      have hsame : Except.ok shown = Except.ok shown' := hshown.symm.trans hshown'
      rw [Except.ok.inj hsame]

end Session

/-- A result tells the number, the term and the value of its statement. -/
theorem Session.eq_of_result {trace : Bool} {number : Int} {t : Term} {r : Result}
    (h : result trace number t = .ok r) : r.number = number ∧ r.term = t := by
  cases trace with
  | true =>
      rw [result, if_pos rfl] at h
      cases hrecord : t.record [] with
      | ok value judgments =>
          rw [hrecord] at h
          cases h
          exact ⟨rfl, rfl⟩
      | error f judgments =>
          rw [hrecord] at h
          contradiction
  | false =>
      rw [result, if_neg Bool.false_ne_true] at h
      cases hvalue : t.evaluate with
      | ok value =>
          rw [hvalue] at h
          cases h
          exact ⟨rfl, rfl⟩
      | error f =>
          rw [hvalue] at h
          contradiction

/-- A native term has a result, and its result can be rendered in any view,
also in one that was not asked for when the result was made. -/
theorem Term.Native.exists_result_shown {t : Term} (h : t.Native) (trace : Bool) (number : Int) :
    ∃ r, Session.result trace number t = .ok r ∧ Evaluates t r.value ∧
      ∀ view, ∃ shown, Session.render view r = .ok shown := by
  obtain ⟨v, hv⟩ := h.exists_evaluates
  have hresult : ∃ judgments, Session.result trace number t = .ok ⟨number, t, v, judgments⟩ ∧
      ∀ j ∈ judgments, j.term.Native := by
    cases trace with
    | true =>
        obtain ⟨judgments, hrecord, hnative⟩ := hv.exists_recordAt h 0 []
        refine ⟨judgments, ?_, hnative⟩
        rw [Session.result, if_pos rfl, Term.record, hrecord]
        rfl
    | false =>
        refine ⟨[], ?_, by simp⟩
        rw [Session.result, hv.evaluate_eq]
        rfl
  obtain ⟨judgments, hresult, hnative⟩ := hresult
  obtain ⟨tree, htree⟩ := h.exists_display 0
  obtain ⟨lines, hlines⟩ := exists_derivation hnative
  refine ⟨_, hresult, hv, fun view => ?_⟩
  rw [Session.render, htree, hlines]
  cases view.tree <;> cases view.trace <;> exact ⟨_, rfl⟩

/-- A native term has a result, and its result can be rendered. -/
theorem Term.Native.exists_result {t : Term} (h : t.Native) (view : View) (number : Int) :
    ∃ (r : Result) (shown : Text), Session.result view.trace number t = .ok r ∧
      Evaluates t r.value ∧ Session.render view r = .ok shown := by
  obtain ⟨r, hr, hvalue, hshown⟩ := h.exists_result_shown view.trace number
  obtain ⟨shown, hshown⟩ := hshown view
  exact ⟨r, shown, hr, hvalue, hshown⟩

theorem Term.Native.exists_prints {t : Term} (h : t.Native) (view : View) :
    ∃ d, Session.Prints view t d := by
  obtain ⟨r, shown, hr, hvalue, hshown⟩ := h.exists_result view 0
  exact ⟨_, 0, r, shown, hr, hvalue, hshown, rfl⟩

end Conditional

import Conditional.Proofs.Canonical
import Conditional.Proofs.Lines
import Mathlib.Data.List.Basic

/-!
# Conditional.Proofs.WrittenRecord

What is written down of a record tells the record.  A judgment is written on one
line, of which the margin tells the depth, what stands before the judgment sign
tells the term, and what stands behind it tells the value
(`Judgment.leftUnique_writes`).  A written derivation can be taken apart into these
lines.  So two records are written in the same way only if they are the same record
(`derivation_determines_record`).

In the record of an evaluation, the conclusion comes last and all the other
judgments stand deeper.  So the conclusion is written without a margin, and
everything before it has one.
-/

namespace Conditional

theorem spellBool_injective : Function.Injective spellBool := by
  intro v w h
  cases v <;> cases w <;> first | rfl | contradiction

/-- Native terms with the same text are equal. -/
theorem Term.Native.eq_of_text_eq {t t' : Term} {s : Text} (h : t.Native) (h' : t'.Native)
    (htext : t.text = .ok s) (htext' : t'.text = .ok s) : t = t' := by
  obtain ⟨u, hu, hspells⟩ := h.spells
  obtain ⟨u', hu', hspells'⟩ := h'.spells
  obtain rfl := Except.ok.inj (htext.symm.trans hu)
  obtain rfl := Except.ok.inj (htext'.symm.trans hu')
  exact h.eq_of_tokens_eq h' (hspells.unique hspells')

/-! ## Judgments in writing -/

namespace Judgment

/-- The judgment is about a native term that does not stand above the root. -/
structure Proper (j : Judgment) : Prop where
  native : j.term.Native
  depth_nonneg : 0 ≤ j.depth

/-- What is written about a term with the given text and a value. -/
def statement (s : Text) (value : Bool) : Text := s ++ ' ' :: '⇓' :: ' ' :: spellBool value

/-- The judgment is proper and is written on the line. -/
structure Writes (j : Judgment) (line : Text) : Prop where
  proper : j.Proper
  line_eq : j.line = .ok line

variable {j j' : Judgment} {s s' : Text}

theorem text_eq_statement (h : j.term.text = .ok s) : j.text = .ok (statement s j.value) := by
  rw [text, h]
  simp [bind, Except.bind, pure, Except.pure, statement, Text.lit]

theorem line_eq_fill (h : j.term.text = .ok s) :
    j.line = .ok (Text.fill ' ' (2 * j.depth) ++ statement s j.value) := by
  rw [line, text_eq_statement h]
  rfl

theorem head?_statement (h : s.Inline) (value : Bool) : (statement s value).head? ≠ some ' ' := by
  rw [statement, List.head?_append_of_ne_nil _ h.ne_nil]
  exact h.head?_ne

/-- What is written about a term and a value tells both. -/
theorem statement_inj {v v' : Bool} (hs : s.Inline) (h : statement s v = statement s' v') :
    s = s' ∧ v = v' := by
  have hvalue : '⇓' ∉ ' ' :: spellBool v := by cases v <;> decide
  have hterm : '⇓' ∉ s ++ [' '] := by simpa using hs.sign_not_mem
  have hsplit : s ++ [' '] ++ '⇓' :: ' ' :: spellBool v =
      s' ++ [' '] ++ '⇓' :: ' ' :: spellBool v' := by
    simpa [statement] using h
  obtain ⟨hterms, -, hvalues⟩ := (List.append_cons_inj_of_notMem hterm hvalue).1 hsplit
  exact ⟨List.append_cancel_right hterms, spellBool_injective (List.cons.inj hvalues).2⟩

theorem Proper.exists_writes (h : j.Proper) : ∃ line, j.Writes line := by
  obtain ⟨s, hs⟩ := h.native.exists_text
  exact ⟨_, h, line_eq_fill hs⟩

/-- A judgment is written on one line, of which the margin has two columns for each
level. -/
theorem Writes.isLine_margin {line : Text} (h : j.Writes line) :
    line.IsLine ∧ line.margin = 2 * j.depth := by
  obtain ⟨⟨hnative, hdepth⟩, hline⟩ := h
  obtain ⟨s, hs⟩ := hnative.exists_text
  have hinline := hnative.inline hs
  obtain rfl := Except.ok.inj (hline.symm.trans (line_eq_fill hs))
  constructor
  · apply Text.isLine_fill
    · simp [statement]
    · have hvalue : '\n' ∉ spellBool j.value := by cases j.value <;> decide
      simp [statement, hinline.lineFeed_not_mem, hvalue]
  · rw [Text.margin_fill _ (head?_statement hinline j.value)]
    omega

/-- The line that a judgment is written on tells the judgment. -/
theorem leftUnique_writes : Relator.LeftUnique Writes := by
  intro j j' line h h'
  have hmargin := h.isLine_margin.2
  have hmargin' := h'.isLine_margin.2
  have hdepth : j.depth = j'.depth := by omega
  obtain ⟨s, hs⟩ := h.proper.native.exists_text
  obtain ⟨s', hs'⟩ := h'.proper.native.exists_text
  have hline := h.line_eq.symm.trans (line_eq_fill hs)
  have hline' := h'.line_eq.symm.trans (line_eq_fill hs')
  rw [← hdepth] at hline'
  have hstatements := List.append_cancel_left (Except.ok.inj (hline.symm.trans hline'))
  obtain ⟨rfl, hvalue⟩ := statement_inj (h.proper.native.inline hs) hstatements
  have hterm := h.proper.native.eq_of_text_eq h'.proper.native hs hs'
  obtain ⟨t, v, depth⟩ := j
  obtain ⟨t', v', depth'⟩ := j'
  obtain rfl : t = t' := hterm
  obtain rfl : v = v' := hvalue
  obtain rfl : depth = depth' := hdepth
  rfl

end Judgment

open Judgment

/-! ## Derivations in writing -/

variable {js : List Judgment} {ls : List Text}

theorem derivation_of_writes (h : List.Forall₂ Writes js ls) :
    derivation js = .ok (Text.join ['\n'] ls) := by
  have hlines : js.mapM Judgment.line = .ok ls := by
    induction h with
    | nil => rfl
    | cons hj _ ih =>
        rw [List.mapM_cons, hj.line_eq, ih]
        rfl
  rw [derivation, hlines]
  rfl

theorem exists_writes (h : ∀ j ∈ js, j.Proper) : ∃ ls, List.Forall₂ Writes js ls := by
  induction js with
  | nil => exact ⟨[], .nil⟩
  | cons j js ih =>
      obtain ⟨line, hline⟩ := (h j List.mem_cons_self).exists_writes
      obtain ⟨ls, hls⟩ := ih fun j' hj' => h j' (List.mem_cons_of_mem j hj')
      exact ⟨line :: ls, .cons hline hls⟩

/-- A derivation is written with a line for each judgment. -/
theorem lines_of_writes (h : List.Forall₂ Writes js ls) :
    Text.lines (Text.join ['\n'] ls) = ls :=
  Text.lines_join fun _ hline =>
    have ⟨_, _, hwrites⟩ := exists_left_of_mem h hline
    hwrites.isLine_margin.1

/-! ## Records -/

/-- The last judgment of a record is the conclusion, and the others stand deeper. -/
theorem Records.exists_premises {depth : Int} {t : Term} {v : Bool} {judgments : List Judgment}
    (h : Records depth t v judgments) :
    ∃ premises, judgments = premises ++ [⟨t, v, depth⟩] ∧ ∀ j ∈ premises, depth < j.depth := by
  induction h with
  | lit value => exact ⟨[], rfl, by simp⟩
  | @ite depth c a b v w first second _ _ hc hbranch =>
      refine ⟨first ++ second, rfl, fun j hj => ?_⟩
      have deeper {premises : List Judgment} {u : Term} {x : Bool}
          (hpremises : ∀ j ∈ premises, depth + 1 < j.depth)
          (hmem : j ∈ premises ++ [⟨u, x, depth + 1⟩]) : depth < j.depth := by
        obtain hmem | hmem := List.mem_append.1 hmem
        · exact Int.lt_trans (by omega) (hpremises j hmem)
        · rw [List.mem_singleton.1 hmem]
          exact Int.lt_succ depth
      obtain ⟨premises, rfl, hpremises⟩ := hc
      obtain ⟨premises', rfl, hpremises'⟩ := hbranch
      obtain hj | hj := List.mem_append.1 hj
      · exact deeper hpremises hj
      · exact deeper hpremises' hj

/-- **The written derivation determines the record.**  Two records of proper
judgments are written in the same way exactly if they are equal.  And the record of
an evaluation of a native term is written with a line for each judgment, the last of
which is the conclusion without a margin, and all the others of which have margins. -/
theorem derivation_determines_record :
    (∀ js js' : List Judgment, (∀ j ∈ js, j.Proper) → (∀ j ∈ js', j.Proper) →
      ∃ text text', derivation js = .ok text ∧ derivation js' = .ok text' ∧
        (text = text' ↔ js = js')) ∧
    ∀ t : Term, t.Native → ∃ v premises text indented conclusion,
      Evaluates t v ∧ t.record [] = .ok v (premises ++ [⟨t, v, 0⟩]) ∧
      derivation (premises ++ [⟨t, v, 0⟩]) = .ok text ∧
      Text.lines text = indented ++ [conclusion] ∧ List.Forall₂ Writes premises indented ∧
      Judgment.text ⟨t, v, 0⟩ = .ok conclusion ∧ conclusion.margin = 0 ∧
      ∀ line ∈ indented, 2 ≤ line.margin := by
  constructor
  · intro js js' hproper hproper'
    obtain ⟨ls, hls⟩ := exists_writes hproper
    obtain ⟨ls', hls'⟩ := exists_writes hproper'
    refine ⟨_, _, derivation_of_writes hls, derivation_of_writes hls', fun h => ?_, ?_⟩
    · have hlines : ls = ls' := by rw [← lines_of_writes hls, h, lines_of_writes hls']
      exact List.left_unique_forall₂' leftUnique_writes hls (hlines ▸ hls')
    · rintro rfl
      exact Except.ok.inj ((derivation_of_writes hls).symm.trans (derivation_of_writes hls'))
  · intro t hnative
    obtain ⟨v, hv⟩ := hnative.exists_evaluates
    obtain ⟨judgments, hjudgments⟩ := hv.exists_records 0
    have hnatives := hjudgments.native hnative
    have hrecord := hjudgments.recordAt_eq []
    obtain ⟨premises, rfl, hdepth⟩ := hjudgments.exists_premises
    have hproper : ∀ j ∈ premises, j.Proper := fun j hj =>
      ⟨hnatives j (List.mem_append_left _ hj), Int.le_of_lt (hdepth j hj)⟩
    obtain ⟨indented, hindented⟩ := exists_writes hproper
    obtain ⟨s, hs⟩ := hnative.exists_text
    have hconclusion : Writes ⟨t, v, 0⟩ (statement s v) :=
      ⟨⟨hnative, Int.le_refl 0⟩, line_eq_fill hs⟩
    have hall := List.rel_append hindented (.cons hconclusion .nil)
    refine ⟨v, premises, _, indented, statement s v, hv, hrecord, derivation_of_writes hall,
      lines_of_writes hall, hindented, text_eq_statement hs, ?_, ?_⟩
    · exact Int.ofNat.inj hconclusion.isLine_margin.2
    · intro line hline
      obtain ⟨j, hj, hwrites⟩ := exists_left_of_mem hindented hline
      have hmargin := hwrites.isLine_margin.2
      have hdeeper := hdepth j hj
      omega

theorem derivation_determines_record_within :
    (∃ text text', derivation [⟨.lit true, true, 0⟩] = .ok text ∧
      derivation [⟨.lit true, true, 1⟩] = .ok text' ∧ text ≠ text') ∧
    ∃ v premises text indented conclusion,
      conditionalWithin.record [] = .ok v (premises ++ [⟨conditionalWithin, v, 0⟩]) ∧
      derivation (premises ++ [⟨conditionalWithin, v, 0⟩]) = .ok text ∧
      Text.lines text = indented ++ [conclusion] ∧ conclusion.margin = 0 ∧
      ∀ line ∈ indented, 2 ≤ line.margin := by
  have hproper (depth : Int) (hdepth : 0 ≤ depth) :
      ∀ j ∈ [(⟨.lit true, true, depth⟩ : Judgment)], j.Proper := by
    intro j hj
    rw [List.mem_singleton.1 hj]
    exact ⟨trivial, hdepth⟩
  have hnative : conditionalWithin.Native := by simp [conditionalWithin, Term.Native]
  obtain ⟨hsame, htrace⟩ := derivation_determines_record
  constructor
  · obtain ⟨text, text', htext, htext', hiff⟩ :=
      hsame _ _ (hproper 0 (by decide)) (hproper 1 (by decide))
    exact ⟨text, text', htext, htext', fun h => absurd (hiff.1 h) (by decide)⟩
  · obtain ⟨v, premises, text, indented, conclusion, -, hrecord, htext, hlines, -, -, hmargins⟩ :=
      htrace _ hnative
    exact ⟨v, premises, text, indented, conclusion, hrecord, htext, hlines, hmargins⟩

end Conditional

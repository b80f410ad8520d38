import Conditional.Proofs.Reports
import Conditional.Proofs.Trimming

/-!
# Conditional.Proofs.Blame

Whom a report blames.  The report of an internal problem has a label that says
so (`internalLabel`); a report about the user's text has nothing in it that
looks like the label.  Its message is plain or bold, and what it marks is a single
character or a part of a text that spells tokens, and neither of these could
be taken for the label (`SourceError.marked_ne`).  So a mistake in a source
text is never reported as internal
(`SourceError.internalLabel_not_mem_announcement`).
-/

namespace Conditional

/-- The label in the report of an internal problem. -/
def internalLabel : Span := ⟨.error, "[internal] "⟩

/-- What is plain or bold is no label. -/
theorem internalLabel_not_mem {d : Doc}
    (h : ∀ span ∈ d, span.face = .plain ∨ span.face = .bold) : internalLabel ∉ d := by
  intro hmem
  obtain hface | hface := h _ hmem
  · contradiction
  · contradiction

@[simp] theorem internalLabel_not_mem_plain (t : Text) : internalLabel ∉ Doc.plain t :=
  internalLabel_not_mem (by simp [Doc.plain])

theorem internalLabel_mem_styled {t : Text} (h : internalLabel ∈ Doc.styled .error t) :
    t = internalLabel.text := (congrArg Span.text (List.mem_singleton.1 h)).symm

namespace Problem

/-- The part of its subject that a diagnosis marks. -/
def marked (p : Problem) : Text := p.subject.between p.start (max p.stop (p.start + 1))

/-- A diagnosis has no label, unless the part that it marks looks like one. -/
theorem internalLabel_not_mem_diagnosis {p : Problem} (hmarked : p.marked ≠ internalLabel.text) :
    internalLabel ∉ p.diagnosis .error := by
  intro hmem
  simp only [diagnosis, List.mem_append, internalLabel_not_mem_plain, false_or, or_false] at hmem
  obtain hmark | hcaret := hmem
  · exact hmarked (internalLabel_mem_styled hmark)
  · have hhead : some '^' = some '[' := congrArg List.head? (internalLabel_mem_styled hcaret)
    contradiction

/-- The report of a problem has the label if the problem is internal. -/
theorem internalLabel_mem_announcement_iff {p : Problem} {heading : Text}
    (hmessage : ∀ span ∈ p.message, span.face = .plain ∨ span.face = .bold)
    (hmarked : p.showsSubject → p.marked ≠ internalLabel.text) :
    internalLabel ∈ p.announcement heading ↔ p.internal := by
  have hplain := internalLabel_not_mem hmessage
  have herror : internalLabel ∉ Doc.styled .error "error: " := by decide
  have hsubject :
      internalLabel ∉ if p.showsSubject then p.diagnosis .error ++ Doc.plain ['\n'] else [] := by
    split_ifs with hshows
    · simpa using internalLabel_not_mem_diagnosis (hmarked hshows)
    · exact List.not_mem_nil
  simp only [announcement, List.mem_append, internalLabel_not_mem_plain, hplain, herror, hsubject,
    false_or, or_false]
  cases p.internal with
  | true => exact iff_of_true (List.mem_singleton_self _) rfl
  | false => simp

end Problem

/-! ## Mistakes in a source text -/

/-- What stands at one offset of a text has at most one character. -/
theorem Text.length_between_succ_le (t : Text) (offset : Nat) :
    (t.between offset (offset + 1)).length ≤ 1 := by
  simp only [between, cut, List.length_drop, List.length_take]
  split_ifs <;> omega

/-- Whatever stands between two offsets of a text is in it. -/
theorem Text.mem_of_mem_between {t : Text} {start stop : Int} {c : Char}
    (h : c ∈ t.between start stop) : c ∈ t :=
  List.mem_of_mem_take (List.mem_of_mem_drop h)

/-- A text that spells tokens has no brackets. -/
theorem Spells.bracket_not_mem {s : Text} {ts : List Token} (h : Spells s ts) : '[' ∉ s :=
  h.not_mem (by decide) fun t => by cases t <;> decide

/-- A lexical error is about one character. -/
theorem LexError.span_of_problem {source : Text} {p : Problem} (e : LexError)
    (h : e.problem source = .ok p) : p.start = e.position ∧ p.stop = p.start + 1 := by
  obtain ⟨message, subject, rest, -, -, rfl⟩ := Notice.eq_of_problem h
  have hstop : (if (e.position : Int) + 1 = -1 then (subject.length : Int) else e.position + 1) =
      e.position + 1 := if_neg (by omega)
  exact ⟨rfl, hstop⟩

namespace SourceError

variable {source : Text} {e : SourceError} {p : Problem}

/-- The source of a grammatical error spells tokens. -/
theorem exists_spells {e : ParseError} (h : parse source = .error (.grammatical e)) :
    ∃ ts, Spells source ts := by
  cases htokenize : tokenize source with
  | error e' => simp [parse, htokenize] at h
  | ok lexemes =>
      obtain ⟨ts, hspells, -⟩ := spells_of_tokenize htokenize
      exact ⟨ts, hspells⟩

/-- What the report of a mistake marks does not look like the label. -/
theorem marked_ne (h : parse source = .error e) (hp : e.problem source = .ok p) :
    p.marked ≠ internalLabel.text := by
  intro hmarked
  cases e with
  | lexical e =>
      obtain ⟨hstart, hstop⟩ := e.span_of_problem hp
      have hlength := p.subject.length_between_succ_le e.position
      rw [Problem.marked, hstop, hstart, Int.max_eq_right (Int.le_refl _)] at hmarked
      rw [hmarked] at hlength
      contradiction
  | grammatical e =>
      obtain ⟨ts, hspells⟩ := exists_spells h
      have hbracket : '[' ∈ p.marked := by
        rw [hmarked]
        decide
      have hsource := Text.mem_of_mem_between hbracket
      rw [(eq_of_problem hp).1] at hsource
      exact hspells.bracket_not_mem hsource

/-- The message about a mistake is plain or bold. -/
theorem face_of_message (hp : e.problem source = .ok p) :
    ∀ span ∈ p.message, span.face = .plain ∨ span.face = .bold := by
  obtain ⟨n, cause, hn, -⟩ := exists_notice hp
  obtain ⟨message, subject, rest, hfill, -, rfl⟩ := Notice.eq_of_problem hn
  exact Template.face_of_fillPieces hfill

/-- A mistake in a source text is never reported as internal. -/
theorem internalLabel_not_mem_announcement (h : parse source = .error e)
    (hp : e.problem source = .ok p) (heading : Text) :
    internalLabel ∉ p.announcement heading := by
  rw [Problem.internalLabel_mem_announcement_iff (face_of_message hp) fun _ => marked_ne h hp,
    (eq_of_problem hp).2.2]
  simp

end SourceError

end Conditional

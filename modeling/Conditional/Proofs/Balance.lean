import Conditional.Proofs.Canonical
import Conditional.Proofs.Trimming
import Conditional.LogicalLine

/-!
# Conditional.Proofs.Balance

The parentheses of a text, counted.  The excess of a text is the number of
parentheses that it opens less the number that it closes; a statement goes on
as long as its excess is positive (`isOpen_iff`).  The excess of a text that
spells tokens is that of the tokens, and an expression has none, so a source
that denotes a term never asks for a further line
(`isOpen_eq_false_of_parse`).
-/

namespace Conditional

open Token

/-! ## Excess of a text -/

namespace Text

/-- The number of parentheses that the text opens, less the number that it
closes. -/
def excess (t : Text) : Int := t.count '(' - t.count ')'

@[simp] theorem excess_nil : excess [] = 0 := rfl

@[simp] theorem excess_append (t t' : Text) : excess (t ++ t') = t.excess + t'.excess := by
  simp only [excess, List.count_append]
  omega

@[simp] theorem excess_space_cons (t : Text) : excess (' ' :: t) = t.excess := by
  simp [excess]

theorem excess_of_blank {t : Text} (h : Blank t) : t.excess = 0 := by
  have hopen : '(' ∉ t := fun hmem => absurd (h _ hmem) (by decide)
  have hclose : ')' ∉ t := fun hmem => absurd (h _ hmem) (by decide)
  rw [excess, List.count_eq_zero_of_not_mem hopen, List.count_eq_zero_of_not_mem hclose]
  rfl

@[simp] theorem excess_trimEnd (t : Text) : excess (trimEnd t) = t.excess := by
  obtain ⟨w, hw, ht⟩ := exists_trimEnd t
  conv_rhs => rw [ht]
  rw [excess_append, excess_of_blank hw, Int.add_zero]

@[simp] theorem excess_trim (t : Text) : excess (trim t) = t.excess := by
  obtain ⟨v, w, hv, hw, ht⟩ := exists_trim t
  conv_rhs => rw [ht]
  rw [excess_append, excess_append, excess_of_blank hv, excess_of_blank hw, Int.add_zero,
    Int.zero_add]

end Text

namespace LogicalLine

theorem isOpen_iff {t : Text} : isOpen t ↔ 0 < t.excess := by
  rw [isOpen, decide_eq_true_iff, Text.excess]
  omega

@[simp] theorem excess_continued (t line : Text) :
    (continued t line).excess = t.excess + line.excess := by
  rw [continued, Text.excess_append, Text.excess_space_cons, Text.excess_trim]

end LogicalLine

/-! ## Excess of tokens -/

/-- The number of parentheses that the tokens open, less the number that they
close. -/
def excessOf (ts : List Token) : Int := ts.count lparen - ts.count rparen

theorem excessOf_append (ts us : List Token) :
    excessOf (ts ++ us) = excessOf ts + excessOf us := by
  simp only [excessOf, List.count_append]
  omega

theorem excessOf_cons (t : Token) (ts : List Token) :
    excessOf (t :: ts) = excessOf [t] + excessOf ts := excessOf_append [t] ts

/-- A text has the excess of the tokens that it spells. -/
theorem Spells.excess_eq {s : Text} {ts : List Token} (h : Spells s ts) :
    s.excess = excessOf ts := by
  induction h with
  | nil => rfl
  | @blank c s ts hc _ ih =>
      have hblank : Text.Blank [c] := by simpa [Text.Blank] using Text.isSpace_of_isBlank hc
      rw [← ih, ← List.singleton_append, Text.excess_append, Text.excess_of_blank hblank,
        Int.zero_add]
  | @token t s ts ht _ ih =>
      have hspelling : Text.excess t.spelling = excessOf [t] := by
        cases t with
        | endOfInput => exact absurd rfl ht
        | _ => rfl
      rw [Text.excess_append, ih, hspelling, excessOf_cons t ts]

/-- An expression closes the parentheses that it opens. -/
theorem Derives.excessOf_eq_zero {w : List Token} {t : Term} (h : Derives w t) :
    excessOf w = 0 := by
  induction h with
  | litTrue | litFalse => rfl
  | @conditional u v w _ _ _ _ _ _ hu hv hw =>
      have hif : excessOf [kwIf] = 0 := rfl
      have hthen : excessOf [kwThen] = 0 := rfl
      have helse : excessOf [kwElse] = 0 := rfl
      rw [List.cons_append, List.cons_append, excessOf_cons, excessOf_append, excessOf_append,
        excessOf_cons kwThen, excessOf_cons kwElse, hu, hv, hw, hif, hthen, helse]
      rfl
  | @group w _ _ ih =>
      have hopen : excessOf [lparen] = 1 := rfl
      have hclose : excessOf [rparen] = -1 := rfl
      rw [List.cons_append, excessOf_cons, excessOf_append, ih, hopen, hclose]
      rfl

/-- A source that denotes a term closes the parentheses that it opens. -/
theorem excess_of_parse {source : Text} {t : Term} (h : parse source = .ok t) :
    source.excess = 0 := by
  obtain ⟨w, k, hspells, hnests, -⟩ := parse_eq_ok_iff.1 h
  rw [hspells.excess_eq, hnests.derives.excessOf_eq_zero]

/-- A source that denotes a term is not continued. -/
theorem isOpen_eq_false_of_parse {source : Text} {t : Term} (h : parse source = .ok t) :
    LogicalLine.isOpen source = false := by
  rw [Bool.eq_false_iff]
  intro hopen
  have hpos := LogicalLine.isOpen_iff.1 hopen
  rw [excess_of_parse h] at hpos
  contradiction

end Conditional

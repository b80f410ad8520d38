import Conditional.Term
import Conditional.Token

/-!
# Conditional.Grammar

The language, without a word about how it is read.  `Spells` says which texts
spell which token sequences: blanks may stand anywhere between tokens, and
nothing has to.  `Derives` says which token sequences are expressions and of
which terms.

Every native term has a canonical token sequence, `Term.tokens`, which derives
it and which its canonical text spells.
-/

namespace Conditional

open Token

/-! ## Texts and tokens -/

/-- The text is a sequence of blanks and of spellings of the tokens, in their
order. -/
inductive Spells : Text → List Token → Prop where
  | nil : Spells [] []
  | blank {c : Char} {s : Text} {ts : List Token} :
      Text.isBlank c → Spells s ts → Spells (c :: s) ts
  | token {t : Token} {s : Text} {ts : List Token} :
      t ≠ endOfInput → Spells s ts → Spells (t.spelling ++ s) (t :: ts)

namespace Spells

theorem append {s s' : Text} {ts ts' : List Token} (h : Spells s ts) (h' : Spells s' ts') :
    Spells (s ++ s') (ts ++ ts') := by
  induction h with
  | nil => exact h'
  | blank hc _ ih => exact .blank hc ih
  | @token t _ _ ht _ ih =>
    rw [List.append_assoc]
    exact .token ht ih

theorem single {t : Token} (h : t ≠ endOfInput) : Spells t.spelling [t] := by
  simpa using token h .nil

theorem blankAfter {s : Text} {ts : List Token} (h : Spells s ts) : Spells (s ++ [' ']) ts := by
  simpa using h.append (.blank (by decide) .nil)

/-- A spelled sequence does not mention the end of the input. -/
theorem endOfInput_not_mem {s : Text} {ts : List Token} (h : Spells s ts) :
    endOfInput ∉ ts := by
  induction h with
  | nil => simp
  | blank _ _ ih => exact ih
  | token ht _ ih => simp [ih, Ne.symm ht]

end Spells

/-! ## Tokens and terms -/

/-- The token sequence is an expression of the term. -/
inductive Derives : List Token → Term → Prop where
  | litTrue : Derives [litTrue] (.lit true)
  | litFalse : Derives [litFalse] (.lit false)
  | conditional {u v w : List Token} {c a b : Term} :
      Derives u c → Derives v a → Derives w b →
      Derives (kwIf :: u ++ kwThen :: v ++ kwElse :: w) (.ite c a b)
  | group {w : List Token} {t : Term} : Derives w t → Derives (lparen :: w ++ [rparen]) t

namespace Derives

theorem native {w : List Token} {t : Term} (h : Derives w t) : t.Native := by
  induction h with
  | litTrue => trivial
  | litFalse => trivial
  | conditional _ _ _ hc ha hb => exact ⟨hc, ha, hb⟩
  | group _ ih => exact ih

theorem ne_nil {w : List Token} {t : Term} (h : Derives w t) : w ≠ [] := by
  cases h <;> simp

theorem endOfInput_not_mem {w : List Token} {t : Term} (h : Derives w t) : endOfInput ∉ w := by
  induction h with
  | litTrue => decide
  | litFalse => decide
  | conditional _ _ _ hu hv hw => simp [hu, hv, hw]
  | group _ ih => simp [ih]

end Derives

namespace Term

/-- The canonical token sequence of a term; foreign nodes have no tokens. -/
def tokens : Term → List Token
  | lit true => [litTrue]
  | lit false => [litFalse]
  | ite c a b => kwIf :: c.tokens ++ kwThen :: a.tokens ++ kwElse :: b.tokens
  | foreign _ => []

theorem Native.derives {t : Term} (h : t.Native) : Derives t.tokens t := by
  induction t with
  | lit value => cases value <;> constructor
  | ite c a b hc ha hb =>
    obtain ⟨nc, na, nb⟩ := native_ite.1 h
    exact .conditional (hc nc) (ha na) (hb nb)
  | foreign node => exact h.elim

/-- A native term has a canonical text, and that text spells its canonical
tokens. -/
theorem Native.spells {t : Term} (h : t.Native) :
    ∃ s, t.text = .ok s ∧ Spells s t.tokens := by
  induction t with
  | lit value =>
    refine ⟨spellBool value, by rw [text], ?_⟩
    cases value
    · have := Spells.single (show litFalse ≠ endOfInput by decide)
      exact this
    · have := Spells.single (show litTrue ≠ endOfInput by decide)
      exact this
  | ite c a b hc ha hb =>
    obtain ⟨nc, na, nb⟩ := native_ite.1 h
    have ⟨u, hu, su⟩ := hc nc
    have ⟨v, hv, sv⟩ := ha na
    have ⟨w, hw, sw⟩ := hb nb
    refine ⟨conditional u v w, by simp [text, hu, hv, hw, bind, Except.bind, pure, Except.pure], ?_⟩
    have keyword {t : Token} (h : t ≠ endOfInput) : Spells (' ' :: t.spelling ++ [' ']) [t] :=
      .blank (by decide) (Spells.single h).blankAfter
    have hif := (Spells.single (show kwIf ≠ endOfInput by decide)).blankAfter
    have hthen := keyword (show kwThen ≠ endOfInput by decide)
    have helse := keyword (show kwElse ≠ endOfInput by decide)
    simpa [conditional, tokens, spelling, Text.lit] using
      (((hif.append su).append hthen).append sv).append (helse.append sw)
  | foreign node => exact h.elim

end Term

end Conditional

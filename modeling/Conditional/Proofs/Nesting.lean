import Conditional.Grammar

/-!
# Conditional.Proofs.Nesting

How deeply an expression nests.  `Nests` is `Derives` with the number of
levels: a literal takes none, and a conditional or a group takes one more
than the deepest of its parts.  The number belongs to the way of writing and
not to the term, since parentheses take levels too; `Term.nesting` is what
the canonical tokens of the term take.
-/

namespace Conditional

open Token

/-- The token sequence is an expression of the term and nests as many levels
deep as the number says. -/
inductive Nests : List Token → Term → Nat → Prop where
  | litTrue : Nests [litTrue] (.lit true) 0
  | litFalse : Nests [litFalse] (.lit false) 0
  | conditional {u v w : List Token} {c a b : Term} {k m n : Nat} :
      Nests u c k → Nests v a m → Nests w b n →
      Nests (kwIf :: u ++ kwThen :: v ++ kwElse :: w) (.ite c a b) (max (max k m) n + 1)
  | group {w : List Token} {t : Term} {n : Nat} :
      Nests w t n → Nests (lparen :: w ++ [rparen]) t (n + 1)

theorem Nests.derives {w : List Token} {t : Term} {n : Nat} (h : Nests w t n) : Derives w t := by
  induction h with
  | litTrue => exact .litTrue
  | litFalse => exact .litFalse
  | conditional _ _ _ hc ha hb => exact .conditional hc ha hb
  | group _ ih => exact .group ih

theorem Derives.exists_nests {w : List Token} {t : Term} (h : Derives w t) :
    ∃ n, Nests w t n := by
  induction h with
  | litTrue => exact ⟨0, .litTrue⟩
  | litFalse => exact ⟨0, .litFalse⟩
  | conditional _ _ _ hc ha hb =>
      obtain ⟨k, hk⟩ := hc
      obtain ⟨m, hm⟩ := ha
      obtain ⟨n, hn⟩ := hb
      exact ⟨_, .conditional hk hm hn⟩
  | group _ ih =>
      obtain ⟨n, hn⟩ := ih
      exact ⟨n + 1, .group hn⟩

namespace Term

/-- The number of levels that a term nests. -/
def nesting : Term → Nat
  | ite c a b => max (max c.nesting a.nesting) b.nesting + 1
  | _ => 0

/-- The canonical tokens of a native term nest as deeply as the term. -/
theorem Native.nests {t : Term} (h : t.Native) : Nests t.tokens t t.nesting := by
  induction t with
  | lit value => cases value <;> constructor
  | ite c a b hc ha hb =>
      obtain ⟨nc, na, nb⟩ := native_ite.1 h
      exact .conditional (hc nc) (ha na) (hb nb)
  | foreign node => exact h.elim

end Term

end Conditional

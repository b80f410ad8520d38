import Conditional.Proofs.Trimming
import Conditional.Proofs.Valuation
import Mathlib.Data.List.Forall2

/-!
# Conditional.Proofs.Lines

Rendered text, line by line.  What is rendered is put together from lines, with
line feeds between them, and it can be taken apart again: a text that is joined
from lines has these lines and no others (`Text.lines_join`).  Lines are indented,
and the indentation of a line can be read off it (`Text.margin_fill`), if what is
indented does not begin with a space.

The canonical text of a native term is on one line and can be indented in this way,
and it contains nothing that only renderings contain (`Term.Native.inline`).
-/

namespace Conditional

open Token

/-! ## Taking lines apart -/

namespace Text

/-- The text is a line that is not empty. -/
structure IsLine (line : Text) : Prop where
  ne_nil : line ≠ []
  lineFeed_not_mem : '\n' ∉ line

theorem isLine_fill (count : Int) {t : Text} (hne : t ≠ []) (h : '\n' ∉ t) :
    IsLine (fill ' ' count ++ t) := by
  constructor
  · simp [hne]
  · simp [fill, h]

variable {line : Text}

theorem lines_append (h : '\n' ∉ line) (rest : Text) :
    lines (line ++ '\n' :: rest) = line :: lines rest := by
  induction line with
  | nil => rw [List.nil_append, lines, if_pos rfl]
  | cons c line ih =>
      rw [List.mem_cons, not_or] at h
      rw [List.cons_append, lines, if_neg (Ne.symm h.1), ih h.2]

theorem IsLine.lines_eq (h : IsLine line) : lines line = [line] := by
  obtain ⟨hne, hfeed⟩ := h
  induction line with
  | nil => exact absurd rfl hne
  | cons c line ih =>
      rw [List.mem_cons, not_or] at hfeed
      rw [lines, if_neg (Ne.symm hfeed.1)]
      cases line with
      | nil => rfl
      | cons d line => rw [ih (List.cons_ne_nil d line) hfeed.2]

theorem join_cons {separator first : Text} {more : List Text} (h : more ≠ []) :
    join separator (first :: more) = first ++ (separator ++ join separator more) := by
  rw [join, List.intercalate_cons_of_ne_nil h, List.append_assoc, ← join]

/-- What is joined from lines has these lines. -/
theorem lines_join {ls : List Text} (h : ∀ l ∈ ls, IsLine l) : lines (join ['\n'] ls) = ls := by
  induction ls with
  | nil => rfl
  | cons first ls ih =>
      have hfirst := h first List.mem_cons_self
      have hmore := fun l hl => h l (List.mem_cons_of_mem first hl)
      cases ls with
      | nil => simpa [join] using hfirst.lines_eq
      | cons second more =>
          rw [join_cons (List.cons_ne_nil second more), List.singleton_append,
            lines_append hfirst.lineFeed_not_mem, ih hmore]

theorem join_append {separator : Text} {xs ys : List Text} (hxs : xs ≠ []) (hys : ys ≠ []) :
    join separator (xs ++ ys) = join separator xs ++ (separator ++ join separator ys) := by
  induction xs with
  | nil => exact absurd rfl hxs
  | cons x xs ih =>
      cases xs with
      | nil =>
          rw [List.singleton_append, join_cons hys]
          simp [join]
      | cons x' xs =>
          have hne : x' :: xs ≠ [] := List.cons_ne_nil x' xs
          rw [List.cons_append, join_cons (by simp), ih hne, join_cons hne, List.append_assoc,
            List.append_assoc]

/-! ## Margins -/

/-- The number of spaces that a line begins with. -/
def margin (line : Text) : Nat := (line.takeWhile (· = ' ')).length

/-- What is indented by spaces has them as its margin, if it does not begin with
one. -/
theorem margin_fill (count : Int) {t : Text} (h : t.head? ≠ some ' ') :
    margin (fill ' ' count ++ t) = count.toNat := by
  have hnone : t.takeWhile (· = ' ') = [] := by
    cases t with
    | nil => rfl
    | cons c t => simpa using h
  rw [margin, fill, List.takeWhile_append_of_pos (by simp), hnone, List.append_nil,
    List.length_replicate]

end Text

/-! ## Related lists -/

section

variable {α β : Type} {R : α → β → Prop} {xs : List α} {ys : List β}

/-- Whatever stands on the right of related lists is related to what stands at the
same place on the left. -/
theorem exists_left_of_getElem? (h : List.Forall₂ R xs ys) {i : Nat} {y : β}
    (hy : ys[i]? = some y) : ∃ x, xs[i]? = some x ∧ R x y := by
  induction h generalizing i with
  | nil => cases hy
  | @cons x _ _ _ hxy _ ih =>
      cases i with
      | zero =>
          cases hy
          exact ⟨x, rfl, hxy⟩
      | succ i => exact ih hy

theorem exists_right_of_getElem? (h : List.Forall₂ R xs ys) {i : Nat} {x : α}
    (hx : xs[i]? = some x) : ∃ y, ys[i]? = some y ∧ R x y :=
  exists_left_of_getElem? (R := flip R) h.flip hx

theorem exists_left_of_mem (h : List.Forall₂ R xs ys) {y : β} (hy : y ∈ ys) :
    ∃ x ∈ xs, R x y := by
  obtain ⟨i, hi⟩ := List.mem_iff_getElem?.1 hy
  obtain ⟨x, hx, hxy⟩ := exists_left_of_getElem? h hi
  exact ⟨x, List.mem_of_getElem? hx, hxy⟩

end

/-! ## Canonical text -/

/-- The text has a beginning that is not a space, and in it there is neither a line
feed nor a judgment sign. -/
structure Text.Inline (s : Text) : Prop where
  ne_nil : s ≠ []
  head?_ne : s.head? ≠ some ' '
  lineFeed_not_mem : '\n' ∉ s
  sign_not_mem : '⇓' ∉ s

/-- The canonical text of a native term is like that. -/
theorem Term.Native.inline {t : Term} {s : Text} (h : t.Native) (htext : t.text = .ok s) :
    s.Inline := by
  obtain ⟨s', htext', hspells⟩ := h.spells
  obtain rfl := Except.ok.inj (htext.symm.trans htext')
  have hfeed : '\n' ∉ s := hspells.not_mem (by decide) fun t => by cases t <;> decide
  have hsign : '⇓' ∉ s := hspells.not_mem (by decide) fun t => by cases t <;> decide
  have hhead : s ≠ [] ∧ s.head? ≠ some ' ' := by
    cases t with
    | lit value =>
        obtain rfl := Except.ok.inj htext
        cases value <;> decide
    | ite c a b =>
        obtain ⟨nc, na, nb⟩ := native_ite.1 h
        obtain ⟨u, hu⟩ := nc.exists_text
        obtain ⟨v, hv⟩ := na.exists_text
        obtain ⟨w, hw⟩ := nb.exists_text
        rw [text, hu, hv, hw] at htext
        obtain rfl := Except.ok.inj htext
        simp [conditional, Text.lit]
    | foreign node => exact h.elim
  exact ⟨hhead.1, hhead.2, hfeed, hsign⟩

end Conditional

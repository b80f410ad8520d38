import Conditional.Proofs.Lexing
import Mathlib.Data.List.DropRight
import Mathlib.Data.List.TakeWhile

/-!
# Conditional.Proofs.Trimming

Whitespace at the ends of a text, and what it means for the tokens of the
text: nothing.  A text is what is left when it is trimmed, with whitespace on
both sides (`Text.exists_trim`), and whitespace that is added at the ends is
trimmed away again (`Text.trim_pad`).  Since the whitespace in a text that
spells tokens is blank, trimming keeps its tokens (`Spells.trim`), and at a
blank it can be taken apart (`Spells.of_append_cons`).
-/

namespace Conditional

open Token

/-! ## Trimming -/

namespace Text

/-- The text is nothing but whitespace. -/
def Blank (t : Text) : Prop := ∀ c ∈ t, isSpace c

instance (t : Text) : Decidable t.Blank := List.decidableBAll (fun c => isSpace c) t

theorem trimEnd_eq_rdropWhile (t : Text) : trimEnd t = t.rdropWhile isSpace := rfl

theorem trimEnd_eq_nil_iff {t : Text} : trimEnd t = [] ↔ Blank t := by
  rw [trimEnd_eq_rdropWhile, List.rdropWhile_eq_nil_iff, Blank]

/-- Nothing is left to trim at the end of a trimmed text. -/
theorem isSpace_getLast?_trimEnd (t : Text) : ∀ c ∈ (trimEnd t).getLast?, isSpace c = false := by
  intro c hc
  rw [trimEnd_eq_rdropWhile] at hc
  obtain ⟨hne, rfl⟩ := List.mem_getLast?_eq_getLast hc
  exact Bool.eq_false_iff.2 (List.rdropWhile_last_not isSpace t hne)

theorem exists_trimEnd (t : Text) : ∃ w, Blank w ∧ t = trimEnd t ++ w := by
  refine ⟨t.rtakeWhile isSpace, fun c hc => List.mem_rtakeWhile_imp hc, ?_⟩
  exact List.rdropWhile_append_rtakeWhile.symm

theorem exists_trimStart (t : Text) : ∃ v, Blank v ∧ t = v ++ trimStart t := by
  refine ⟨t.takeWhile isSpace, fun c hc => List.mem_takeWhile_imp hc, ?_⟩
  exact List.takeWhile_append_dropWhile.symm

/-- A text is what is left of it when it is trimmed, between whitespace. -/
theorem exists_trim (t : Text) : ∃ v w, Blank v ∧ Blank w ∧ t = v ++ (trim t ++ w) := by
  obtain ⟨v, hv, hstart⟩ := exists_trimStart t
  obtain ⟨w, hw, hend⟩ := exists_trimEnd (trimStart t)
  exact ⟨v, w, hv, hw, by rw [trim, ← hend, ← hstart]⟩

theorem trimStart_append {v : Text} (hv : Blank v) (t : Text) :
    trimStart (v ++ t) = trimStart t := by
  have hnil : v.dropWhile isSpace = [] := List.dropWhile_eq_nil_iff.2 hv
  rw [trimStart, List.dropWhile_append, hnil]
  rfl

theorem trimEnd_append {w : Text} (hw : Blank w) (t : Text) : trimEnd (t ++ w) = trimEnd t := by
  have hnil : w.reverse.dropWhile isSpace = [] :=
    List.dropWhile_eq_nil_iff.2 fun c hc => hw c (List.mem_reverse.1 hc)
  rw [trimEnd, List.reverse_append, List.dropWhile_append, hnil]
  rfl

/-- Whitespace around a text is trimmed away. -/
theorem trim_pad {v w : Text} (hv : Blank v) (hw : Blank w) (t : Text) :
    trim (v ++ (t ++ w)) = trim t := by
  rw [trim, trimStart_append hv, trimStart, List.dropWhile_append]
  by_cases ht : t.dropWhile isSpace = []
  · have hnil : w.dropWhile isSpace = [] := List.dropWhile_eq_nil_iff.2 hw
    rw [ht, hnil, trim, trimStart, ht]
    rfl
  · rw [if_neg (by simpa using ht), trimEnd_append hw]
    rfl

theorem trim_trimEnd (t : Text) : trim (trimEnd t) = trim t := by
  obtain ⟨w, hw, ht⟩ := exists_trimEnd t
  conv_rhs => rw [ht]
  exact (trim_pad (v := []) (by simp [Blank]) hw _).symm

theorem trim_eq_nil_iff {t : Text} : trim t = [] ↔ Blank t := by
  constructor
  · intro h
    obtain ⟨v, w, hv, hw, ht⟩ := exists_trim t
    rw [h, List.nil_append] at ht
    intro c hc
    rw [ht] at hc
    obtain hc | hc := List.mem_append.1 hc
    · exact hv c hc
    · exact hw c hc
  · intro h
    have hstart : trimStart t = [] := List.dropWhile_eq_nil_iff.2 h
    rw [trim, hstart]
    rfl

end Text

/-! ## Tokens of trimmed texts -/

theorem Text.isSpace_of_isBlank {c : Char} (h : isBlank c) : isSpace c := by
  obtain rfl | rfl : c = ' ' ∨ c = '\t' := by simpa [isBlank] using h
  · decide
  · decide

/-- No spelling contains whitespace. -/
theorem Token.isSpace_eq_false {t : Token} (ht : t ≠ endOfInput) :
    ∀ c ∈ t.spelling, Text.isSpace c = false := by
  have hall : (t.spelling.all fun c => !Text.isSpace c) = true := by
    cases t with
    | endOfInput => exact absurd rfl ht
    | _ => decide
  simpa using hall

/-- Text that is nothing but blanks spells no tokens. -/
theorem spells_blanks {w : Text} (hw : ∀ c ∈ w, Text.isBlank c) : Spells w [] := by
  induction w with
  | nil => exact .nil
  | cons c w ih =>
      exact .blank (hw c List.mem_cons_self) (ih fun d hd => hw d (List.mem_cons_of_mem c hd))

namespace Spells

variable {s : Text} {ts : List Token}

/-- A text that spells tokens is made of blanks and of their characters. -/
theorem isBlank_or_mem_spelling (h : Spells s ts) :
    ∀ c ∈ s, Text.isBlank c ∨ ∃ t ≠ endOfInput, c ∈ t.spelling := by
  induction h with
  | nil => simp
  | blank hc _ ih =>
      intro d hd
      obtain rfl | hd := List.mem_cons.1 hd
      · exact .inl hc
      · exact ih d hd
  | token ht _ ih =>
      intro d hd
      obtain hd | hd := List.mem_append.1 hd
      · exact .inr ⟨_, ht, hd⟩
      · exact ih d hd

/-- What is neither blank nor in a spelling is not in a text that spells tokens. -/
theorem not_mem (h : Spells s ts) {c : Char} (hblank : Text.isBlank c = false)
    (hspelling : ∀ t : Token, c ∉ t.spelling) : c ∉ s := by
  intro hmem
  obtain hc | ⟨t, -, ht⟩ := h.isBlank_or_mem_spelling c hmem
  · exact Bool.false_ne_true (hblank.symm.trans hc)
  · exact hspelling t ht

/-- The only whitespace in a text that spells tokens are blanks. -/
theorem isBlank_of_isSpace (h : Spells s ts) : ∀ c ∈ s, Text.isSpace c → Text.isBlank c := by
  intro c hc hspace
  obtain hblank | ⟨t, ht, hmem⟩ := h.isBlank_or_mem_spelling c hc
  · exact hblank
  · rw [isSpace_eq_false ht c hmem] at hspace
    contradiction

/-- At a blank the text falls apart, and its tokens with it. -/
theorem of_append_cons {a b : Text} {c : Char} (h : Spells (a ++ c :: b) ts)
    (hc : Text.isBlank c) : ∃ us vs, ts = us ++ vs ∧ Spells a us ∧ Spells b vs := by
  generalize hs : a ++ c :: b = s at h
  induction h generalizing a with
  | nil => simp at hs
  | @blank d s ts hd hrest ih =>
      cases a with
      | nil =>
          obtain ⟨-, rfl⟩ := List.cons.inj hs
          exact ⟨[], _, rfl, .nil, hrest⟩
      | cons a₀ a =>
          obtain ⟨rfl, htail⟩ := List.cons.inj hs
          obtain ⟨us, vs, rfl, ha, hb⟩ := ih htail
          exact ⟨us, vs, rfl, .blank hd ha, hb⟩
  | @token t s ts ht hrest ih =>
      obtain ⟨a', rfl, htail⟩ | ⟨rest, hspelling, htail⟩ := List.append_eq_append_iff.1 hs.symm
      · obtain ⟨us, vs, rfl, ha, hb⟩ := ih htail.symm
        exact ⟨t :: us, vs, rfl, .token ht ha, hb⟩
      · cases rest with
        | nil =>
            rw [List.append_nil] at hspelling
            obtain ⟨us, vs, rfl, ha, hb⟩ := ih (a := []) htail
            obtain rfl := nil.unique ha
            subst hspelling
            exact ⟨[t], vs, rfl, single ht, hb⟩
        | cons d rest =>
            obtain ⟨rfl, -⟩ := List.cons.inj htail
            have hmem : c ∈ t.spelling := by simp [hspelling]
            have hspace := isSpace_eq_false ht c hmem
            rw [Text.isSpace_of_isBlank hc] at hspace
            contradiction

/-- Blanks in front of a text have no tokens. -/
theorem of_blanks_append {w : Text} (h : Spells (w ++ s) ts) (hw : ∀ c ∈ w, Text.isBlank c) :
    Spells s ts := by
  induction w with
  | nil => exact h
  | cons c w ih =>
      obtain ⟨us, vs, rfl, hnil, hrest⟩ := of_append_cons (a := []) h (hw c List.mem_cons_self)
      obtain rfl := nil.unique hnil
      exact ih hrest fun d hd => hw d (List.mem_cons_of_mem c hd)

/-- Blanks behind a text have no tokens. -/
theorem of_append_blanks {w : Text} (h : Spells (s ++ w) ts) (hw : ∀ c ∈ w, Text.isBlank c) :
    Spells s ts := by
  cases w with
  | nil => rwa [List.append_nil] at h
  | cons c w =>
      obtain ⟨us, vs, rfl, hs, hrest⟩ := h.of_append_cons (hw c List.mem_cons_self)
      have hnone := spells_blanks fun d hd => hw d (List.mem_cons_of_mem c hd)
      obtain rfl := hnone.unique hrest
      rwa [List.append_nil]

theorem trimEnd (h : Spells s ts) : Spells (Text.trimEnd s) ts := by
  obtain ⟨w, hw, hs⟩ := Text.exists_trimEnd s
  have hblank : ∀ c ∈ w, Text.isBlank c := fun c hc =>
    h.isBlank_of_isSpace c (by rw [hs]; exact List.mem_append_right _ hc) (hw c hc)
  rw [hs] at h
  exact h.of_append_blanks hblank

/-- Trimming a text keeps its tokens. -/
theorem trim (h : Spells s ts) : Spells (Text.trim s) ts := by
  obtain ⟨v, hv, hs⟩ := Text.exists_trimStart s
  have hblank : ∀ c ∈ v, Text.isBlank c := fun c hc =>
    h.isBlank_of_isSpace c (by rw [hs]; exact List.mem_append_left _ hc) (hv c hc)
  rw [hs] at h
  exact (h.of_blanks_append hblank).trimEnd

end Spells

end Conditional

import Conditional.Proofs.Lexing

/-!
# Conditional.Proofs.Spans

The scanner loses nothing.  A source that it accepts falls into fragments,
each a blank or the spelling of a token, and it does so in one way only
(`Fragment.flatMap_text_injective`).  The lexemes are the fragments that are
no blanks: their spans stand one behind the other (`Lexes.pairwise`), each
holds the spelling of its token (`Lexes.between_eq`), and whatever lies
outside all of them is blank (`Lexes.isBlank_of_outside`).

The spans are compared with the source by `Text.between`, and every fact is
proved of a text that stands at some offset, since that is what the rule for
a token leads to.
-/

namespace Conditional

open Token

/-! ## Fragments -/

/-- A unit of a source text: one blank, or the spelling of a written token. -/
inductive Fragment where
  | space
  | tab
  | token (t : Token) (written : t ≠ endOfInput)

namespace Fragment

/-- The characters of a fragment. -/
def text : Fragment → Text
  | space => [' ']
  | tab => ['\t']
  | token t _ => t.spelling

/-- The token that a fragment spells; blanks spell none. -/
def token? : Fragment → Option Token
  | token t _ => some t
  | _ => none

end Fragment

/-- No spelling begins with a blank. -/
theorem Token.spelling_append_ne_cons {t : Token} (ht : t ≠ endOfInput) {c : Char}
    (hc : Text.isBlank c) (s s' : Text) : t.spelling ++ s ≠ c :: s' := by
  obtain ⟨c', rest, hcons, hc'⟩ := spelling_eq_cons ht
  rw [hcons, List.cons_append]
  intro h
  have hsame : c' = c := (List.cons.inj h).1
  rw [hsame, hc] at hc'
  contradiction

/-- The fragment at the front of a text is determined by the text. -/
theorem Fragment.append_inj {f f' : Fragment} {s s' : Text} (h : f.text ++ s = f'.text ++ s') :
    f = f' ∧ s = s' := by
  have hspace : Text.isBlank ' ' := rfl
  have htab : Text.isBlank '\t' := rfl
  cases f with
  | space =>
      cases f' with
      | space => exact ⟨rfl, (List.cons.inj h).2⟩
      | tab => exact absurd (List.cons.inj h).1 (by decide)
      | token t ht => exact absurd h.symm (spelling_append_ne_cons ht hspace s' s)
  | tab =>
      cases f' with
      | space => exact absurd (List.cons.inj h).1 (by decide)
      | tab => exact ⟨rfl, (List.cons.inj h).2⟩
      | token t ht => exact absurd h.symm (spelling_append_ne_cons ht htab s' s)
  | token t ht =>
      cases f' with
      | space => exact absurd h (spelling_append_ne_cons ht hspace s s')
      | tab => exact absurd h (spelling_append_ne_cons ht htab s s')
      | token t' ht' =>
          have hread := congrArg read? (show t.spelling ++ s = t'.spelling ++ s' from h)
          rw [read?_spelling ht, read?_spelling ht', Option.some.injEq, Prod.mk.injEq] at hread
          obtain ⟨rfl, rfl⟩ := hread
          exact ⟨rfl, rfl⟩

theorem Fragment.text_ne_nil (f : Fragment) : f.text ≠ [] := by
  cases f with
  | space | tab => simp [text]
  | token t _ => exact t.spelling_ne_nil

/-- A text falls into fragments in at most one way. -/
theorem Fragment.flatMap_text_injective {fs fs' : List Fragment}
    (h : fs.flatMap text = fs'.flatMap text) : fs = fs' := by
  induction fs generalizing fs' with
  | nil =>
      cases fs' with
      | nil => rfl
      | cons f' fs' => simp [List.flatMap_cons, f'.text_ne_nil] at h
  | cons f fs ih =>
      cases fs' with
      | nil => simp [List.flatMap_cons, f.text_ne_nil] at h
      | cons f' fs' =>
          rw [List.flatMap_cons, List.flatMap_cons] at h
          obtain ⟨rfl, hrest⟩ := append_inj h
          rw [ih hrest]

/-- Fragments spell the tokens among them. -/
theorem Fragment.spells_flatMap_text (fs : List Fragment) :
    Spells (fs.flatMap text) (fs.filterMap token?) := by
  induction fs with
  | nil => exact .nil
  | cons f fs ih =>
      cases f with
      | space => exact .blank rfl ih
      | tab => exact .blank rfl ih
      | token t ht => exact .token ht ih

/-- What spells tokens falls into fragments. -/
theorem Spells.exists_fragments {s : Text} {ts : List Token} (h : Spells s ts) :
    ∃ fs : List Fragment, s = fs.flatMap Fragment.text := by
  induction h with
  | nil => exact ⟨[], rfl⟩
  | @blank c s ts hc _ ih =>
      obtain ⟨fs, rfl⟩ := ih
      obtain rfl | rfl : c = ' ' ∨ c = '\t' := by simpa [Text.isBlank] using hc
      · exact ⟨.space :: fs, rfl⟩
      · exact ⟨.tab :: fs, rfl⟩
  | @token t s ts ht _ ih =>
      obtain ⟨fs, rfl⟩ := ih
      exact ⟨.token t ht :: fs, rfl⟩

/-! ## Places -/

section

variable {p : Nat} {s : Text} {ls : List Lexeme}

/-- The lexemes of a text are written tokens, and their spans lie within it. -/
theorem Lexes.bounds (h : Lexes p s ls) :
    ∀ l ∈ ls, l.token ≠ endOfInput ∧ p ≤ l.start ∧ l.start < l.stop ∧
      l.stop ≤ (p + s.length : Nat) := by
  induction h with
  | nil => simp
  | blank _ _ ih =>
      intro l hl
      obtain ⟨ht, hstart, hlt, hstop⟩ := ih l hl
      rw [List.length_cons]
      refine ⟨ht, ?_, hlt, ?_⟩ <;> omega
  | @token p t s ls ht _ ih =>
      have hpos := List.length_pos_iff.2 t.spelling_ne_nil
      intro l hl
      rw [List.length_append]
      obtain rfl | hl := List.mem_cons.1 hl
      · refine ⟨ht, ?_, ?_, ?_⟩ <;> simp only <;> omega
      · obtain ⟨ht', hstart, hlt, hstop⟩ := ih l hl
        refine ⟨ht', ?_, hlt, ?_⟩ <;> omega

/-- The spans stand one behind the other. -/
theorem Lexes.pairwise (h : Lexes p s ls) : ls.Pairwise fun l l' => l.stop ≤ l'.start := by
  induction h with
  | nil => exact .nil
  | blank _ _ ih => exact ih
  | token _ hrest ih =>
      refine .cons (fun l hl => ?_) ih
      have hstart := (hrest.bounds l hl).2.1
      simp only at hstart ⊢
      omega

/-- A span holds the spelling of its token. -/
theorem Lexes.between_eq (h : Lexes p s ls) (before : Text) (hp : before.length = p) :
    ∀ l ∈ ls, (before ++ s).between l.start l.stop = l.token.spelling := by
  induction h generalizing before with
  | nil => simp
  | @blank p c s ls _ _ ih =>
      have hbefore : (before ++ [c]).length = p + 1 := by rw [← hp]; exact List.length_append
      intro l hl
      rw [← ih _ hbefore l hl, List.append_assoc, List.singleton_append]
  | @token p t s ls _ _ ih =>
      intro l hl
      obtain rfl | hl := List.mem_cons.1 hl
      · have hspelling := Text.between_append before t.spelling s
        rwa [hp] at hspelling
      · have hbefore : (before ++ t.spelling).length = p + t.spelling.length := by
          rw [List.length_append, hp]
        rw [← ih _ hbefore l hl, List.append_assoc]

/-- A character outside all spans is blank. -/
theorem Lexes.isBlank_of_outside (h : Lexes p s ls) {i : Nat} {c : Char} (hc : s[i]? = some c)
    (hout : ∀ l ∈ ls, ¬ (l.start ≤ (p + i : Nat) ∧ (p + i : Nat) < l.stop)) : Text.isBlank c := by
  induction h generalizing i with
  | nil => simp at hc
  | @blank p c' s ls hc' _ ih =>
      cases i with
      | zero =>
          obtain rfl : c' = c := by simpa using hc
          exact hc'
      | succ i =>
          rw [List.getElem?_cons_succ] at hc
          exact ih hc (by rwa [Nat.add_right_comm, Nat.add_assoc] )
  | @token p t s ls _ _ ih =>
      by_cases hi : i < t.spelling.length
      · refine absurd ?_ (hout _ List.mem_cons_self)
        simp only
        omega
      · obtain ⟨j, rfl⟩ := Nat.exists_eq_add_of_le (Nat.le_of_not_lt hi)
        rw [List.getElem?_append_right (by omega), Nat.add_sub_cancel_left] at hc
        refine ih hc fun l hl => ?_
        rw [Nat.add_assoc]
        exact hout l (List.mem_cons_of_mem _ hl)

/-- At an offset that lies inside no span a text falls apart, and its lexemes
with it. -/
theorem Lexes.of_append {a b : Text} (h : Lexes p (a ++ b) ls)
    (hcut : ∀ l ∈ ls, ¬ (l.start < (p + a.length : Nat) ∧ (p + a.length : Nat) < l.stop)) :
    ∃ ls₁ ls₂, ls = ls₁ ++ ls₂ ∧ Lexes p a ls₁ ∧ Lexes (p + a.length) b ls₂ := by
  generalize hs : a ++ b = s at h
  induction h generalizing a with
  | nil =>
      obtain ⟨rfl, rfl⟩ := List.append_eq_nil_iff.1 hs
      exact ⟨[], [], rfl, .nil, .nil⟩
  | @blank p c s ls hc hrest ih =>
      cases a with
      | nil =>
          rw [List.nil_append] at hs
          rw [hs]
          exact ⟨[], ls, rfl, .nil, .blank hc hrest⟩
      | cons a₀ a =>
          obtain ⟨rfl, htail⟩ := List.cons.inj hs
          have hlength : p + (a₀ :: a).length = p + 1 + a.length := by
            rw [List.length_cons]
            omega
          rw [hlength] at hcut ⊢
          obtain ⟨ls₁, ls₂, rfl, ha, hb⟩ := ih hcut htail
          exact ⟨ls₁, ls₂, rfl, .blank hc ha, hb⟩
  | @token p t s ls ht hrest ih =>
      have hfirst := hcut _ List.mem_cons_self
      obtain ⟨rest, hspelling, rfl⟩ | ⟨a', rfl, htail⟩ := List.append_eq_append_iff.1 hs
      · -- the offset is not inside the first span, so it is at one of its ends
        have hlength : t.spelling.length = a.length + rest.length := by
          rw [hspelling, List.length_append]
        obtain hzero | hzero : a.length = 0 ∨ rest.length = 0 := by
          simp only at hfirst
          omega
        · obtain rfl := List.length_eq_zero_iff.1 hzero
          obtain rfl : t.spelling = rest := hspelling
          exact ⟨[], _, rfl, .nil, .token ht hrest⟩
        · obtain rfl := List.length_eq_zero_iff.1 hzero
          rw [List.append_nil] at hspelling
          rw [← hspelling]
          have hsingle : Lexes p (t.spelling ++ []) [⟨t, p, p + t.spelling.length⟩] :=
            .token ht .nil
          rw [List.append_nil] at hsingle
          exact ⟨[_], ls, rfl, hsingle, hrest⟩
      · have hlength : p + (t.spelling ++ a').length = p + t.spelling.length + a'.length := by
          rw [List.length_append, Nat.add_assoc]
        rw [hlength] at hcut ⊢
        obtain ⟨ls₁, ls₂, rfl, ha, hb⟩ :=
          ih (fun l hl => hcut l (List.mem_cons_of_mem _ hl)) htail.symm
        exact ⟨_ :: ls₁, ls₂, rfl, .token ht ha, hb⟩

end

/-! ## Accepted sources -/

/-- **Losslessness of the scanner.**  The accepted sources are those that fall
into blanks and spellings.  They do so in one way; the spellings are those of
the tokens that are read; each stands at the span of its lexeme, the spans
follow one another, what lies outside them is blank, and one end of the input
stands behind them, at the end of the source. -/
theorem tokenize_lossless (source : Text) :
    ((∃ lexemes, tokenize source = .ok lexemes) ↔
      ∃ fragments : List Fragment, source = fragments.flatMap Fragment.text) ∧
    ∀ fragments : List Fragment, source = fragments.flatMap Fragment.text →
      (∀ others : List Fragment, source = others.flatMap Fragment.text → others = fragments) ∧
      ∃ ls, tokenize source = .ok (ls ++ [⟨endOfInput, source.length, source.length⟩]) ∧
        tokensOf ls = fragments.filterMap Fragment.token? ∧ endOfInput ∉ tokensOf ls ∧
        (∀ l ∈ ls, 0 ≤ l.start ∧ l.start < l.stop ∧ l.stop ≤ source.length ∧
          source.between l.start l.stop = l.token.spelling) ∧
        ls.Pairwise (fun l l' => l.stop ≤ l'.start) ∧
        ∀ (i : Nat) (c : Char), source[i]? = some c →
          (∀ l ∈ ls, ¬ (l.start ≤ i ∧ i < l.stop)) → c = ' ' ∨ c = '\t' := by
  have haccepted {fragments : List Fragment} (h : source = fragments.flatMap Fragment.text) :
      Spells source (fragments.filterMap Fragment.token?) := by
    rw [h]
    exact Fragment.spells_flatMap_text fragments
  refine ⟨⟨?_, ?_⟩, fun fragments h => ⟨fun others hothers => ?_, ?_⟩⟩
  · rintro ⟨lexemes, hlexemes⟩
    obtain ⟨ts, hspells, -⟩ := spells_of_tokenize hlexemes
    exact hspells.exists_fragments
  · rintro ⟨fragments, h⟩
    obtain ⟨lexemes, hlexemes, -⟩ := (haccepted h).tokenize
    exact ⟨lexemes, hlexemes⟩
  · exact Fragment.flatMap_text_injective (hothers.symm.trans h)
  · obtain ⟨ls, hls, htokens⟩ := (haccepted h).lexes 0
    refine ⟨ls, tokenize_eq_ok_iff.2 ⟨ls, hls, rfl⟩, htokens, ?_, fun l hl => ?_, hls.pairwise,
      fun i c hc hout => ?_⟩
    · exact hls.spells.endOfInput_not_mem
    · obtain ⟨-, hstart, hlt, hstop⟩ := hls.bounds l hl
      rw [Nat.zero_add] at hstop
      exact ⟨hstart, hlt, hstop, hls.between_eq [] rfl l hl⟩
    · have hblank := hls.isBlank_of_outside hc fun l hl => by
        rw [Nat.zero_add]
        exact hout l hl
      simpa [Text.isBlank] using hblank

end Conditional

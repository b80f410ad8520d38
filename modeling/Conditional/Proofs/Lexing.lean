import Conditional.Grammar
import Conditional.Scanner

/-!
# Conditional.Proofs.Lexing

What the scanner reads, said without the scanner.  `Lexes` is the grammar of
spellings with places: it says which lexemes a text holds when it stands at a
given offset of a source.

* `Scanner.tokenize_append` — a stretch of text that holds lexemes is read as
  these lexemes, whatever follows it;
* `lexes_or_stuck` — every text holds lexemes up to its end, or up to a
  character at which no token begins;
* `tokenize_eq_ok_iff` — so the sources that the scanner accepts are exactly
  those that hold lexemes, and their lexemes are the ones it returns;
* `Spells.unique` — and no text spells two token sequences.
-/

namespace Conditional

open Token

/-! ## The front of a text -/

/-- The spelling at the front of a text is found there, whatever follows it:
no other spelling begins it, and it begins no other spelling. -/
theorem Token.read?_spelling {t : Token} (h : t ≠ endOfInput) (s : Text) :
    read? (t.spelling ++ s) = some (t, s) := by
  cases t with
  | endOfInput => exact absurd rfl h
  | _ => rfl

theorem Token.spelling_eq_cons {t : Token} (h : t ≠ endOfInput) :
    ∃ c rest, t.spelling = c :: rest ∧ Text.isBlank c = false := by
  cases t with
  | endOfInput => exact absurd rfl h
  | _ => exact ⟨_, _, rfl, rfl⟩

/-- At the front of the text stands a character that is no blank and begins
no token. -/
def Unreadable (s : Text) : Prop :=
  ∃ c rest, s = c :: rest ∧ Text.isBlank c = false ∧ read? s = none

/-- What the front of a text can be. -/
theorem Token.front_cases (s : Text) :
    s = [] ∨ (∃ c rest, s = c :: rest ∧ Text.isBlank c) ∨
      (∃ t rest, t ≠ endOfInput ∧ s = t.spelling ++ rest) ∨ Unreadable s := by
  cases s with
  | nil => exact .inl rfl
  | cons c rest =>
      by_cases hc : Text.isBlank c
      · exact .inr (.inl ⟨c, rest, rfl, hc⟩)
      · cases hr : read? (c :: rest) with
        | none => exact .inr (.inr (.inr ⟨c, rest, rfl, by simpa using hc, hr⟩))
        | some found =>
            obtain ⟨t, rest'⟩ := found
            exact .inr (.inr (.inl ⟨t, rest', eq_append_of_read? hr⟩))

/-! ## Texts that hold lexemes -/

/-- The text, standing at an offset of a source, is a sequence of blanks and
of the spellings of the lexemes, each at its own place. -/
inductive Lexes : Nat → Text → List Lexeme → Prop where
  | nil {p : Nat} : Lexes p [] []
  | blank {p : Nat} {c : Char} {s : Text} {ls : List Lexeme} :
      Text.isBlank c → Lexes (p + 1) s ls → Lexes p (c :: s) ls
  | token {p : Nat} {t : Token} {s : Text} {ls : List Lexeme} :
      t ≠ endOfInput → Lexes (p + t.spelling.length) s ls →
      Lexes p (t.spelling ++ s) (⟨t, p, p + t.spelling.length⟩ :: ls)

/-- Without the places, a text that holds lexemes spells their tokens. -/
theorem Lexes.spells {p : Nat} {s : Text} {ls : List Lexeme} (h : Lexes p s ls) :
    Spells s (ls.map Lexeme.token) := by
  induction h with
  | nil => exact .nil
  | blank hc _ ih => exact .blank hc ih
  | token ht _ ih => exact .token ht ih

/-- A text that spells tokens holds lexemes of these tokens at any offset. -/
theorem Spells.lexes {s : Text} {ts : List Token} (h : Spells s ts) (p : Nat) :
    ∃ ls, Lexes p s ls ∧ ls.map Lexeme.token = ts := by
  induction h generalizing p with
  | nil => exact ⟨[], .nil, rfl⟩
  | blank hc _ ih =>
      obtain ⟨ls, hls, htokens⟩ := ih (p + 1)
      exact ⟨ls, .blank hc hls, htokens⟩
  | @token t s ts ht _ ih =>
      obtain ⟨ls, hls, htokens⟩ := ih (p + t.spelling.length)
      exact ⟨_, .token ht hls, by rw [List.map_cons, htokens]⟩

/-! ## One step of the scanner -/

namespace Scanner

/-- The equation of `tokenize`, without the evidence that it ends. -/
theorem tokenize_eq (s : Scanner) :
    tokenize s =
      match next s with
      | .error e s' => .error e s'
      | .ok l s' =>
        if l.token = endOfInput then .ok [l] s'
        else
          match tokenize s' with
          | .error e s'' => .error e s''
          | .ok ls s'' => .ok (l :: ls) s'' := by
  rw [tokenize]
  split <;> rename_i heq <;> simp only [heq]
  split <;> rfl

theorem skipBlanks_cons {c : Char} (hc : Text.isBlank c) (s : Text) (p f : Nat) :
    skipBlanks ⟨c :: s, p, f⟩ = skipBlanks ⟨s, p + 1, f⟩ := by
  have hlength : (List.takeWhile Text.isBlank (c :: s)).length =
      (List.takeWhile Text.isBlank s).length + 1 := by
    rw [List.takeWhile_cons_of_pos hc, List.length_cons]
  simp only [skipBlanks, hlength, List.dropWhile_cons_of_pos hc, mk.injEq, true_and, and_true]
  omega

theorem skipBlanks_eq_self {c : Char} (hc : Text.isBlank c = false) (s : Text) (p f : Nat) :
    skipBlanks ⟨c :: s, p, f⟩ = ⟨c :: s, p, f⟩ := by
  simp [skipBlanks, hc]

theorem next_spelling {t : Token} (ht : t ≠ endOfInput) (s : Text) (p f : Nat) :
    next ⟨t.spelling ++ s, p, f⟩ =
      .ok ⟨t, p, p + t.spelling.length⟩ ⟨s, p + t.spelling.length, f⟩ := by
  obtain ⟨c, rest, hcons, hc⟩ := spelling_eq_cons ht
  have hread := read?_spelling ht s
  rw [hcons, List.cons_append] at hread ⊢
  rw [next, skipBlanks_eq_self hc, readHere, hread]
  simp only [← hcons]

theorem tokenize_blank {c : Char} (hc : Text.isBlank c) (s : Text) (p f : Nat) :
    tokenize ⟨c :: s, p, f⟩ = tokenize ⟨s, p + 1, f⟩ := by
  have hnext : next ⟨c :: s, p, f⟩ = next ⟨s, p + 1, f⟩ := by
    rw [next, next, skipBlanks_cons hc]
  rw [tokenize_eq, tokenize_eq, hnext]

theorem tokenize_nil (p f : Nat) : tokenize ⟨[], p, f⟩ = .ok [.endAt f] ⟨[], p, f⟩ := by
  have hnext : next ⟨[], p, f⟩ = .ok (.endAt f) ⟨[], p, f⟩ := rfl
  rw [tokenize_eq, hnext]
  rfl

/-- At an unreadable text the scanner reports the character that it stands
at, and stays there. -/
theorem tokenize_unreadable {c : Char} {rest : Text} (hc : Text.isBlank c = false)
    (hr : read? (c :: rest) = none) (p f : Nat) :
    tokenize ⟨c :: rest, p, f⟩ = .error ⟨c, p⟩ ⟨c :: rest, p, f⟩ := by
  have hnext : next ⟨c :: rest, p, f⟩ = .error ⟨c, p⟩ ⟨c :: rest, p, f⟩ := by
    rw [next, skipBlanks_eq_self hc, readHere, hr]
  rw [tokenize_eq, hnext]

/-! ## Runs of the scanner -/

/-- The outcome of scanning, with the lexemes in front that were read
before. -/
def preceded (ls : List Lexeme) :
    EStateM.Result LexError Scanner (List Lexeme) → EStateM.Result LexError Scanner (List Lexeme)
  | .ok more s => .ok (ls ++ more) s
  | .error e s => .error e s

/-- A stretch of text that holds lexemes is read as these lexemes, and what
follows it is read as if the source began there. -/
theorem tokenize_append {p : Nat} {a : Text} {ls : List Lexeme} (h : Lexes p a ls)
    (b : Text) (f : Nat) :
    tokenize ⟨a ++ b, p, f⟩ = preceded ls (tokenize ⟨b, p + a.length, f⟩) := by
  induction h with
  | nil => cases htail : tokenize ⟨b, _, f⟩ <;> simp_all [preceded]
  | @blank p c s ls hc _ ih =>
      rw [List.cons_append, tokenize_blank hc, ih, List.length_cons]
      congr 3
      omega
  | @token p t s ls ht _ ih =>
      rw [List.append_assoc, tokenize_eq, next_spelling ht, List.length_append, ← Nat.add_assoc]
      simp only [ih, if_neg ht]
      cases tokenize ⟨b, p + t.spelling.length + s.length, f⟩ <;> rfl

/-- A text that holds lexemes is read to its end. -/
theorem tokenize_lexes {p : Nat} {s : Text} {ls : List Lexeme} (h : Lexes p s ls) (f : Nat) :
    tokenize ⟨s, p, f⟩ = .ok (ls ++ [.endAt f]) ⟨[], p + s.length, f⟩ := by
  have happend := tokenize_append h [] f
  rw [List.append_nil, tokenize_nil] at happend
  exact happend

end Scanner

/-! ## Every text is read to its end or to a place that cannot be read -/

/-- Every text holds lexemes up to its end, or up to an unreadable rest. -/
theorem lexes_or_stuck (p : Nat) (s : Text) :
    (∃ ls, Lexes p s ls) ∨
      ∃ a b ls, s = a ++ b ∧ Lexes p a ls ∧ Unreadable b := by
  -- on the length of the text, because a token takes away its whole spelling
  induction hn : s.length using Nat.strongRecOn generalizing p s with
  | _ n ih =>
      obtain rfl | ⟨c, rest, rfl, hc⟩ | ⟨t, rest, ht, rfl⟩ | hstuck := front_cases s
      · exact .inl ⟨[], .nil⟩
      · have hlt : rest.length < n := by rw [← hn, List.length_cons]; omega
        obtain ⟨ls, hls⟩ | ⟨a, b, ls, rfl, hls, hb⟩ := ih _ hlt (p + 1) rest rfl
        · exact .inl ⟨ls, .blank hc hls⟩
        · exact .inr ⟨c :: a, b, ls, rfl, .blank hc hls, hb⟩
      · have hlt : rest.length < n := by
          have hpos := List.length_pos_iff.2 t.spelling_ne_nil
          rw [← hn, List.length_append]
          omega
        obtain ⟨ls, hls⟩ | ⟨a, b, ls, rfl, hls, hb⟩ :=
          ih _ hlt (p + t.spelling.length) rest rfl
        · exact .inl ⟨_, .token ht hls⟩
        · exact .inr ⟨t.spelling ++ a, b, _, (List.append_assoc ..).symm, .token ht hls, hb⟩
      · exact .inr ⟨[], s, [], rfl, .nil, hstuck⟩

/-- The scanner accepts exactly the sources that hold lexemes, and returns
these lexemes and the end of the input. -/
theorem tokenize_eq_ok_iff {source : Text} {lexemes : List Lexeme} :
    tokenize source = .ok lexemes ↔
      ∃ ls, Lexes 0 source ls ∧ lexemes = ls ++ [.endAt source.length] := by
  have hstart : Scanner.start source = ⟨source, 0, source.length⟩ := rfl
  constructor
  · intro h
    obtain ⟨ls, hls⟩ | ⟨a, b, ls, hab, hls, c, rest, hcons, hc, hread⟩ := lexes_or_stuck 0 source
    · rw [tokenize, hstart, Scanner.tokenize_lexes hls] at h
      exact ⟨ls, hls, (Except.ok.inj h).symm⟩
    · have hstop := Scanner.tokenize_append hls b source.length
      rw [hcons] at hread
      rw [← hab, hcons, Scanner.tokenize_unreadable hc hread, ← hstart] at hstop
      rw [tokenize, hstop] at h
      contradiction
  · rintro ⟨ls, hls, rfl⟩
    rw [tokenize, hstart, Scanner.tokenize_lexes hls]

/-! ## Tokens of a source -/

/-- A source that spells tokens is read as these tokens and the end of the
input. -/
theorem Spells.tokenize {source : Text} {ts : List Token} (h : Spells source ts) :
    ∃ lexemes, Conditional.tokenize source = .ok lexemes ∧
      tokensOf lexemes = ts ++ [endOfInput] := by
  obtain ⟨ls, hls, rfl⟩ := h.lexes 0
  exact ⟨_, tokenize_eq_ok_iff.2 ⟨ls, hls, rfl⟩, tokensOf_append_endAt _ _⟩

/-- Tokens need nothing between their spellings. -/
theorem spells_flatMap_spelling {ts : List Token} (h : endOfInput ∉ ts) :
    Spells (ts.flatMap spelling) ts := by
  induction ts with
  | nil => exact .nil
  | cons t ts ih =>
      rw [List.flatMap_cons]
      exact .token (List.ne_of_not_mem_cons h).symm (ih (List.not_mem_of_not_mem_cons h))

/-- A source that is read at all spells the tokens before the end of the
input. -/
theorem spells_of_tokenize {source : Text} {lexemes : List Lexeme}
    (h : tokenize source = .ok lexemes) :
    ∃ ts, Spells source ts ∧ tokensOf lexemes = ts ++ [endOfInput] := by
  obtain ⟨ls, hls, rfl⟩ := tokenize_eq_ok_iff.1 h
  exact ⟨_, hls.spells, tokensOf_append_endAt _ _⟩

/-- No text spells two token sequences. -/
theorem Spells.unique {s : Text} {ts ts' : List Token} (h : Spells s ts) (h' : Spells s ts') :
    ts = ts' := by
  obtain ⟨ls, hls, htokens⟩ := h.tokenize
  obtain ⟨ls', hls', htokens'⟩ := h'.tokenize
  rw [hls] at hls'
  rw [← Except.ok.inj hls', htokens] at htokens'
  exact List.append_cancel_right htokens'

end Conditional

import Conditional.Proofs.Derivation
import Conditional.Proofs.Lexing
import Conditional.Source

/-!
# Conditional.Proofs.Canonical

Canonical text and the sources that denote the same term.

A source denotes a term exactly if it spells a derivation of the term that
nests within the limit (`parse_eq_ok_iff`).  The canonical text of a term is
such a source, so reading it gives the term back and no two terms share it
(`parse_text_roundtrip`).  A source differs from the canonical text of its
term in blanks and in parentheses alone: erasing the parentheses of a
derivation leaves the canonical tokens of the term (`Nests.eraseParens`), and
erasing those of a text erases those of its tokens, although keywords that
stood apart then stand together (`Spells.eraseParens`).
-/

namespace Conditional

open Token

/-! ## Sources and derivations -/

/-- A source denotes a term exactly if it spells a derivation of the term that
nests within the limit. -/
theorem parse_eq_ok_iff {source : Text} {t : Term} :
    parse source = .ok t ↔ ∃ w k, Spells source w ∧ Nests w t k ∧ k ≤ nestingLimit := by
  constructor
  · intro h
    rw [parse] at h
    cases hlexemes : tokenize source with
    | error e => simp [hlexemes] at h
    | ok lexemes =>
        cases hparse : parseLexemes lexemes with
        | error e => simp [hlexemes, hparse] at h
        | ok t' =>
            obtain rfl : t' = t := by simpa [hlexemes, hparse] using h
            obtain ⟨w, k, hnests, hk, hends⟩ := parseLexemes_eq_ok_iff.1 hparse
            obtain ⟨ts, hspells, htokens⟩ := spells_of_tokenize hlexemes
            rw [htokens] at hends
            obtain hends | hends := hends
            · have hmem : endOfInput ∈ w := by simp [← hends]
              exact absurd hmem hnests.derives.endOfInput_not_mem
            · obtain rfl := List.append_cancel_right hends
              exact ⟨ts, k, hspells, hnests, hk⟩
  · rintro ⟨w, k, hspells, hnests, hk⟩
    obtain ⟨lexemes, hlexemes, htokens⟩ := hspells.tokenize
    have hparse := parseLexemes_eq_ok_iff.2 ⟨w, k, hnests, hk, .inr htokens⟩
    rw [parse, hlexemes]
    simp only [hparse]

theorem exists_spells_of_parse {source : Text} {t : Term} (h : parse source = .ok t) :
    ∃ ts, Spells source ts := by
  obtain ⟨w, k, hspells, -⟩ := parse_eq_ok_iff.1 h
  exact ⟨w, hspells⟩

/-- What a source denotes depends on its tokens alone. -/
theorem parse_of_spells {source source' : Text} {ts : List Token} {t : Term}
    (h : parse source = .ok t) (hsource : Spells source ts) (hsource' : Spells source' ts) :
    parse source' = .ok t := by
  obtain ⟨w, k, hspells, hnests, hk⟩ := parse_eq_ok_iff.1 h
  obtain rfl := hspells.unique hsource
  exact parse_eq_ok_iff.2 ⟨w, k, hsource', hnests, hk⟩

/-- What a source denotes is a native term. -/
theorem native_of_parse {source : Text} {t : Term} (h : parse source = .ok t) : t.Native := by
  obtain ⟨w, k, -, hnests, -⟩ := parse_eq_ok_iff.1 h
  exact hnests.derives.native

/-- A source that denotes a term is not empty. -/
theorem ne_nil_of_parse {source : Text} {t : Term} (h : parse source = .ok t) : source ≠ [] := by
  rintro rfl
  obtain ⟨w, k, hspells, hnests, -⟩ := parse_eq_ok_iff.1 h
  exact hnests.derives.ne_nil (hspells.unique .nil)

/-! ## Canonical text -/

/-- Native terms with the same canonical tokens are equal. -/
theorem Term.Native.eq_of_tokens_eq {t t' : Term} (h : t.Native) (h' : t'.Native)
    (htokens : t.tokens = t'.tokens) : t = t' := by
  have hderives := h'.derives
  rw [← htokens] at hderives
  exact h.derives.unique hderives

/-- **Round trip of the canonical text**: a native term that nests within the
limit is read back from its text, and, however deeply they nest, native terms
have the same text only if they are equal. -/
theorem parse_text_roundtrip :
    (∀ t : Term, t.Native → t.nesting ≤ nestingLimit →
      ∃ s, t.text = .ok s ∧ parse s = .ok t) ∧
    ∀ t t' : Term, t.Native → t'.Native → (t.text = t'.text ↔ t = t') := by
  constructor
  · intro t h hnesting
    obtain ⟨s, htext, hspells⟩ := h.spells
    exact ⟨s, htext, parse_eq_ok_iff.2 ⟨t.tokens, t.nesting, hspells, h.nests, hnesting⟩⟩
  · intro t t' h h'
    refine ⟨fun heq => ?_, congrArg Term.text⟩
    obtain ⟨s, htext, hspells⟩ := h.spells
    obtain ⟨s', htext', hspells'⟩ := h'.spells
    rw [htext, htext'] at heq
    obtain rfl := Except.ok.inj heq
    exact h.eq_of_tokens_eq h' (hspells.unique hspells')

/-- A conditional in the first and in the last part of another one. -/
def conditionalWithin : Term :=
  .ite (.ite (.lit true) (.lit false) (.lit true)) (.lit false)
    (.ite (.lit false) (.lit true) (.lit false))

theorem parse_text_roundtrip_within :
    conditionalWithin.Native ∧ conditionalWithin.nesting ≤ nestingLimit ∧
      (∃ s, conditionalWithin.text = .ok s ∧ parse s = .ok conditionalWithin) ∧
      (conditionalWithin.text = (Term.lit true).text ↔ conditionalWithin = .lit true) := by
  have hnative : conditionalWithin.Native := by simp [conditionalWithin, Term.Native]
  have hnesting : conditionalWithin.nesting ≤ nestingLimit := by decide
  obtain ⟨hread, hsame⟩ := parse_text_roundtrip
  exact ⟨hnative, hnesting, hread _ hnative hnesting, hsame _ _ hnative trivial⟩

/-! ## Erasing parentheses -/

/-- The tokens without the parentheses. -/
def eraseParens (ts : List Token) : List Token := ts.filter fun t => t ≠ lparen ∧ t ≠ rparen

/-- The text without its parentheses. -/
def Text.eraseParens (s : Text) : Text := s.filter fun c => c ≠ '(' ∧ c ≠ ')'

theorem eraseParens_append (ts us : List Token) :
    eraseParens (ts ++ us) = eraseParens ts ++ eraseParens us := List.filter_append ..

/-- Erasing the parentheses of a text erases those of the tokens that it
spells. -/
theorem Spells.eraseParens {s : Text} {ts : List Token} (h : Spells s ts) :
    Spells s.eraseParens (Conditional.eraseParens ts) := by
  induction h with
  | nil => exact .nil
  | @blank c s ts hc _ ih =>
      have hkept : Text.eraseParens (c :: s) = c :: s.eraseParens := by
        obtain rfl | rfl : c = ' ' ∨ c = '\t' := by simpa [Text.isBlank] using hc
        · rfl
        · rfl
      rw [hkept]
      exact .blank hc ih
  | @token t s ts ht _ ih =>
      cases t with
      | endOfInput => exact absurd rfl ht
      | lparen | rparen => exact ih
      | litTrue | litFalse | kwIf | kwThen | kwElse => exact Spells.token ht ih

/-- Erasing the parentheses of a derivation leaves the canonical tokens of its
term, and these nest no more deeply. -/
theorem Nests.eraseParens {w : List Token} {t : Term} {k : Nat} (h : Nests w t k) :
    Conditional.eraseParens w = t.tokens ∧ t.nesting ≤ k := by
  induction h with
  | litTrue | litFalse => exact ⟨rfl, Nat.le_refl 0⟩
  | @conditional u v w c a b k m n _ _ _ hc ha hb =>
      obtain ⟨hu, hk⟩ := hc
      obtain ⟨hv, hm⟩ := ha
      obtain ⟨hw, hn⟩ := hb
      refine ⟨?_, show max (max c.nesting a.nesting) b.nesting + 1 ≤ _ by omega⟩
      rw [Term.tokens, ← hu, ← hv, ← hw, eraseParens_append, eraseParens_append]
      rfl
  | @group w t n _ ih =>
      refine ⟨?_, Nat.le_succ_of_le ih.2⟩
      rw [eraseParens_append, ← ih.1]
      exact List.append_nil _

/-- The tokens of a source that denotes a term are the canonical tokens of the
term, parentheses and the end of the input apart. -/
theorem eraseParens_tokensOf {source : Text} {t : Term} {lexemes : List Lexeme}
    (h : parse source = .ok t) (hlexemes : tokenize source = .ok lexemes) :
    eraseParens (tokensOf lexemes) = t.tokens ++ [endOfInput] := by
  obtain ⟨w, k, hspells, hnests, -⟩ := parse_eq_ok_iff.1 h
  obtain ⟨lexemes', hlexemes', htokens⟩ := hspells.tokenize
  rw [hlexemes] at hlexemes'
  obtain rfl := Except.ok.inj hlexemes'
  rw [htokens, eraseParens_append, hnests.eraseParens.1]
  rfl

/-- **Parentheses are redundant.**  For a source that denotes a term, the
canonical text of the term has the tokens of the source without the
parentheses and nests no more deeply; the source without its parentheses and
the canonical text denote the same term; and another source denotes it
exactly if the tokens agree when the parentheses are erased. -/
theorem parse_parens_redundant {source : Text} {t : Term} (h : parse source = .ok t) :
    ∃ lexemes canonical canonicalLexemes,
      tokenize source = .ok lexemes ∧ t.text = .ok canonical ∧
      tokenize canonical = .ok canonicalLexemes ∧
      tokensOf canonicalLexemes = eraseParens (tokensOf lexemes) ∧
      parse source.eraseParens = .ok t ∧ parse canonical = .ok t ∧
      (∀ w k, Spells source w → Nests w t k → Nests (eraseParens w) t t.nesting ∧ t.nesting ≤ k) ∧
      ∀ other t' otherLexemes, parse other = .ok t' → tokenize other = .ok otherLexemes →
        (t = t' ↔ eraseParens (tokensOf lexemes) = eraseParens (tokensOf otherLexemes)) := by
  obtain ⟨w, k, hspells, hnests, hk⟩ := parse_eq_ok_iff.1 h
  have hnative := hnests.derives.native
  obtain ⟨herase, hnesting⟩ := hnests.eraseParens
  obtain ⟨lexemes, hlexemes, htokens⟩ := hspells.tokenize
  obtain ⟨canonical, htext, hspells'⟩ := hnative.spells
  obtain ⟨canonicalLexemes, hlexemes', htokens'⟩ := hspells'.tokenize
  have hwithin : t.nesting ≤ nestingLimit := Nat.le_trans hnesting hk
  refine ⟨lexemes, canonical, canonicalLexemes, hlexemes, htext, hlexemes', ?_, ?_, ?_, ?_, ?_⟩
  · rw [htokens', eraseParens_tokensOf h hlexemes]
  · exact parse_eq_ok_iff.2 ⟨_, _, hspells.eraseParens, herase ▸ hnative.nests, hwithin⟩
  · exact parse_eq_ok_iff.2 ⟨_, _, hspells', hnative.nests, hwithin⟩
  · intro w' k' _ hnests'
    obtain ⟨herase', hnesting'⟩ := hnests'.eraseParens
    exact ⟨herase' ▸ hnative.nests, hnesting'⟩
  · intro other t' otherLexemes hother hotherLexemes
    rw [eraseParens_tokensOf h hlexemes, eraseParens_tokensOf hother hotherLexemes]
    constructor
    · rintro rfl
      rfl
    · intro heq
      obtain ⟨w', k', -, hnests', -⟩ := parse_eq_ok_iff.1 hother
      exact hnative.eq_of_tokens_eq hnests'.derives.native (List.append_cancel_right heq)

/-- Erasing the parentheses glues the keywords of this source together. -/
theorem parse_parens_redundant_glued :
    parse "if(true)then((false))else(true)" = .ok (.ite (.lit true) (.lit false) (.lit true)) ∧
      parse (Text.eraseParens "if(true)then((false))else(true)") =
        .ok (.ite (.lit true) (.lit false) (.lit true)) ∧
      ∃ canonical, (Term.ite (.lit true) (.lit false) (.lit true)).text = .ok canonical ∧
        parse canonical = .ok (.ite (.lit true) (.lit false) (.lit true)) := by
  have hspells := spells_flatMap_spelling (show endOfInput ∉
    [kwIf, lparen, litTrue, rparen, kwThen, lparen, lparen, litFalse, rparen, rparen, kwElse,
      lparen, litTrue, rparen] by decide)
  have hnests := Nests.conditional (.group .litTrue) (.group (.group .litFalse)) (.group .litTrue)
  have hparse : parse "if(true)then((false))else(true)" =
      .ok (.ite (.lit true) (.lit false) (.lit true)) :=
    parse_eq_ok_iff.2 ⟨_, _, hspells, hnests, by decide⟩
  obtain ⟨-, canonical, -, -, htext, -, -, herased, hcanonical, -⟩ := parse_parens_redundant hparse
  exact ⟨hparse, herased, canonical, htext, hcanonical⟩

end Conditional

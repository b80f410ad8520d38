import Conditional.Proofs.Messages
import Conditional.Proofs.Nesting
import Conditional.Proofs.Reading

/-!
# Conditional.Proofs.Derivation

The parser reads exactly what the grammar derives.  A call that succeeds has
passed over a derivation of its term (`Reads.exists_nests`), and a derivation
that stands behind the cursor is read, with any number of levels that exceeds
its nesting (`Nests.reads`).  Since the parser is a function, it follows that
the grammar gives a token sequence at most one term (`Derives.unique`).

For whole streams, `parseLexemes_eq_ok_iff` is exact about the nesting limit,
and `parseLexemes_of_derives` does without the nesting: whatever is derived
is accepted, unless it is reported as nested too deeply.
-/

namespace Conditional

open Token Conditional.Parser

/-! ## One expression -/

/-- **Soundness**: what is read is a derivation of the term, and its nesting
stays below the number of levels. -/
theorem Parser.Reads.exists_nests {n : Nat} {c c' : Cursor} {t : Term} (h : Reads n c t c') :
    ∃ ls k, c.Moves ls c' ∧ Nests (tokensOf ls) t k ∧ k < n := by
  induction h with
  | @litTrue n c hc =>
      refine ⟨[c.peek], 0, .over hc (by decide), ?_, by omega⟩
      rw [tokensOf, List.map_singleton, hc]
      exact .litTrue
  | @litFalse n c hc =>
      refine ⟨[c.peek], 0, .over hc (by decide), ?_, by omega⟩
      rw [tokensOf, List.map_singleton, hc]
      exact .litFalse
  | @conditional n c c₁ c₂ c₃ s a b hc _ hthen _ helse _ ihs iha ihb =>
      obtain ⟨us, k, hus, hk, hkn⟩ := ihs
      obtain ⟨vs, m, hvs, hm, hmn⟩ := iha
      obtain ⟨ws, i, hws, hi, hin⟩ := ihb
      have hif := Cursor.Moves.over hc (by decide)
      have hkw₁ := Cursor.Moves.over hthen (by decide)
      have hkw₂ := Cursor.Moves.over helse (by decide)
      have hmoves := ((hif.trans hus).trans (hkw₁.trans hvs)).trans (hkw₂.trans hws)
      refine ⟨_, _, hmoves, ?_, show max (max k m) i + 1 < n + 1 by omega⟩
      simpa [tokensOf, hc, hthen, helse] using Nests.conditional hk hm hi
  | @group n c c₁ t hc _ hclose ih =>
      obtain ⟨ls, k, hls, hk, hkn⟩ := ih
      have hopen := Cursor.Moves.over hc (by decide)
      have hshut := Cursor.Moves.over hclose (by decide)
      refine ⟨_, _, (hopen.trans hls).trans hshut, ?_, show k + 1 < n + 1 by omega⟩
      simpa [tokensOf, hc, hclose] using Nests.group hk

/-- **Completeness**: a derivation that stands behind the cursor is read. -/
theorem Nests.reads {w : List Token} {t : Term} {k : Nat} (h : Nests w t k) {n : Nat}
    (hkn : k < n) {c c' : Cursor} {ls : List Lexeme} (hls : tokensOf ls = w)
    (hmoves : c.Moves ls c') : Reads n c t c' := by
  induction h generalizing n c c' ls with
  | litTrue =>
      obtain ⟨hc, ls', hls', hmoves'⟩ := hmoves.of_tokens_cons hls
      obtain ⟨n, rfl⟩ := Nat.exists_eq_add_of_lt hkn
      rw [hmoves'.of_tokens_nil hls']
      exact .litTrue hc
  | litFalse =>
      obtain ⟨hc, ls', hls', hmoves'⟩ := hmoves.of_tokens_cons hls
      obtain ⟨n, rfl⟩ := Nat.exists_eq_add_of_lt hkn
      rw [hmoves'.of_tokens_nil hls']
      exact .litFalse hc
  | @conditional u v w s a b k m i _ _ _ ihs iha ihb =>
      obtain ⟨n, rfl⟩ : ∃ n', n = n' + 1 := ⟨n - 1, by omega⟩
      obtain ⟨_, _, c₂, hfront, hlast, hmoves, hmoves₃⟩ := hmoves.of_tokens_append hls
      obtain ⟨_, _, c₁, hfirst, hmiddle, hmoves, hmoves₂⟩ := hmoves.of_tokens_append hfront
      obtain ⟨hif, us, hus, hmoves₁⟩ := hmoves.of_tokens_cons hfirst
      obtain ⟨hthen, vs, hvs, hmoves₂⟩ := hmoves₂.of_tokens_cons hmiddle
      obtain ⟨helse, ws, hws, hmoves₃⟩ := hmoves₃.of_tokens_cons hlast
      have hs := ihs (show k < n by omega) hus hmoves₁
      have ha := iha (show m < n by omega) hvs hmoves₂
      have hb := ihb (show i < n by omega) hws hmoves₃
      exact .conditional hif hs hthen ha helse hb
  | @group w t k _ ih =>
      obtain ⟨n, rfl⟩ : ∃ n', n = n' + 1 := ⟨n - 1, by omega⟩
      obtain ⟨_, _, c₁, hfront, hlast, hmoves, hmoves₂⟩ := hmoves.of_tokens_append hls
      obtain ⟨hopen, inner, hinner, hmoves₁⟩ := hmoves.of_tokens_cons hfront
      obtain ⟨hclose, ls', hls', hmoves₂⟩ := hmoves₂.of_tokens_cons hlast
      rw [hmoves₂.of_tokens_nil hls']
      exact .group hopen (ih (show k < n by omega) hinner hmoves₁) hclose

/-- An expression at the front of a token sequence is the only one there: no
other prefix is an expression, and this one is an expression of one term. -/
theorem Derives.eq_of_append_eq {w w' v v' : List Token} {t t' : Term} (h : Derives w t)
    (h' : Derives w' t') (heq : w ++ v = w' ++ v') : w = w' ∧ t = t' := by
  obtain ⟨k, hk⟩ := h.exists_nests
  obtain ⟨k', hk'⟩ := h'.exists_nests
  -- the parser reads both from one stream, and it is a function
  let lexemes : List Token → List Lexeme := List.map fun t => ⟨t, 0, 0⟩
  have htokens (ts : List Token) : tokensOf (lexemes ts) = ts := by
    simp [lexemes, tokensOf, Function.comp_def]
  have hmoves (u r : List Token) : Cursor.Moves ⟨lexemes (u ++ r), 0, 0⟩ (lexemes u)
      ⟨lexemes r, (lexemes u).length, 0⟩ := ⟨List.map_append, (Nat.zero_add _).symm, rfl⟩
  have hreads := hk.reads (show k < max k k' + 1 by omega) (htokens w) (hmoves w v)
  have hreads' := hk'.reads (show k' < max k k' + 1 by omega) (htokens w') (hmoves w' v')
  rw [← heq] at hreads'
  obtain ⟨hterm, hcursor⟩ := hreads.unique hreads'
  have hrest : lexemes v = lexemes v' := congrArg Cursor.rest hcursor
  have hv : v = v' := by rw [← htokens v, hrest, htokens]
  rw [hv] at heq
  exact ⟨List.append_cancel_right heq, hterm⟩

/-- A token sequence is an expression of at most one term. -/
theorem Derives.unique {w : List Token} {t t' : Term} (h : Derives w t) (h' : Derives w t') :
    t = t' := (h.eq_of_append_eq h' (rfl : w ++ [] = w ++ [])).2

/-! ## Whole streams -/

namespace Cursor

/-- Behind the cursor stands nothing, or one end of the input. -/
def AtEnd (c : Cursor) : Prop := tokensOf c.rest = [] ∨ tokensOf c.rest = [endOfInput]

theorem atEnd_iff {c : Cursor} :
    c.AtEnd ↔ c.peek.token = endOfInput ∧ c.passed.rest = [] := by
  obtain ⟨rest, position, finish⟩ := c
  cases rest with
  | nil => simp [AtEnd, peek, passed, Lexeme.endAt]
  | cons l ls => simp [AtEnd, peek, passed]

end Cursor

namespace Parser

/-- What the parser makes of a stream that begins with an expression. -/
theorem program_of_reads {c c₁ : Cursor} {t : Term} (h : Reads (nestingLimit + 1) c t c₁) :
    program c =
      if c₁.peek.token = endOfInput then
        if c₁.passed.rest = [] then .ok t c₁.passed
        else .error (.unexpected [endOfInput] c₁.passed.peek) c₁.passed
      else .error (.unexpected [endOfInput] c₁.peek) c₁ := by
  have hexpr : expression c = .ok t c₁ := h.expr_eq
  rw [program, bind_ok hexpr]
  by_cases hpeek : c₁.peek.token = endOfInput
  · have hget : (get : Parser Cursor) c₁.passed = .ok c₁.passed c₁.passed := rfl
    rw [bind_ok (expect_ok hpeek), bind_ok hget, if_pos hpeek]
    simp only [List.isEmpty_iff]
    split <;> rfl
  · rw [bind_error (expect_error hpeek), if_neg hpeek]

theorem program_of_fails {c c' : Cursor} {e : ParseError} (h : Fails (nestingLimit + 1) c e c') :
    program c = .error e c' := by
  have hexpr : expression c = .error e c' := h.expr_eq
  rw [program, bind_error hexpr]

end Parser

/-- A stream denotes the term of the expression at its front, if nothing but
the end of the input follows. -/
theorem parseLexemes_eq_ok_iff_reads {lexemes : List Lexeme} {t : Term} :
    parseLexemes lexemes = .ok t ↔
      ∃ c, Reads (nestingLimit + 1) (.ofLexemes lexemes) t c ∧ c.AtEnd := by
  obtain ⟨t', c', hreads⟩ | ⟨e, c', hfails⟩ :=
    reads_or_fails (nestingLimit + 1) (.ofLexemes lexemes)
  · rw [parseLexemes, program_of_reads hreads]
    constructor
    · intro h
      by_cases hpeek : c'.peek.token = endOfInput
      · by_cases hrest : c'.passed.rest = []
        · rw [if_pos hpeek, if_pos hrest] at h
          cases h
          exact ⟨c', hreads, Cursor.atEnd_iff.2 ⟨hpeek, hrest⟩⟩
        · rw [if_pos hpeek, if_neg hrest] at h
          contradiction
      · rw [if_neg hpeek] at h
        contradiction
    · rintro ⟨c, hc, hend⟩
      obtain ⟨rfl, rfl⟩ := hc.unique hreads
      obtain ⟨hpeek, hrest⟩ := Cursor.atEnd_iff.1 hend
      rw [if_pos hpeek, if_pos hrest]
  · rw [parseLexemes, program_of_fails hfails]
    constructor
    · intro h
      contradiction
    · rintro ⟨c, hc, -⟩
      have hsame := hc.expr_eq.symm.trans hfails.expr_eq
      contradiction

/-- A stream is nested too deeply if the expression at its front is. -/
theorem parseLexemes_of_tooDeep {lexemes : List Lexeme} {l : Lexeme} {c : Cursor}
    (h : Fails (nestingLimit + 1) (.ofLexemes lexemes) (.tooDeep l) c) :
    parseLexemes lexemes = .error (.tooDeep l) := by
  rw [parseLexemes, program_of_fails h]

/-- The tokens of a program without a word about its end: they may or may not
be followed by one end of the input. -/
def Ends (tokens w : List Token) : Prop := tokens = w ∨ tokens = w ++ [endOfInput]

theorem ends_tokensOf_iff {lexemes : List Lexeme} {w : List Token} :
    Ends (tokensOf lexemes) w ↔
      ∃ ls c, tokensOf ls = w ∧ (Cursor.ofLexemes lexemes).Moves ls c ∧ c.AtEnd := by
  constructor
  · intro h
    obtain ⟨ls, rest, hsplit, hls, hrest⟩ :
        ∃ ls rest, lexemes = ls ++ rest ∧ tokensOf ls = w ∧
          (tokensOf rest = [] ∨ tokensOf rest = [endOfInput]) := by
      obtain h | h := h
      · exact ⟨lexemes, [], (List.append_nil _).symm, h, .inl rfl⟩
      · obtain ⟨ls, rest, rfl, hls, hrest⟩ := List.map_eq_append_iff.1 h
        exact ⟨ls, rest, rfl, hls, .inr hrest⟩
    exact ⟨ls, ⟨rest, ls.length, (Cursor.ofLexemes lexemes).finish⟩, hls,
      ⟨hsplit, (Nat.zero_add _).symm, rfl⟩, hrest⟩
  · rintro ⟨ls, c, rfl, hmoves, hend⟩
    have hrest : lexemes = ls ++ c.rest := hmoves.rest
    obtain hend | hend := hend
    · left
      rw [hrest, tokensOf_append, hend, List.append_nil]
    · right
      rw [hrest, tokensOf_append, hend]

/-- **Exactness within the limit**: the streams that are accepted are the
derivations that nest within the limit, with or without an end of the input. -/
theorem parseLexemes_eq_ok_iff {lexemes : List Lexeme} {t : Term} :
    parseLexemes lexemes = .ok t ↔
      ∃ w k, Nests w t k ∧ k ≤ nestingLimit ∧ Ends (tokensOf lexemes) w := by
  rw [parseLexemes_eq_ok_iff_reads]
  constructor
  · rintro ⟨c, hreads, hend⟩
    obtain ⟨ls, k, hmoves, hnests, hk⟩ := hreads.exists_nests
    have hends := ends_tokensOf_iff.2 ⟨ls, c, rfl, hmoves, hend⟩
    exact ⟨tokensOf ls, k, hnests, Nat.le_of_lt_succ hk, hends⟩
  · rintro ⟨w, k, hnests, hk, hends⟩
    obtain ⟨ls, c, hls, hmoves, hend⟩ := ends_tokensOf_iff.1 hends
    exact ⟨c, hnests.reads (Nat.lt_succ_of_le hk) hls hmoves, hend⟩

/-- Whatever is derived is accepted, unless it is reported as nested too
deeply. -/
theorem parseLexemes_of_derives {lexemes : List Lexeme} {w : List Token} {t : Term}
    (h : Derives w t) (hends : Ends (tokensOf lexemes) w)
    (hshallow : ∀ l, parseLexemes lexemes ≠ .error (.tooDeep l)) :
    parseLexemes lexemes = .ok t := by
  obtain ⟨k, hk⟩ := h.exists_nests
  obtain ⟨ls, c, hls, hmoves, hend⟩ := ends_tokensOf_iff.1 hends
  have hreads := hk.reads (Nat.lt_succ_self k) hls hmoves
  rw [parseLexemes_eq_ok_iff_reads]
  obtain ⟨t', c', hreads'⟩ | ⟨e, c', hfails⟩ :=
    reads_or_fails (nestingLimit + 1) (.ofLexemes lexemes)
  · obtain ⟨rfl, rfl⟩ := hreads'.unique hreads
    exact ⟨c', hreads', hend⟩
  · obtain ⟨l, rfl⟩ := hreads.tooDeep_of_fails hfails
    exact absurd (parseLexemes_of_tooDeep hfails) (hshallow l)

/-! ## Streams of mixed items -/

namespace StreamItem

/-- The token of an item, with or without a span; a foreign item has none. -/
def token? : StreamItem → Option Token
  | token t => some t
  | lexeme l => some l.token
  | foreign _ => none

/-- A stream without foreign items becomes lexemes of its tokens. -/
theorem toLexemes_eq_ok {items : List StreamItem} {tokens : List Token}
    (h : items.mapM token? = some tokens) (index : Nat) :
    ∃ lexemes, toLexemes index items = .ok lexemes ∧ tokensOf lexemes = tokens := by
  induction items generalizing index tokens with
  | nil =>
      obtain rfl : [] = tokens := by simpa using h
      exact ⟨[], rfl, rfl⟩
  | cons item items ih =>
      simp only [List.mapM_cons, Option.bind_eq_bind, Option.bind_eq_some_iff, Option.pure_def,
        Option.some.injEq] at h
      obtain ⟨t, ht, ts, hts, rfl⟩ := h
      obtain ⟨lexemes, hlexemes, htokens⟩ := ih hts (index + 1)
      obtain ⟨l, hl, hlt⟩ : ∃ l, item.toLexeme index = .ok l ∧ l.token = t := by
        cases item with
        | token t' => exact ⟨_, rfl, Option.some.inj ht⟩
        | lexeme l => exact ⟨l, rfl, Option.some.inj ht⟩
        | foreign form => contradiction
      refine ⟨l :: lexemes, ?_, by rw [tokensOf, List.map_cons, hlt, ← htokens]⟩
      rw [toLexemes, hl, hlexemes]
      rfl

end StreamItem

/-- **Exactness of the parser** on streams of tokens and lexemes.  Unless the
nesting is too deep, a stream is accepted with a term exactly if it is an
expression of that term, with or without one end of the input behind it, and
every other stream is rejected with an error that can be reported; an
expression has one term; and an expression within the nesting limit is
accepted. -/
theorem parse_stream_exact {items : List StreamItem} {tokens : List Token}
    (h : items.mapM StreamItem.token? = some tokens) :
    ∃ lexemes, StreamItem.toLexemes 0 items = .ok lexemes ∧
      ((∀ l, parseLexemes lexemes ≠ .error (.tooDeep l)) →
        (∀ t, parseLexemes lexemes = .ok t ↔
          ∃ w, endOfInput ∉ w ∧ Derives w t ∧ (tokens = w ∨ tokens = w ++ [endOfInput])) ∧
        ((¬ ∃ w t, Derives w t ∧ (tokens = w ∨ tokens = w ++ [endOfInput])) →
          ∃ e, parseLexemes lexemes = .error e ∧
            ∀ source, ∃ p, ParseError.problem source e = .ok p)) ∧
      (∀ w t t', Derives w t → Derives w t' → t = t') ∧
      (∀ w t k, Nests w t k → k ≤ nestingLimit →
        (tokens = w ∨ tokens = w ++ [endOfInput]) → parseLexemes lexemes = .ok t) := by
  obtain ⟨lexemes, hlexemes, rfl⟩ := StreamItem.toLexemes_eq_ok h 0
  have hsound : ∀ t, parseLexemes lexemes = .ok t →
      ∃ w, endOfInput ∉ w ∧ Derives w t ∧ Ends (tokensOf lexemes) w := by
    intro t ht
    obtain ⟨w, k, hnests, -, hends⟩ := parseLexemes_eq_ok_iff.1 ht
    exact ⟨w, hnests.derives.endOfInput_not_mem, hnests.derives, hends⟩
  refine ⟨lexemes, hlexemes, fun hshallow => ⟨fun t => ⟨hsound t, ?_⟩, ?_⟩,
    fun w t t' => Derives.unique, fun w t k hnests hk hends => ?_⟩
  · rintro ⟨w, -, hderives, hends⟩
    exact parseLexemes_of_derives hderives hends hshallow
  · intro hnone
    cases hparse : parseLexemes lexemes with
    | ok t =>
        obtain ⟨w, -, hderives, hends⟩ := hsound t hparse
        exact absurd ⟨w, t, hderives, hends⟩ hnone
    | error e =>
        refine ⟨e, rfl, fun source => ?_⟩
        obtain ⟨p, hp, -⟩ := e.exists_problem source
        exact ⟨p, hp⟩
  · exact parseLexemes_eq_ok_iff.2 ⟨w, k, hnests, hk, hends⟩

/-- A conditional with a grouped branch, in items of both kinds. -/
def mixedStream : List StreamItem :=
  [.token kwIf, .lexeme ⟨litTrue, 7, 9⟩, .token kwThen, .token lparen, .lexeme ⟨litFalse, 0, 0⟩,
    .token rparen, .token kwElse, .token litTrue, .token endOfInput]

theorem parse_stream_exact_mixed :
    mixedStream.mapM StreamItem.token? = some
        [kwIf, litTrue, kwThen, lparen, litFalse, rparen, kwElse, litTrue, endOfInput] ∧
      ∃ lexemes, StreamItem.toLexemes 0 mixedStream = .ok lexemes ∧
        (∀ l, parseLexemes lexemes ≠ .error (.tooDeep l)) ∧
        parseLexemes lexemes = .ok (.ite (.lit true) (.lit false) (.lit true)) := by
  have htokens : mixedStream.mapM StreamItem.token? = some
      [kwIf, litTrue, kwThen, lparen, litFalse, rparen, kwElse, litTrue, endOfInput] := rfl
  obtain ⟨lexemes, hlexemes, -, -, hwithin⟩ := parse_stream_exact htokens
  have hnests := Nests.conditional .litTrue (.group .litFalse) .litTrue
  have hparse := hwithin _ _ _ hnests (by decide) (.inr rfl)
  exact ⟨htokens, lexemes, hlexemes, by simp [hparse], hparse⟩

end Conditional

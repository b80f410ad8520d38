import Conditional.Proofs.Derivation
import Conditional.Proofs.Expectation

/-!
# Conditional.Proofs.Locality

The parser reads an expression where it stands.  Which term it finds, and how
far it goes, is decided by the tokens of that expression alone
(`Parser.Reads.local_of_seek`): what stands before them is never looked at, and
what stands behind them cannot be taken for a part of the expression, since no
expression continues another one (`Derives.eq_of_append_eq`).  So expressions
that stand one behind the other are read one after another
(`Parser.exprs_of_nests`).

A step that fails leaves the cursor at the lexeme that its error is about
(`Parser.Blames`), however deep in the recursion the error was met.

All of this is about a cursor at a position of a whole stream
(`Cursor.seek`), and about any number of levels.
-/

namespace Conditional

open Token

/-! ## Positions -/

namespace Cursor

/-- The cursor at a position of a stream; the cursor at the beginning is the one
at position zero.  The position may lie beyond the end, and then nothing is left
to read. -/
def seek (stream : List Lexeme) (position : Nat) : Cursor :=
  ⟨stream.drop position, position, (ofLexemes stream).finish⟩

variable {stream ls : List Lexeme} {p : Nat} {c : Cursor}

@[simp] theorem passed_seek (stream : List Lexeme) (p : Nat) :
    (seek stream p).passed = seek stream (p + 1) := by
  rw [passed, seek, seek, List.tail_drop]

/-- A cursor that passes over lexemes stands at the position behind them. -/
theorem Moves.eq_seek (h : (seek stream p).Moves ls c) : c = seek stream (p + ls.length) := by
  obtain ⟨rest, position, finish⟩ := c
  obtain ⟨hrest, hposition, hfinish⟩ := h
  have hdrop : stream.drop (p + ls.length) = rest := by
    rw [← List.drop_drop, show stream.drop p = ls ++ rest from hrest, List.drop_left']
    rfl
  simp_all [seek]

/-- The lexemes at a position can be passed over. -/
theorem moves_seek (h : ls <+: stream.drop p) :
    (seek stream p).Moves ls (seek stream (p + ls.length)) := by
  obtain ⟨rest, hrest⟩ := h
  have hdrop : stream.drop (p + ls.length) = rest := by
    rw [← List.drop_drop, ← hrest, List.drop_left']
    rfl
  exact ⟨by rw [seek, seek, hdrop, hrest], rfl, rfl⟩

/-- Tokens that stand at a position are those of lexemes there. -/
theorem exists_moves_seek {w : List Token} (h : w <+: (tokensOf stream).drop p) :
    ∃ ls, tokensOf ls = w ∧ (seek stream p).Moves ls (seek stream (p + w.length)) := by
  obtain ⟨rest, hrest⟩ := h
  rw [tokensOf, ← List.map_drop] at hrest
  obtain ⟨ls, ls', hsplit, rfl, -⟩ := List.map_eq_append_iff.1 hrest.symm
  have hmoves : (seek stream p).Moves ls (seek stream (p + ls.length)) :=
    moves_seek ⟨ls', hsplit.symm⟩
  exact ⟨ls, rfl, by rwa [List.length_map]⟩

end Cursor

namespace Parser

open Cursor

/-! ## What is read -/

/-- The tokens between two positions of a stream. -/
def tokensBetween (stream : List Lexeme) (p q : Nat) : List Token :=
  ((tokensOf stream).take q).drop p

theorem length_tokensBetween {stream : List Lexeme} {p q : Nat} (h : q ≤ stream.length) :
    (tokensBetween stream p q).length = q - p := by
  rw [tokensBetween, List.length_drop, List.length_take, List.length_map, Nat.min_eq_left h]

theorem tokensBetween_prefix (stream : List Lexeme) (p q : Nat) :
    tokensBetween stream p q <+: (tokensOf stream).drop p := by
  rw [tokensBetween, List.drop_take]
  exact List.take_prefix _ _

/-- Between the two positions stands an expression of the term, it is read as
that term, and this is a matter of its tokens alone. -/
structure Local (n : Nat) (stream : List Lexeme) (p : Nat) (t : Term) (q : Nat) : Prop where
  advances : p < q
  within : q ≤ stream.length
  derives : Derives (tokensBetween stream p q) t
  /-- No expression that begins at the first position has another end. -/
  ends : ∀ q' ≤ stream.length, ∀ t', Derives (tokensBetween stream p q') t' → q' = q
  /-- Wherever the same tokens stand, the same term is read. -/
  elsewhere : ∀ other p₀, tokensBetween stream p q <+: (tokensOf other).drop p₀ →
    expr n (seek other p₀) = .ok t (seek other (p₀ + (q - p)))

section

variable {n : Nat} {stream : List Lexeme} {p : Nat} {t : Term} {c : Cursor}

/-- A derivation that stands at a position is read there. -/
theorem expr_seek_of_nests {w : List Token} {k : Nat} (h : Nests w t k) (hk : k < n)
    (hw : w <+: (tokensOf stream).drop p) :
    expr n (seek stream p) = .ok t (seek stream (p + w.length)) := by
  obtain ⟨ls, hls, hmoves⟩ := exists_moves_seek hw
  exact (h.reads hk hls hmoves).expr_eq

/-- What is read at a position is read for its own sake. -/
theorem Reads.local_of_seek (h : Reads n (seek stream p) t c) :
    ∃ q, c = seek stream q ∧ Local n stream p t q := by
  obtain ⟨ls, k, hmoves, hnests, hk⟩ := h.exists_nests
  have hderives := hnests.derives
  have hpos : 0 < ls.length := by
    rw [← List.length_map]
    exact List.length_pos_iff.2 hderives.ne_nil
  have hsplit : stream.drop p = ls ++ c.rest := hmoves.rest
  have hlength := congrArg List.length hsplit
  rw [List.length_drop, List.length_append] at hlength
  have hbetween : tokensBetween stream p (p + ls.length) = tokensOf ls := by
    rw [tokensBetween, List.drop_take, Nat.add_sub_cancel_left, tokensOf, ← List.map_drop,
      hsplit, ← List.map_take, List.take_left']
    rfl
  refine ⟨p + ls.length, hmoves.eq_seek, by omega, by omega, hbetween ▸ hderives, ?_, ?_⟩
  · intro q' hq' t' hderives'
    -- both expressions stand at the front of what is left of the stream
    obtain ⟨rest, hrest⟩ := tokensBetween_prefix stream p (p + ls.length)
    obtain ⟨rest', hrest'⟩ := tokensBetween_prefix stream p q'
    rw [hbetween] at hrest
    obtain ⟨hsame, -⟩ := hderives.eq_of_append_eq hderives' (hrest.trans hrest'.symm)
    have hlengths := congrArg List.length hsame
    rw [length_tokensBetween hq', List.length_map] at hlengths
    omega
  · intro other p₀ hother
    rw [hbetween] at hother
    have hread := expr_seek_of_nests hnests hk hother
    rwa [List.length_map, ← Nat.add_sub_cancel_left (n := p) (m := ls.length)] at hread

end

/-! ## Reading on -/

/-- Reads so many expressions, one after another. -/
def exprs (levels : Nat) : Nat → Parser (List Term)
  | 0 => pure []
  | count + 1 => do
    let t ← expr levels
    let ts ← exprs levels count
    return t :: ts

theorem exprs_succ {n count : Nat} {c c₁ c₂ : Cursor} {t : Term} {ts : List Term}
    (h : expr n c = .ok t c₁) (hrest : exprs n count c₁ = .ok ts c₂) :
    exprs n (count + 1) c = .ok (t :: ts) c₂ := by
  rw [exprs, bind_ok h, bind_ok hrest]
  rfl

/-- Expressions that stand one behind the other are read one after another. -/
theorem exprs_of_nests {n : Nat} {stream : List Lexeme} {p : Nat} {parts : List (List Token × Term)}
    (h : ∀ part ∈ parts, ∃ k, Nests part.1 part.2 k ∧ k < n)
    (hparts : parts.flatMap Prod.fst <+: (tokensOf stream).drop p) :
    exprs n parts.length (seek stream p) =
      .ok (parts.map Prod.snd) (seek stream (p + (parts.flatMap Prod.fst).length)) := by
  induction parts generalizing p with
  | nil => rfl
  | cons part parts ih =>
      obtain ⟨w, t⟩ := part
      obtain ⟨⟨k, hnests, hk⟩, hothers⟩ := List.forall_mem_cons.1 h
      rw [List.flatMap_cons] at hparts
      have hfirst := expr_seek_of_nests hnests hk ((List.prefix_append w _).trans hparts)
      have hbehind : parts.flatMap Prod.fst <+: (tokensOf stream).drop (p + w.length) := by
        rw [← List.drop_drop]
        obtain ⟨rest, hrest⟩ := hparts
        rw [← hrest, List.append_assoc, List.drop_left']
        · exact List.prefix_append _ _
        · rfl
      have hlater := ih hothers hbehind
      rw [Nat.add_assoc, ← List.length_append] at hlater
      exact exprs_succ hfirst hlater

/-! ## What an error is about -/

/-- Where the step fails, the cursor has not gone back, and the error, as it is
reported, is about the lookahead. -/
def Blames {α : Type} (x : Parser α) (stream : List Lexeme) (p : Nat) : Prop :=
  ∀ e c, x (seek stream p) = .error e c →
    ∃ q, p ≤ q ∧ c = seek stream q ∧ e.found = (seek stream q).peek ∧
      ∀ source, ∃ problem, e.problem source = .ok problem ∧
        problem.cause = .unexpected (toSet e.expected) (seek stream q).peek.token
          (seek stream q).peek.start

section

variable {α : Type} {x : Parser α} {stream : List Lexeme} {p : Nat}

/-- It is enough that the error is about the lookahead of a cursor that has
passed over lexemes. -/
theorem blames_of_moves
    (h : ∀ e c, x (seek stream p) = .error e c →
      ∃ q, p ≤ q ∧ c = seek stream q ∧ e.found = c.peek) : Blames x stream p := by
  intro e c hx
  obtain ⟨q, hq, rfl, hfound⟩ := h e c hx
  refine ⟨q, hq, rfl, hfound, fun source => ?_⟩
  obtain ⟨problem, hproblem, hcause⟩ := e.exists_problem source
  exact ⟨problem, hproblem, by rw [hcause, hfound]⟩

/-- An error in an expression is about a lexeme at the position or behind it. -/
theorem Fails.exists_seek {n : Nat} {e : ParseError} {c : Cursor}
    (h : Fails n (seek stream p) e c) : ∃ q, p ≤ q ∧ c = seek stream q ∧ e.found = c.peek := by
  obtain ⟨d, agenda, ⟨ls, hmoves, -⟩, hfound, -⟩ := h.exists_serves 0 []
  exact ⟨p + ls.length, Nat.le_add_right _ _, hmoves.eq_seek, hfound⟩

theorem blames_expr (n : Nat) (stream : List Lexeme) (p : Nat) : Blames (expr n) stream p :=
  blames_of_moves fun _ _ h => (expr_eq_error_iff.1 h).exists_seek

theorem blames_expect (t : Token) (stream : List Lexeme) (p : Nat) :
    Blames (expect t) stream p := by
  refine blames_of_moves fun e c h => ?_
  by_cases hpeek : (seek stream p).peek.token = t
  · rw [expect_ok hpeek] at h
    contradiction
  · rw [expect_error hpeek] at h
    cases h
    exact ⟨p, Nat.le_refl p, rfl, rfl⟩

theorem blames_program (stream : List Lexeme) (p : Nat) : Blames program stream p := by
  refine blames_of_moves fun e c h => ?_
  obtain ⟨t, c₁, hreads⟩ | ⟨e', c₁, hfails⟩ := reads_or_fails (nestingLimit + 1) (seek stream p)
  · obtain ⟨q, rfl, hlocal⟩ := hreads.local_of_seek
    have hpq : p ≤ q := Nat.le_of_lt hlocal.advances
    rw [program_of_reads hreads, passed_seek] at h
    by_cases hpeek : (seek stream q).peek.token = endOfInput
    · rw [if_pos hpeek] at h
      by_cases hrest : (seek stream (q + 1)).rest = []
      · rw [if_pos hrest] at h
        contradiction
      · rw [if_neg hrest] at h
        cases h
        exact ⟨q + 1, Nat.le_succ_of_le hpq, rfl, rfl⟩
    · rw [if_neg hpeek] at h
      cases h
      exact ⟨q, hpq, rfl, rfl⟩
  · rw [program_of_fails hfails] at h
    cases h
    exact hfails.exists_seek

end

/-! ## The parser at a position -/

/-- **Expressions are read where they stand.**  What is read at a position of a
stream is an expression with one possible end, and it is read in the same way
wherever its tokens stand; expressions that stand one behind the other are read
one after another; and an error is about the lexeme at which the cursor is
left. -/
theorem expr_reads_locally (n : Nat) (stream : List Lexeme) (p : Nat) :
    (∀ t c, expr n (seek stream p) = .ok t c → ∃ q, c = seek stream q ∧ Local n stream p t q) ∧
    (∀ parts : List (List Token × Term),
      (∀ part ∈ parts, ∃ k, Nests part.1 part.2 k ∧ k < n) →
      parts.flatMap Prod.fst <+: (tokensOf stream).drop p →
      exprs n parts.length (seek stream p) =
        .ok (parts.map Prod.snd) (seek stream (p + (parts.flatMap Prod.fst).length))) ∧
    Blames (expr n) stream p ∧ (∀ t, Blames (expect t) stream p) ∧ Blames program stream p :=
  ⟨fun _ _ h => (expr_eq_ok_iff.1 h).local_of_seek, fun _ => exprs_of_nests,
    blames_expr n stream p, fun t => blames_expect t stream p, blames_program stream p⟩

/-- Two expressions between tokens that belong to neither. -/
def crowdedStream : List Lexeme :=
  [⟨rparen, 0, 1⟩, ⟨lparen, 1, 2⟩, ⟨litTrue, 2, 6⟩, ⟨rparen, 6, 7⟩, ⟨litFalse, 7, 12⟩,
    ⟨kwElse, 12, 16⟩]

theorem expr_reads_locally_crowded :
    expression (seek crowdedStream 1) = .ok (.lit true) (seek crowdedStream 4) ∧
      Local (nestingLimit + 1) crowdedStream 1 (.lit true) 4 ∧
      exprs (nestingLimit + 1) 2 (seek crowdedStream 1) =
        .ok [.lit true, .lit false] (seek crowdedStream 5) ∧
      expression (seek crowdedStream 5) =
        .error (.unexpected exprStart ⟨kwElse, 12, 16⟩) (seek crowdedStream 5) ∧
      Blames expression crowdedStream 5 := by
  obtain ⟨hread, hmany, -⟩ := expr_reads_locally (nestingLimit + 1) crowdedStream 1
  have hfirst : expression (seek crowdedStream 1) = .ok (.lit true) (seek crowdedStream 4) :=
    (Reads.group (c := seek crowdedStream 1) rfl (.litTrue rfl) rfl).expr_eq
  obtain ⟨q, hq, hlocal⟩ := hread _ _ hfirst
  obtain rfl : 4 = q := congrArg Cursor.position hq
  have htwo := hmany [([lparen, litTrue, rparen], .lit true), ([litFalse], .lit false)]
    (by simpa using ⟨⟨1, .group .litTrue, by decide⟩, ⟨0, .litFalse, by decide⟩⟩)
    ⟨[kwElse], rfl⟩
  have hfails : expression (seek crowdedStream 5) =
      .error (.unexpected exprStart ⟨kwElse, 12, 16⟩) (seek crowdedStream 5) :=
    (Fails.start (c := seek crowdedStream 5) (by decide)).expr_eq
  exact ⟨hfirst, hlocal, htwo, hfails, (expr_reads_locally _ crowdedStream 5).2.2.1⟩

end Parser

end Conditional

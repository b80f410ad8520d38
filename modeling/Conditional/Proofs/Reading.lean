import Conditional.Parser

/-!
# Conditional.Proofs.Reading

The rules by which the parser reads an expression.  `Parser.Reads` lists the
ways in which `Parser.expr` can succeed and `Parser.Fails` the ways in which
it can fail, one constructor for each place where it can stop.  Together they
say everything that a call can do (`expr_eq_ok_iff`, `expr_eq_error_iff`), so
whatever is to be shown of the parser is an induction on these rules, and the
code of the parser is looked at nowhere else.
-/

namespace Conditional

open Token

/-! ## Cursors -/

namespace Cursor

/-- The cursor behind the lookahead. -/
def passed (c : Cursor) : Cursor := { c with rest := c.rest.tail, position := c.position + 1 }

/-- The second cursor stands behind the given lexemes, which stand behind the
first one. -/
structure Moves (c : Cursor) (ls : List Lexeme) (c' : Cursor) : Prop where
  rest : c.rest = ls ++ c'.rest
  position : c'.position = c.position + ls.length
  finish : c'.finish = c.finish

theorem Moves.refl (c : Cursor) : c.Moves [] c := ⟨rfl, rfl, rfl⟩

theorem Moves.trans {c c' c'' : Cursor} {ls ls' : List Lexeme} (h : c.Moves ls c')
    (h' : c'.Moves ls' c'') : c.Moves (ls ++ ls') c'' where
  rest := by rw [h.rest, h'.rest, List.append_assoc]
  position := by rw [h'.position, h.position, List.length_append, Nat.add_assoc]
  finish := h'.finish.trans h.finish

/-- A lookahead that is not the end of the input stands in the stream. -/
theorem rest_eq_cons {c : Cursor} (h : c.peek.token ≠ endOfInput) :
    c.rest = c.peek :: c.passed.rest := by
  obtain ⟨rest, position, finish⟩ := c
  cases rest with
  | nil => exact absurd rfl h
  | cons l ls => rfl

/-- A lookahead that is some token is passed over. -/
theorem Moves.over {c : Cursor} {t : Token} (h : c.peek.token = t) (ht : t ≠ endOfInput) :
    c.Moves [c.peek] c.passed :=
  ⟨rest_eq_cons (h ▸ ht), rfl, rfl⟩

section

variable {c c' : Cursor} {ls : List Lexeme} {t : Token} {ts us : List Token}

/-- A cursor that has passed over no tokens has not moved. -/
theorem Moves.of_tokens_nil (h : c.Moves ls c') (hls : tokensOf ls = []) : c' = c := by
  obtain rfl := List.map_eq_nil_iff.1 hls
  obtain ⟨rest, position, finish⟩ := c
  obtain ⟨rest', position', finish'⟩ := c'
  obtain ⟨hrest, hposition, hfinish⟩ := h
  simp_all

/-- A cursor that passes over a token looks at it first. -/
theorem Moves.of_tokens_cons (h : c.Moves ls c') (hls : tokensOf ls = t :: ts) :
    c.peek.token = t ∧ ∃ ls', tokensOf ls' = ts ∧ c.passed.Moves ls' c' := by
  obtain ⟨l, ls', rfl, rfl, hls'⟩ := List.map_eq_cons_iff.1 hls
  have hcons : c.rest = l :: (ls' ++ c'.rest) := h.rest
  have hposition : c'.position = c.position + 1 + ls'.length := by
    rw [h.position, List.length_cons]
    omega
  refine ⟨by rw [peek, hcons], ls', hls', ?_, hposition, h.finish⟩
  simp only [Cursor.passed, hcons, List.tail_cons]

/-- A cursor that passes over two token sequences stands between them on its
way. -/
theorem Moves.of_tokens_append (h : c.Moves ls c') (hls : tokensOf ls = ts ++ us) :
    ∃ ls₁ ls₂ c₁, tokensOf ls₁ = ts ∧ tokensOf ls₂ = us ∧ c.Moves ls₁ c₁ ∧ c₁.Moves ls₂ c' := by
  obtain ⟨ls₁, ls₂, rfl, hls₁, hls₂⟩ := List.map_eq_append_iff.1 hls
  refine ⟨ls₁, ls₂, ⟨ls₂ ++ c'.rest, c.position + ls₁.length, c.finish⟩, hls₁, hls₂,
    ⟨?_, rfl, rfl⟩, ⟨rfl, ?_, h.finish⟩⟩
  · rw [h.rest, List.append_assoc]
  · rw [h.position, List.length_append, Nat.add_assoc]

end

end Cursor

/-! ## The equations of the parser -/

namespace Parser

section

variable {α β : Type} {x : Parser α} {f : α → Parser β} {c c' : Cursor}

theorem bind_ok {a : α} (h : x c = .ok a c') : (x >>= f) c = f a c' := by
  change EStateM.bind x f c = f a c'
  rw [EStateM.bind, h]

theorem bind_error {e : ParseError} (h : x c = .error e c') : (x >>= f) c = .error e c' := by
  change EStateM.bind x f c = .error e c'
  rw [EStateM.bind, h]

end

theorem expect_ok {t : Token} {c : Cursor} (h : c.peek.token = t) :
    expect t c = .ok c.peek c.passed := if_pos h

theorem expect_error {t : Token} {c : Cursor} (h : c.peek.token ≠ t) :
    expect t c = .error (.unexpected [t] c.peek) c := if_neg h

/-- What follows the keyword that opens a conditional. -/
def conditionalParts (levels : Nat) : Parser Term := do
  let condition ← expr levels
  let _ ← expect .kwThen
  let thenBranch ← expr levels
  let _ ← expect .kwElse
  let elseBranch ← expr levels
  return .ite condition thenBranch elseBranch

/-- What follows an opening parenthesis. -/
def groupParts (levels : Nat) : Parser Term := do
  let inner ← expr levels
  let _ ← expect .rparen
  return inner

/-- The lookahead decides what is read. -/
theorem expr_succ (n : Nat) (c : Cursor) :
    expr (n + 1) c =
      match c.peek.token with
      | .litTrue => .ok (.lit true) c.passed
      | .litFalse => .ok (.lit false) c.passed
      | .kwIf => conditionalParts n c.passed
      | .lparen => groupParts n c.passed
      | _ => .error (.unexpected exprStart c.peek) c := by
  have hget : (get : Parser Cursor) c = .ok c c := rfl
  rw [expr, bind_ok hget]
  cases c.peek.token <;> rfl

theorem expr_kwIf {c : Cursor} (hc : c.peek.token = .kwIf) (n : Nat) :
    expr (n + 1) c = conditionalParts n c.passed := by
  rw [expr_succ, hc]

theorem expr_lparen {c : Cursor} (hc : c.peek.token = .lparen) (n : Nat) :
    expr (n + 1) c = groupParts n c.passed := by
  rw [expr_succ, hc]

/-! ## The rules -/

/-- With so many levels, an expression of the term stands between the two
cursors. -/
inductive Reads : Nat → Cursor → Term → Cursor → Prop where
  | litTrue {n : Nat} {c : Cursor} : c.peek.token = .litTrue → Reads (n + 1) c (.lit true) c.passed
  | litFalse {n : Nat} {c : Cursor} :
      c.peek.token = .litFalse → Reads (n + 1) c (.lit false) c.passed
  | conditional {n : Nat} {c c₁ c₂ c₃ : Cursor} {s a b : Term} :
      c.peek.token = .kwIf → Reads n c.passed s c₁ →
      c₁.peek.token = .kwThen → Reads n c₁.passed a c₂ →
      c₂.peek.token = .kwElse → Reads n c₂.passed b c₃ → Reads (n + 1) c (.ite s a b) c₃
  | group {n : Nat} {c c₁ : Cursor} {t : Term} :
      c.peek.token = .lparen → Reads n c.passed t c₁ →
      c₁.peek.token = .rparen → Reads (n + 1) c t c₁.passed

/-- With so many levels, no expression stands behind the first cursor: the
error is met at the second one. -/
inductive Fails : Nat → Cursor → ParseError → Cursor → Prop where
  | levels {c : Cursor} : Fails 0 c (.tooDeep c.peek) c
  | start {n : Nat} {c : Cursor} :
      c.peek.token ∉ exprStart → Fails (n + 1) c (.unexpected exprStart c.peek) c
  | condition {n : Nat} {c c' : Cursor} {e : ParseError} :
      c.peek.token = .kwIf → Fails n c.passed e c' → Fails (n + 1) c e c'
  | kwThen {n : Nat} {c c₁ : Cursor} {s : Term} :
      c.peek.token = .kwIf → Reads n c.passed s c₁ →
      c₁.peek.token ≠ .kwThen → Fails (n + 1) c (.unexpected [.kwThen] c₁.peek) c₁
  | thenBranch {n : Nat} {c c₁ c' : Cursor} {s : Term} {e : ParseError} :
      c.peek.token = .kwIf → Reads n c.passed s c₁ →
      c₁.peek.token = .kwThen → Fails n c₁.passed e c' → Fails (n + 1) c e c'
  | kwElse {n : Nat} {c c₁ c₂ : Cursor} {s a : Term} :
      c.peek.token = .kwIf → Reads n c.passed s c₁ →
      c₁.peek.token = .kwThen → Reads n c₁.passed a c₂ →
      c₂.peek.token ≠ .kwElse → Fails (n + 1) c (.unexpected [.kwElse] c₂.peek) c₂
  | elseBranch {n : Nat} {c c₁ c₂ c' : Cursor} {s a : Term} {e : ParseError} :
      c.peek.token = .kwIf → Reads n c.passed s c₁ →
      c₁.peek.token = .kwThen → Reads n c₁.passed a c₂ →
      c₂.peek.token = .kwElse → Fails n c₂.passed e c' → Fails (n + 1) c e c'
  | inner {n : Nat} {c c' : Cursor} {e : ParseError} :
      c.peek.token = .lparen → Fails n c.passed e c' → Fails (n + 1) c e c'
  | rparen {n : Nat} {c c₁ : Cursor} {t : Term} :
      c.peek.token = .lparen → Reads n c.passed t c₁ →
      c₁.peek.token ≠ .rparen → Fails (n + 1) c (.unexpected [.rparen] c₁.peek) c₁

/-! ## The rules are what the parser does -/

theorem Reads.expr_eq {n : Nat} {c c' : Cursor} {t : Term} (h : Reads n c t c') :
    expr n c = .ok t c' := by
  induction h with
  | litTrue hc => rw [expr_succ, hc]
  | litFalse hc => rw [expr_succ, hc]
  | conditional hc _ hthen _ helse _ ihs iha ihb =>
      rw [expr_kwIf hc, conditionalParts, bind_ok ihs, bind_ok (expect_ok hthen), bind_ok iha,
        bind_ok (expect_ok helse), bind_ok ihb]
      rfl
  | group hc _ hclose ih =>
      rw [expr_lparen hc, groupParts, bind_ok ih, bind_ok (expect_ok hclose)]
      rfl

theorem Fails.expr_eq {n : Nat} {c c' : Cursor} {e : ParseError} (h : Fails n c e c') :
    expr n c = .error e c' := by
  induction h with
  | levels => rfl
  | @start n c hc =>
      rw [expr_succ]
      cases ht : c.peek.token <;> simp_all [exprStart]
  | condition hc _ ih =>
      rw [expr_kwIf hc, conditionalParts, bind_error ih]
  | kwThen hc hs hthen =>
      rw [expr_kwIf hc, conditionalParts, bind_ok hs.expr_eq, bind_error (expect_error hthen)]
  | thenBranch hc hs hthen _ ih =>
      rw [expr_kwIf hc, conditionalParts, bind_ok hs.expr_eq, bind_ok (expect_ok hthen),
        bind_error ih]
  | kwElse hc hs hthen ha helse =>
      rw [expr_kwIf hc, conditionalParts, bind_ok hs.expr_eq, bind_ok (expect_ok hthen),
        bind_ok ha.expr_eq, bind_error (expect_error helse)]
  | elseBranch hc hs hthen ha helse _ ih =>
      rw [expr_kwIf hc, conditionalParts, bind_ok hs.expr_eq, bind_ok (expect_ok hthen),
        bind_ok ha.expr_eq, bind_ok (expect_ok helse), bind_error ih]
  | inner hc _ ih =>
      rw [expr_lparen hc, groupParts, bind_error ih]
  | rparen hc ht hclose =>
      rw [expr_lparen hc, groupParts, bind_ok ht.expr_eq, bind_error (expect_error hclose)]

/-- One of the rules applies to every cursor. -/
theorem reads_or_fails (n : Nat) (c : Cursor) :
    (∃ t c', Reads n c t c') ∨ ∃ e c', Fails n c e c' := by
  induction n generalizing c with
  | zero => exact .inr ⟨_, _, .levels⟩
  | succ n ih =>
      by_cases hstart : c.peek.token ∈ exprStart
      · simp only [exprStart, List.mem_cons, List.not_mem_nil, or_false] at hstart
        obtain hc | hc | hc | hc := hstart
        · exact .inl ⟨_, _, .litTrue hc⟩
        · exact .inl ⟨_, _, .litFalse hc⟩
        · obtain ⟨s, c₁, hs⟩ | ⟨e, c', he⟩ := ih c.passed
          · by_cases hthen : c₁.peek.token = .kwThen
            · obtain ⟨a, c₂, ha⟩ | ⟨e, c', he⟩ := ih c₁.passed
              · by_cases helse : c₂.peek.token = .kwElse
                · obtain ⟨b, c₃, hb⟩ | ⟨e, c', he⟩ := ih c₂.passed
                  · exact .inl ⟨_, _, .conditional hc hs hthen ha helse hb⟩
                  · exact .inr ⟨_, _, .elseBranch hc hs hthen ha helse he⟩
                · exact .inr ⟨_, _, .kwElse hc hs hthen ha helse⟩
              · exact .inr ⟨_, _, .thenBranch hc hs hthen he⟩
            · exact .inr ⟨_, _, .kwThen hc hs hthen⟩
          · exact .inr ⟨_, _, .condition hc he⟩
        · obtain ⟨t, c₁, ht⟩ | ⟨e, c', he⟩ := ih c.passed
          · by_cases hclose : c₁.peek.token = .rparen
            · exact .inl ⟨_, _, .group hc ht hclose⟩
            · exact .inr ⟨_, _, .rparen hc ht hclose⟩
          · exact .inr ⟨_, _, .inner hc he⟩
      · exact .inr ⟨_, _, .start hstart⟩

theorem expr_eq_ok_iff {n : Nat} {c c' : Cursor} {t : Term} :
    expr n c = .ok t c' ↔ Reads n c t c' := by
  refine ⟨fun h => ?_, Reads.expr_eq⟩
  obtain ⟨t', c'', hreads⟩ | ⟨e, c'', hfails⟩ := reads_or_fails n c
  · have heq := h.symm.trans hreads.expr_eq
    cases heq
    exact hreads
  · rw [hfails.expr_eq] at h
    contradiction

theorem expr_eq_error_iff {n : Nat} {c c' : Cursor} {e : ParseError} :
    expr n c = .error e c' ↔ Fails n c e c' := by
  refine ⟨fun h => ?_, Fails.expr_eq⟩
  obtain ⟨t, c'', hreads⟩ | ⟨e', c'', hfails⟩ := reads_or_fails n c
  · rw [hreads.expr_eq] at h
    contradiction
  · have heq := h.symm.trans hfails.expr_eq
    cases heq
    exact hfails

/-! ## More levels -/

theorem Reads.succ {n : Nat} {c c' : Cursor} {t : Term} (h : Reads n c t c') :
    Reads (n + 1) c t c' := by
  induction h with
  | litTrue hc => exact .litTrue hc
  | litFalse hc => exact .litFalse hc
  | conditional hc _ hthen _ helse _ ihs iha ihb => exact .conditional hc ihs hthen iha helse ihb
  | group hc _ hclose ih => exact .group hc ih hclose

/-- What is read with some levels is read with any larger number of them. -/
theorem Reads.mono {n m : Nat} {c c' : Cursor} {t : Term} (h : Reads n c t c') (hnm : n ≤ m) :
    Reads m c t c' := by
  induction hnm with
  | refl => exact h
  | step _ ih => exact ih.succ

/-- An error that is not about the nesting does not go away with more
levels. -/
theorem Fails.succ {n : Nat} {c c' : Cursor} {e : ParseError} (h : Fails n c e c')
    (hshallow : ∀ l, e ≠ .tooDeep l) : Fails (n + 1) c e c' := by
  induction h with
  | levels => exact absurd rfl (hshallow _)
  | start hc => exact .start hc
  | condition hc _ ih => exact .condition hc (ih hshallow)
  | kwThen hc hs hthen => exact .kwThen hc hs.succ hthen
  | thenBranch hc hs hthen _ ih => exact .thenBranch hc hs.succ hthen (ih hshallow)
  | kwElse hc hs hthen ha helse => exact .kwElse hc hs.succ hthen ha.succ helse
  | elseBranch hc hs hthen ha helse _ ih =>
      exact .elseBranch hc hs.succ hthen ha.succ helse (ih hshallow)
  | inner hc _ ih => exact .inner hc (ih hshallow)
  | rparen hc ht hclose => exact .rparen hc ht.succ hclose

theorem Fails.mono {n m : Nat} {c c' : Cursor} {e : ParseError} (h : Fails n c e c')
    (hshallow : ∀ l, e ≠ .tooDeep l) (hnm : n ≤ m) : Fails m c e c' := by
  induction hnm with
  | refl => exact h
  | step _ ih => exact ih.succ hshallow

/-- With any numbers of levels, at most one expression is read at a cursor. -/
theorem Reads.unique {n m : Nat} {c c₁ c₂ : Cursor} {t t' : Term} (h : Reads n c t c₁)
    (h' : Reads m c t' c₂) : t = t' ∧ c₁ = c₂ := by
  have hn := (h.mono (Nat.le_max_left n m)).expr_eq
  have hm := (h'.mono (Nat.le_max_right n m)).expr_eq
  rw [hn] at hm
  injection hm with hterm hcursor
  exact ⟨hterm, hcursor⟩

/-- What is read with some number of levels is missed with another one only
for its depth. -/
theorem Reads.tooDeep_of_fails {n m : Nat} {c c₁ c₂ : Cursor} {t : Term} {e : ParseError}
    (h : Reads n c t c₁) (h' : Fails m c e c₂) : ∃ l, e = .tooDeep l := by
  cases e with
  | tooDeep l => exact ⟨l, rfl⟩
  | unexpected expected found =>
      have hn := (h.mono (Nat.le_max_left n m)).expr_eq
      have hm := (h'.mono (by simp) (Nat.le_max_right n m)).expr_eq
      rw [hn] at hm
      contradiction

end Parser

end Conditional

import Conditional.Proofs.Wording
import Mathlib.Data.List.Forall2

/-!
# Conditional.Proofs.Spanless

Spans are for reports.  The parser looks at the tokens of a stream and copies the
spans of their lexemes into its errors, where nothing but the report reads them.
So two cursors with the same tokens ahead of them (`Cursor.Alike`) come to the same
end on every call, spans apart (`Parser.Blind`).  That holds of a single step, and
steps that are taken one after another keep it (`Parser.Blind.bind`), so it holds of
everything that is put together from them, and of any sequence of calls
(`Parser.forall₂_replies`).

An end of the input behind the tokens makes no difference either, since a stream
that stops without one is read as if it had one.  This is all that tells the stream
of some tokens from the lexemes of a source that spells them.
-/

namespace Conditional

open Token

/-! ## Errors without their spans -/

/-- The two errors are the same but for the spans: they expect the same tokens and
have found the same one, and whatever source texts they are reported with, the
reports say the same. -/
structure ParseError.Alike (e e' : ParseError) : Prop where
  expected_eq : e'.expected = e.expected
  found_eq : e'.found.token = e.found.token
  tooDeep_iff : (∃ l, e' = .tooDeep l) ↔ ∃ l, e = .tooDeep l
  report : ∀ source source', ∃ p p', e.problem source = .ok p ∧ e'.problem source' = .ok p' ∧
    p'.message = p.message ∧
    p.cause = .unexpected (toSet e.expected) e.found.token e.found.start ∧
    p'.cause = .unexpected (toSet e.expected) e.found.token e'.found.start

/-- A template without braces is its own message, whatever the snippets are. -/
theorem Template.Plain.fill_eq {t : Text} (h : Plain t) (hne : t ≠ []) (snippets : List Text) :
    fill t snippets = .ok (Doc.plain t) := by
  rw [← fill_escape hne snippets, escape_of_plain h]

section

variable {expected : List Token} {l l' : Lexeme}

/-- Problems with two lexemes of the same token have the same message, if the template
has no snippets. -/
theorem Lexeme.exists_problems {template : Option Text} (h : l'.token = l.token)
    (hplain : Template.Plain (template.getD (Problem.expectation expected l.token)))
    (hne : template.getD (Problem.expectation expected l.token) ≠ []) (source source' : Text) :
    ∃ p p', l.problem source expected template = .ok p ∧
      l'.problem source' expected template = .ok p' ∧ p'.message = p.message ∧
      p.cause = .unexpected (toSet expected) l.token l.start ∧
      p'.cause = .unexpected (toSet expected) l.token l'.start := by
  simp only [problem, Problem.unexpected, Notice.problem, h, hplain.fill_eq hne]
  exact ⟨_, _, rfl, rfl, rfl, rfl, rfl⟩

theorem ParseError.alike_unexpected (h : l'.token = l.token) :
    (unexpected expected l).Alike (unexpected expected l') := by
  have hplain := Problem.plain_expectation expected l.token
  have hne : Problem.expectation expected l.token ≠ [] := by simp [Problem.expectation, Text.lit]
  exact ⟨rfl, h, by simp, Lexeme.exists_problems h hplain hne⟩

theorem ParseError.alike_tooDeep (h : l'.token = l.token) : (tooDeep l).Alike (tooDeep l') := by
  have hplain : Template.Plain tooDeepMessage := by decide
  have hne : tooDeepMessage ≠ [] := by decide
  exact ⟨rfl, h, by simp, Lexeme.exists_problems h hplain hne⟩

end

/-! ## Cursors with the same tokens ahead -/

/-- The two cursors stand at the same position and have the same tokens ahead of
them.  The second one may have an end of the input behind these, if the first one
has none ahead. -/
structure Cursor.Alike (c c' : Cursor) : Prop where
  position_eq : c'.position = c.position
  tokens_eq : tokensOf c'.rest = tokensOf c.rest ∨
    endOfInput ∉ tokensOf c.rest ∧ tokensOf c'.rest = tokensOf c.rest ++ [endOfInput]

namespace Cursor

/-- The token that a cursor looks at is the first one ahead, or the end of the
input. -/
theorem peek_token (c : Cursor) : c.peek.token = (tokensOf c.rest).head?.getD endOfInput := by
  obtain ⟨rest, position, finish⟩ := c
  cases rest <;> rfl

theorem tokensOf_passed (c : Cursor) : tokensOf c.passed.rest = (tokensOf c.rest).tail :=
  List.map_tail

namespace Alike

variable {c c' : Cursor}

theorem peek_eq (h : c.Alike c') : c'.peek.token = c.peek.token := by
  rw [peek_token, peek_token]
  obtain heq | ⟨-, heq⟩ := h.tokens_eq
  · rw [heq]
  · rw [heq]
    cases tokensOf c.rest <;> rfl

theorem passed (h : c.Alike c') : c.passed.Alike c'.passed := by
  refine ⟨congrArg (· + 1) h.position_eq, ?_⟩
  rw [tokensOf_passed, tokensOf_passed]
  obtain heq | ⟨hnone, heq⟩ := h.tokens_eq
  · exact .inl (by rw [heq])
  · rw [heq]
    cases hrest : tokensOf c.rest with
    | nil => exact .inl rfl
    | cons t ts =>
        rw [hrest] at hnone
        exact .inr ⟨List.not_mem_of_not_mem_cons hnone, rfl⟩

/-- Behind an end of the input, either there is something ahead of both cursors or
of neither. -/
theorem isEmpty_passed_eq (h : c.Alike c') (hpeek : c.peek.token = endOfInput) :
    c'.passed.rest.isEmpty = c.passed.rest.isEmpty := by
  have hmap (ls : List Lexeme) : ls.isEmpty = (tokensOf ls).isEmpty := by cases ls <;> rfl
  rw [hmap, hmap, tokensOf_passed, tokensOf_passed]
  obtain heq | ⟨hnone, heq⟩ := h.tokens_eq
  · rw [heq]
  · -- an end that the first cursor looks at is not ahead of it
    rw [peek_token] at hpeek
    cases hrest : tokensOf c.rest with
    | nil =>
        rw [heq, hrest]
        rfl
    | cons t ts =>
        rw [hrest] at hpeek hnone
        exact absurd (List.mem_cons.2 (.inl hpeek.symm)) hnone

end Alike

end Cursor

/-! ## Steps that do not look at spans -/

namespace Parser

/-- The two steps come to the same end: the values that they return are related, or
the errors are the same but for the spans; and so are the cursors that they leave
behind. -/
inductive Alike {α β : Type} (R : α → β → Prop) :
    EStateM.Result ParseError Cursor α → EStateM.Result ParseError Cursor β → Prop where
  | ok {a : α} {b : β} {c c' : Cursor} : R a b → c.Alike c' → Alike R (.ok a c) (.ok b c')
  | error {e e' : ParseError} {c c' : Cursor} :
      e.Alike e' → c.Alike c' → Alike R (.error e c) (.error e' c')

/-- Wherever the same tokens are ahead, the two steps come to the same end. -/
def Blind {α β : Type} (R : α → β → Prop) (x : Parser α) (y : Parser β) : Prop :=
  ∀ c c', c.Alike c' → Alike R (x c) (y c')

/-- The two lexemes are of the same token. -/
def SameToken (l l' : Lexeme) : Prop := l'.token = l.token

section

variable {α β γ δ : Type} {R : α → β → Prop} {S : γ → δ → Prop} {x : Parser α} {y : Parser β}

theorem Blind.bind {f : α → Parser γ} {g : β → Parser δ} (hx : Blind R x y)
    (hf : ∀ a b, R a b → Blind S (f a) (g b)) : Blind S (x >>= f) (y >>= g) := by
  intro c c' hc
  have hfirst := hx c c' hc
  cases hxc : x c with
  | ok a d =>
      cases hyc : y c' with
      | ok b d' =>
          rw [hxc, hyc] at hfirst
          cases hfirst with
          | ok hab hd =>
              rw [bind_ok hxc, bind_ok hyc]
              exact hf a b hab d d' hd
      | error e d' =>
          rw [hxc, hyc] at hfirst
          cases hfirst
  | error e d =>
      cases hyc : y c' with
      | ok b d' =>
          rw [hxc, hyc] at hfirst
          cases hfirst
      | error e' d' =>
          rw [hxc, hyc] at hfirst
          cases hfirst with
          | error he hd =>
              rw [bind_error hxc, bind_error hyc]
              exact .error he hd

theorem blind_pure {a : α} {b : β} (h : R a b) : Blind R (pure a) (pure b) :=
  fun _ _ hc => .ok h hc

theorem blind_get : Blind Cursor.Alike get get := fun _ _ hc => .ok hc hc

theorem blind_advance : Blind SameToken advance advance :=
  fun _ _ hc => .ok hc.peek_eq hc.passed

theorem blind_reject (expected : List Token) : Blind R (reject expected) (reject expected) :=
  fun _ _ hc => .error (ParseError.alike_unexpected hc.peek_eq) hc

theorem blind_expect (t : Token) : Blind SameToken (expect t) (expect t) := by
  intro c c' hc
  by_cases hpeek : c.peek.token = t
  · rw [expect_ok hpeek, expect_ok (hc.peek_eq.trans hpeek)]
    exact .ok hc.peek_eq hc.passed
  · rw [expect_error hpeek, expect_error (hc.peek_eq ▸ hpeek)]
    exact .error (ParseError.alike_unexpected hc.peek_eq) hc

end

/-- An expression is read from its tokens. -/
theorem blind_expr (n : Nat) : Blind Eq (expr n) (expr n) := by
  induction n with
  | zero => exact fun _ _ hc => .error (ParseError.alike_tooDeep hc.peek_eq) hc
  | succ n ih =>
      rw [expr]
      refine blind_get.bind fun c c' hc => ?_
      rw [hc.peek_eq]
      cases c.peek.token with
      | litTrue | litFalse => exact blind_advance.bind fun _ _ _ => blind_pure rfl
      | kwIf =>
          refine blind_advance.bind fun _ _ _ => ?_
          refine ih.bind fun s s' hs => (blind_expect _).bind fun _ _ _ => ?_
          refine ih.bind fun a a' ha => (blind_expect _).bind fun _ _ _ => ?_
          refine ih.bind fun b b' hb => blind_pure ?_
          rw [hs, ha, hb]
      | lparen =>
          refine blind_advance.bind fun _ _ _ => ?_
          exact ih.bind fun t t' ht => (blind_expect _).bind fun _ _ _ => blind_pure ht
      | kwThen | kwElse | rparen | endOfInput => exact blind_reject _

/-- So is a whole program. -/
theorem blind_program : Blind Eq program program := by
  intro c c' hc
  have hfirst := blind_expr (nestingLimit + 1) c c' hc
  obtain ⟨t, d, hreads⟩ | ⟨e, d, hfails⟩ := reads_or_fails (nestingLimit + 1) c
  · obtain ⟨t', d', hreads'⟩ | ⟨e', d', hfails'⟩ := reads_or_fails (nestingLimit + 1) c'
    · rw [hreads.expr_eq, hreads'.expr_eq] at hfirst
      cases hfirst with
      | ok ht hd =>
          rw [program_of_reads hreads, program_of_reads hreads', hd.peek_eq]
          by_cases hpeek : d.peek.token = endOfInput
          · have hiff : d'.passed.rest = [] ↔ d.passed.rest = [] := by
              rw [← List.isEmpty_iff, hd.isEmpty_passed_eq hpeek, List.isEmpty_iff]
            rw [if_pos hpeek, if_pos hpeek]
            by_cases hnil : d.passed.rest = []
            · rw [if_pos hnil, if_pos (hiff.2 hnil)]
              exact .ok ht hd.passed
            · rw [if_neg hnil, if_neg (mt hiff.1 hnil)]
              exact .error (ParseError.alike_unexpected hd.passed.peek_eq) hd.passed
          · rw [if_neg hpeek, if_neg hpeek]
            exact .error (ParseError.alike_unexpected hd.peek_eq) hd
    · rw [hreads.expr_eq, hfails'.expr_eq] at hfirst
      cases hfirst
  · obtain ⟨t', d', hreads'⟩ | ⟨e', d', hfails'⟩ := reads_or_fails (nestingLimit + 1) c'
    · rw [hfails.expr_eq, hreads'.expr_eq] at hfirst
      cases hfirst
    · rw [hfails.expr_eq, hfails'.expr_eq] at hfirst
      cases hfirst with
      | error he hd =>
          rw [program_of_fails hfails, program_of_fails hfails']
          exact .error he hd

/-! ## Calls -/

/-- What a caller can ask of a parser. -/
inductive Call where
  | peek
  | advance
  | expect (t : Token)
  | expression
  | program
deriving DecidableEq, Repr

/-- What a caller is answered. -/
inductive Answer where
  | lexeme (l : Lexeme)
  | term (t : Term)
deriving DecidableEq, Repr

namespace Answer

/-- The two answers are the same term, or lexemes of the same token. -/
inductive Alike : Answer → Answer → Prop where
  | lexeme {l l' : Lexeme} : l'.token = l.token → Alike (.lexeme l) (.lexeme l')
  | term (t : Term) : Alike (.term t) (.term t)

end Answer

/-- What the parser does on a call. -/
def Call.step : Call → Parser Answer
  | .peek => do return .lexeme (← get).peek
  | .advance => do return .lexeme (← Parser.advance)
  | .expect t => do return .lexeme (← Parser.expect t)
  | .expression => do return .term (← Parser.expression)
  | .program => do return .term (← Parser.program)

/-- What comes of a call: an answer or an error, and the position of the cursor. -/
structure Reply where
  answer : Except ParseError Answer
  position : Nat
deriving DecidableEq, Repr

/-- The two replies are the same but for the spans. -/
inductive Reply.Alike : Reply → Reply → Prop where
  | ok {a a' : Answer} {position position' : Nat} :
      a.Alike a' → position' = position → Alike ⟨.ok a, position⟩ ⟨.ok a', position'⟩
  | error {e e' : ParseError} {position position' : Nat} :
      e.Alike e' → position' = position → Alike ⟨.error e, position⟩ ⟨.error e', position'⟩

/-- What comes of some calls, one after another.  A call that fails does not keep
the caller from making the next one. -/
def replies (c : Cursor) : List Call → List Reply
  | [] => []
  | call :: calls =>
    match call.step c with
    | .ok a c' => ⟨.ok a, c'.position⟩ :: replies c' calls
    | .error e c' => ⟨.error e, c'.position⟩ :: replies c' calls

theorem Call.blind_step (call : Call) : Blind Answer.Alike call.step call.step := by
  have hlexeme (l l' : Lexeme) (h : SameToken l l') :
      Blind Answer.Alike (pure (.lexeme l)) (pure (.lexeme l')) := blind_pure (.lexeme h)
  have hterm (t t' : Term) (h : t = t') :
      Blind Answer.Alike (pure (.term t)) (pure (.term t')) := blind_pure (h ▸ .term t)
  cases call with
  | peek => exact blind_get.bind fun c c' hc => hlexeme _ _ hc.peek_eq
  | advance => exact blind_advance.bind hlexeme
  | expect t => exact (blind_expect t).bind hlexeme
  | expression => exact (blind_expr _).bind hterm
  | program => exact blind_program.bind hterm

/-- The same comes of the same calls wherever the same tokens are ahead. -/
theorem forall₂_replies {c c' : Cursor} (h : c.Alike c') (calls : List Call) :
    List.Forall₂ Reply.Alike (replies c calls) (replies c' calls) := by
  induction calls generalizing c c' with
  | nil => exact .nil
  | cons call calls ih =>
      have hstep := call.blind_step c c' h
      rw [replies, replies]
      generalize call.step c = r at hstep ⊢
      generalize call.step c' = r' at hstep ⊢
      cases hstep with
      | ok ha hd => exact .cons (.ok ha hd.position_eq) (ih hd)
      | error he hd => exact .cons (.error he hd.position_eq) (ih hd)

end Parser

/-! ## Whole streams -/

open Conditional.Parser

/-- The first token sequence and the second one are the same, or the second one has
the end of the input besides. -/
theorem alike_ofLexemes {ls ls' : List Lexeme}
    (h : tokensOf ls' = tokensOf ls ∨
      endOfInput ∉ tokensOf ls ∧ tokensOf ls' = tokensOf ls ++ [endOfInput]) :
    (Cursor.ofLexemes ls).Alike (.ofLexemes ls') := ⟨rfl, h⟩

theorem mapM_token?_map_token (tokens : List Token) :
    (tokens.map StreamItem.token).mapM StreamItem.token? = some tokens := by
  induction tokens with
  | nil => rfl
  | cons t tokens ih =>
      rw [List.map_cons, List.mapM_cons, ih]
      rfl

/-- **Spans are for reports.**  From two streams of the same tokens, whatever spans
these have, and whatever source texts the errors are reported with, any calls have
the same replies, spans apart.  And tokens without spans are read as any source that
spells them. -/
theorem spans_only_reported :
    (∀ (items items' : List StreamItem) (tokens : List Token),
      items.mapM StreamItem.token? = some tokens → items'.mapM StreamItem.token? = some tokens →
      ∃ ls ls', StreamItem.toLexemes 0 items = .ok ls ∧ StreamItem.toLexemes 0 items' = .ok ls' ∧
        ∀ calls, List.Forall₂ Reply.Alike (replies (.ofLexemes ls) calls)
          (replies (.ofLexemes ls') calls)) ∧
    ∀ (tokens : List Token) (source : Text), Spells source tokens →
      ∃ ls lexemes, StreamItem.toLexemes 0 (tokens.map .token) = .ok ls ∧
        tokenize source = .ok lexemes ∧
        (∀ calls, List.Forall₂ Reply.Alike (replies (.ofLexemes ls) calls)
          (replies (.ofLexemes lexemes) calls)) ∧
        ((∃ t, parseLexemes ls = .ok t ∧ parse source = .ok t) ∨
          ∃ e e', parseLexemes ls = .error e ∧ parse source = .error (.grammatical e') ∧
            e.Alike e') := by
  constructor
  · intro items items' tokens hitems hitems'
    obtain ⟨ls, hls, htokens⟩ := StreamItem.toLexemes_eq_ok hitems 0
    obtain ⟨ls', hls', htokens'⟩ := StreamItem.toLexemes_eq_ok hitems' 0
    have halike := alike_ofLexemes (.inl (htokens'.trans htokens.symm))
    exact ⟨ls, ls', hls, hls', forall₂_replies halike⟩
  · intro tokens source hspells
    obtain ⟨ls, hls, htokens⟩ := StreamItem.toLexemes_eq_ok (mapM_token?_map_token tokens) 0
    obtain ⟨lexemes, hlexemes, htokens'⟩ := hspells.tokenize
    rw [← htokens] at htokens'
    have hnone : endOfInput ∉ tokensOf ls := htokens ▸ hspells.endOfInput_not_mem
    have halike := alike_ofLexemes (.inr ⟨hnone, htokens'⟩)
    refine ⟨ls, lexemes, hls, hlexemes, forall₂_replies halike, ?_⟩
    have hprogram := blind_program _ _ halike
    simp only [parse, hlexemes, parseLexemes]
    generalize program (.ofLexemes ls) = r at hprogram ⊢
    generalize program (.ofLexemes lexemes) = r' at hprogram ⊢
    cases hprogram with
    | ok ht _ =>
        subst ht
        exact .inl ⟨_, rfl, rfl⟩
    | error he _ => exact .inr ⟨_, _, rfl, rfl, he⟩

theorem spans_only_reported_openConditional :
    (∀ calls, List.Forall₂ Reply.Alike
      (replies (.ofLexemes [⟨kwIf, 0, 1⟩, ⟨litTrue, 7, 3⟩]) calls)
      (replies (.ofLexemes [⟨kwIf, -4, 90⟩, ⟨litTrue, 1, 2⟩]) calls)) ∧
    ∃ e e', parseLexemes [⟨kwIf, 0, 1⟩, ⟨litTrue, 1, 2⟩] = .error e ∧
      parse "if\ttrue ".toList = .error (.grammatical e') ∧ e.Alike e' := by
  have hspells : Spells "if\ttrue ".toList [kwIf, litTrue] :=
    (Spells.single (t := kwIf) (by decide)).append <| .blank (by decide) <|
      (Spells.single (t := litTrue) (by decide)).blankAfter
  constructor
  · obtain ⟨ls, ls', hls, hls', halike⟩ := spans_only_reported.1
      [.token kwIf, .lexeme ⟨litTrue, 7, 3⟩] [.lexeme ⟨kwIf, -4, 90⟩, .token litTrue]
      [kwIf, litTrue] rfl rfl
    cases hls
    cases hls'
    exact halike
  · obtain ⟨ls, lexemes, hls, -, -, ⟨t, ht, -⟩ | hfails⟩ :=
      spans_only_reported.2 [kwIf, litTrue] _ hspells
    · cases hls
      cases ht
    · cases hls
      exact hfails

end Conditional

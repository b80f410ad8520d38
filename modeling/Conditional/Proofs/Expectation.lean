import Conditional.Proofs.Derivation
import Conditional.Proofs.Lexing
import Conditional.Source

/-!
# Conditional.Proofs.Expectation

Grammatical errors are met at the first token at which they can be known, and
what they expect is exactly what could have stood there.

The measure is the beginnings of programs (`ProgramPrefix`).  They are
recognised by an agenda: the list of what a program that has been read in part
still has to bring.  A token is served by the first entry of the agenda, or it
fits nowhere; an agenda can always be met to the end (`exists_meets`), so a
token sequence begins a program exactly if the agenda serves all of it
(`programPrefix_iff`).

The parser keeps the agenda on its stack of calls: wherever it stops, what it
has passed over is served, and the entry that is due explains the error
(`Fails.exists_serves`), whatever else is on the agenda.
-/

namespace Conditional

open Token Conditional.Parser

/-! ## Agendas -/

/-- What a program that has been read in part still has to bring.  The level
counts the constructs that are open where it is due. -/
inductive Demand where
  | token (level : Nat) (t : Token)
  | expression (level : Nat)
deriving DecidableEq, Repr

/-- The tokens that can come first where something is due. -/
def Demand.accepts : Demand → List Token
  | .token _ t => [t]
  | .expression _ => exprStart

/-- The demands of a conditional behind its second part. -/
def Demand.elsePart (level : Nat) : List Demand := [.token level kwElse, .expression level]

/-- The demands of a conditional behind its first part. -/
def Demand.branches (level : Nat) : List Demand :=
  .token level kwThen :: .expression level :: elsePart level

/-- The demands of a conditional behind its first keyword. -/
def Demand.conditional (level : Nat) : List Demand := .expression level :: branches level

/-- The demands of a group behind its opening parenthesis. -/
def Demand.group (level : Nat) : List Demand := [.expression level, .token level rparen]

/-- The agenda after a token, if the token fits. -/
def serve : List Demand → Token → Option (List Demand)
  | [], _ => none
  | .token _ t :: agenda, x => if x = t then some agenda else none
  | .expression level :: agenda, x =>
    match x with
    | .litTrue | .litFalse => some agenda
    | .kwIf => some (Demand.conditional (level + 1) ++ agenda)
    | .lparen => some (Demand.group (level + 1) ++ agenda)
    | _ => none

/-- The agenda after a token sequence, if each token fits. -/
def serveAll (agenda : List Demand) (ts : List Token) : Option (List Demand) :=
  ts.foldlM serve agenda

@[simp] theorem serveAll_nil (agenda : List Demand) : serveAll agenda [] = some agenda := rfl

@[simp] theorem serveAll_cons (agenda : List Demand) (x : Token) (ts : List Token) :
    serveAll agenda (x :: ts) = (serve agenda x).bind (serveAll · ts) := by
  rw [serveAll, List.foldlM_cons]
  rfl

theorem serveAll_append (agenda : List Demand) (ts us : List Token) :
    serveAll agenda (ts ++ us) = (serveAll agenda ts).bind (serveAll · us) := by
  rw [serveAll, List.foldlM_append]
  rfl

/-- The first entry of an agenda decides which tokens fit. -/
theorem isSome_serve_iff (d : Demand) (agenda : List Demand) (x : Token) :
    (serve (d :: agenda) x).isSome ↔ x ∈ d.accepts := by
  cases d with
  | token level t => by_cases hx : x = t <;> simp [serve, Demand.accepts, hx]
  | expression level => cases x <;> simp [serve, Demand.accepts, exprStart]

/-! ## Meeting an agenda -/

/-- The token sequence brings what is on the agenda, in order, and nothing
else. -/
def Meets : List Demand → List Token → Prop
  | [], ts => ts = []
  | .token _ t :: agenda, ts => ∃ rest, ts = t :: rest ∧ Meets agenda rest
  | .expression _ :: agenda, ts =>
    ∃ w t rest, ts = w ++ rest ∧ Derives w t ∧ Meets agenda rest

/-- Every agenda can be met. -/
theorem exists_meets (agenda : List Demand) : ∃ ts, Meets agenda ts := by
  induction agenda with
  | nil => exact ⟨[], rfl⟩
  | cons d agenda ih =>
      obtain ⟨ts, hts⟩ := ih
      cases d with
      | token level t => exact ⟨t :: ts, ts, rfl, hts⟩
      | expression level => exact ⟨litTrue :: ts, [litTrue], .lit true, ts, rfl, .litTrue, hts⟩

/-- The first token of a sequence that meets an agenda is served, and the
rest of the sequence meets the rest of the agenda. -/
theorem Meets.exists_serve {agenda : List Demand} {x : Token} {ts : List Token}
    (h : Meets agenda (x :: ts)) : ∃ agenda', serve agenda x = some agenda' ∧ Meets agenda' ts := by
  match agenda, h with
  | .token level t :: agenda, ⟨rest, heq, hmeets⟩ =>
      obtain ⟨rfl, rfl⟩ := List.cons.inj heq
      exact ⟨agenda, if_pos rfl, hmeets⟩
  | .expression level :: agenda, ⟨w, t, rest, heq, hderives, hmeets⟩ =>
      cases hderives with
      | litTrue | litFalse =>
          obtain ⟨rfl, rfl⟩ := List.cons.inj heq
          exact ⟨agenda, rfl, hmeets⟩
      | @conditional u v w c a b hu hv hw =>
          simp only [List.cons_append, List.append_assoc] at heq
          obtain ⟨rfl, rfl⟩ := List.cons.inj heq
          refine ⟨_, rfl, u, c, _, rfl, hu, _, rfl, v, a, _, rfl, hv, _, rfl, ?_⟩
          exact ⟨w, b, _, rfl, hw, hmeets⟩
      | @group w t hw =>
          simp only [List.cons_append, List.append_assoc, List.nil_append] at heq
          obtain ⟨rfl, rfl⟩ := List.cons.inj heq
          exact ⟨_, rfl, w, t, _, rfl, hw, _, rfl, hmeets⟩

/-- A token that is served in front of a sequence that meets what is left
meets the whole agenda with it. -/
theorem Meets.of_serve {agenda agenda' : List Demand} {x : Token} {ts : List Token}
    (hserve : serve agenda x = some agenda') (h : Meets agenda' ts) : Meets agenda (x :: ts) := by
  match agenda with
  | .token level t :: agenda =>
      by_cases hx : x = t
      · rw [serve, if_pos hx] at hserve
        obtain rfl := Option.some.inj hserve
        exact ⟨ts, by rw [hx], h⟩
      · rw [serve, if_neg hx] at hserve
        contradiction
  | .expression level :: agenda =>
      cases x with
      | litTrue =>
          obtain rfl := Option.some.inj hserve
          exact ⟨[litTrue], _, ts, rfl, .litTrue, h⟩
      | litFalse =>
          obtain rfl := Option.some.inj hserve
          exact ⟨[litFalse], _, ts, rfl, .litFalse, h⟩
      | kwIf =>
          obtain rfl := Option.some.inj hserve
          obtain ⟨u, c, _, rfl, hu, _, rfl, v, a, _, rfl, hv, _, rfl, hlast⟩ := h
          obtain ⟨w, b, rest, rfl, hw, hmeets⟩ := hlast
          exact ⟨_, _, rest, by simp, .conditional hu hv hw, hmeets⟩
      | lparen =>
          obtain rfl := Option.some.inj hserve
          obtain ⟨w, t, _, rfl, hw, rest, rfl, hmeets⟩ := h
          exact ⟨_, _, rest, by simp, .group hw, hmeets⟩
      | kwThen | kwElse | rparen | endOfInput => contradiction

/-- What meets an agenda is what it serves, followed by what meets the agenda
that is left. -/
theorem meets_append_iff {agenda : List Demand} {ts us : List Token} :
    Meets agenda (ts ++ us) ↔ ∃ agenda', serveAll agenda ts = some agenda' ∧ Meets agenda' us := by
  induction ts generalizing agenda with
  | nil => simp
  | cons x ts ih =>
      rw [List.cons_append, serveAll_cons]
      constructor
      · intro h
        obtain ⟨next, hnext, hmeets⟩ := h.exists_serve
        rw [hnext, Option.bind_some]
        exact ih.1 hmeets
      · rintro ⟨agenda', hserve, hmeets⟩
        obtain ⟨next, hnext, hrest⟩ := Option.bind_eq_some_iff.1 hserve
        exact .of_serve hnext (ih.2 ⟨agenda', hrest, hmeets⟩)

/-- An expression is served by one demand for an expression. -/
theorem Derives.serveAll_eq {w : List Token} {t : Term} (h : Derives w t) (level : Nat)
    (agenda : List Demand) : serveAll (.expression level :: agenda) w = some agenda := by
  induction h generalizing level agenda with
  | litTrue | litFalse => rfl
  | conditional _ _ _ hu hv hw =>
      simp [serveAll_append, serve, Demand.conditional, Demand.branches, Demand.elsePart, hu, hv,
        hw]
  | group _ ih => simp [serveAll_append, serve, Demand.group, ih]

/-! ## Beginnings of programs -/

/-- The token sequence is an expression with the end of the input behind
it. -/
def IsProgram (ts : List Token) : Prop := ∃ w t, Derives w t ∧ ts = w ++ [endOfInput]

/-- The token sequence can be completed to a program. -/
def ProgramPrefix (ts : List Token) : Prop := ∃ more, IsProgram (ts ++ more)

/-- The agenda before anything has been read. -/
def programAgenda : List Demand := [.expression 0, .token 0 endOfInput]

theorem meets_programAgenda_iff {ts : List Token} : Meets programAgenda ts ↔ IsProgram ts := by
  constructor
  · rintro ⟨w, t, _, rfl, hderives, _, rfl, rfl⟩
    exact ⟨w, t, hderives, rfl⟩
  · rintro ⟨w, t, hderives, rfl⟩
    exact ⟨w, t, _, rfl, hderives, _, rfl, rfl⟩

/-- A token sequence begins a program exactly if the agenda of a program
serves all of it. -/
theorem programPrefix_iff {ts : List Token} :
    ProgramPrefix ts ↔ ∃ agenda, serveAll programAgenda ts = some agenda := by
  constructor
  · rintro ⟨more, hprogram⟩
    obtain ⟨agenda, hserve, -⟩ := meets_append_iff.1 (meets_programAgenda_iff.2 hprogram)
    exact ⟨agenda, hserve⟩
  · rintro ⟨agenda, hserve⟩
    obtain ⟨more, hmore⟩ := exists_meets agenda
    exact ⟨more, meets_programAgenda_iff.1 (meets_append_iff.2 ⟨agenda, hserve, hmore⟩)⟩

/-- What is due decides which tokens lead on. -/
theorem programPrefix_append_iff {ts : List Token} {d : Demand} {agenda : List Demand}
    (h : serveAll programAgenda ts = some (d :: agenda)) {x : Token} :
    ProgramPrefix (ts ++ [x]) ↔ x ∈ d.accepts := by
  rw [programPrefix_iff, serveAll_append, h, ← isSome_serve_iff d agenda, Option.isSome_iff_exists]
  simp

/-- Behind an end of the input that stands nowhere else, nothing follows. -/
theorem eq_nil_of_endOfInput {us vs ts : List Token} (hts : endOfInput ∉ ts)
    (h : us ++ endOfInput :: vs = ts ++ [endOfInput]) : vs = [] := by
  obtain rfl | ⟨vs, x, rfl⟩ := List.eq_nil_or_concat vs
  · rfl
  · have hts' : us ++ endOfInput :: vs = ts := by
      rw [List.concat_eq_append, ← List.cons_append, ← List.append_assoc] at h
      exact (List.append_inj' h rfl).1
    exact absurd (by simp [← hts']) hts

theorem not_programPrefix_of_endOfInput {ts : List Token} {x : Token} :
    ¬ ProgramPrefix (ts ++ [endOfInput] ++ [x]) := by
  rintro ⟨more, w, t, hderives, heq⟩
  rw [List.append_assoc, List.append_assoc] at heq
  have hnil := eq_nil_of_endOfInput hderives.endOfInput_not_mem heq
  contradiction

/-! ## Where the parser stops -/

/-- The lexemes between two cursors lead from one agenda to another. -/
def Serves (c : Cursor) (agenda : List Demand) (c' : Cursor) (agenda' : List Demand) : Prop :=
  ∃ ls, c.Moves ls c' ∧ serveAll agenda (tokensOf ls) = some agenda'

theorem Serves.refl (c : Cursor) (agenda : List Demand) : Serves c agenda c agenda :=
  ⟨[], .refl c, rfl⟩

theorem Serves.trans {c c' c'' : Cursor} {agenda agenda' agenda'' : List Demand}
    (h : Serves c agenda c' agenda') (h' : Serves c' agenda' c'' agenda'') :
    Serves c agenda c'' agenda'' := by
  obtain ⟨ls, hmoves, hserve⟩ := h
  obtain ⟨ls', hmoves', hserve'⟩ := h'
  refine ⟨ls ++ ls', hmoves.trans hmoves', ?_⟩
  rw [tokensOf_append, serveAll_append, hserve, Option.bind_some, hserve']

theorem Serves.passed {c : Cursor} {t : Token} (hc : c.peek.token = t) (ht : t ≠ endOfInput)
    {agenda agenda' : List Demand} (hserve : serve agenda t = some agenda') :
    Serves c agenda c.passed agenda' := by
  refine ⟨[c.peek], .over hc ht, ?_⟩
  simp [tokensOf, hc, hserve]

theorem Serves.token {c : Cursor} {t : Token} (hc : c.peek.token = t) (ht : t ≠ endOfInput)
    (level : Nat) (agenda : List Demand) :
    Serves c (.token level t :: agenda) c.passed agenda :=
  .passed hc ht (if_pos rfl)

theorem Serves.kwIf {c : Cursor} (hc : c.peek.token = kwIf) (level : Nat)
    (agenda : List Demand) :
    Serves c (.expression level :: agenda) c.passed (Demand.conditional (level + 1) ++ agenda) :=
  .passed hc (by decide) rfl

theorem Serves.lparen {c : Cursor} (hc : c.peek.token = lparen) (level : Nat)
    (agenda : List Demand) :
    Serves c (.expression level :: agenda) c.passed (Demand.group (level + 1) ++ agenda) :=
  .passed hc (by decide) rfl

/-- What is read serves one demand for an expression, on any agenda. -/
theorem Parser.Reads.serves {n : Nat} {c c' : Cursor} {t : Term} (h : Reads n c t c')
    (level : Nat) (agenda : List Demand) :
    Serves c (.expression level :: agenda) c' agenda := by
  obtain ⟨ls, k, hmoves, hnests, -⟩ := h.exists_nests
  exact ⟨ls, hmoves, hnests.derives.serveAll_eq level agenda⟩

theorem Serves.condition {n : Nat} {c c₁ : Cursor} {s : Term} (hc : c.peek.token = .kwIf)
    (hs : Reads n c.passed s c₁) (level : Nat) (agenda : List Demand) :
    Serves c (.expression level :: agenda) c₁ (Demand.branches (level + 1) ++ agenda) :=
  (kwIf hc level agenda).trans (hs.serves (level + 1) _)

theorem Serves.thenBranch {n : Nat} {c₁ c₂ : Cursor} {a : Term} (hthen : c₁.peek.token = kwThen)
    (ha : Reads n c₁.passed a c₂) (level : Nat) (agenda : List Demand) :
    Serves c₁ (Demand.branches level ++ agenda) c₂ (Demand.elsePart level ++ agenda) :=
  Serves.trans (.token hthen (by decide) level _) (ha.serves level _)

/-- The entry that is due is the reason for the error: the token that was
found does not fit it, or it lies on the level at which reading gives up. -/
def Demand.Explains (d : Demand) (limit : Nat) : ParseError → Prop
  | .unexpected expected found => expected = d.accepts ∧ found.token ∉ d.accepts
  | .tooDeep _ => d = .expression limit

/-- Where reading an expression fails, everything before is served, the error
is about the lookahead, and the entry that is due explains it. -/
theorem Parser.Fails.exists_serves {n : Nat} {c c' : Cursor} {e : ParseError}
    (h : Fails n c e c') (level : Nat) (agenda : List Demand) :
    ∃ d agenda', Serves c (.expression level :: agenda) c' (d :: agenda') ∧
      e.found = c'.peek ∧ d.Explains (level + n) e := by
  induction h generalizing level agenda with
  | @levels c => exact ⟨_, _, .refl c _, rfl, rfl⟩
  | @start n c hc => exact ⟨_, _, .refl c _, rfl, rfl, hc⟩
  | condition hc _ ih =>
      obtain ⟨d, agenda', hserves, hfound, hd⟩ :=
        ih (level + 1) (Demand.branches (level + 1) ++ agenda)
      have hbefore := Serves.kwIf hc level agenda
      exact ⟨d, agenda', hbefore.trans hserves, hfound, by rwa [Nat.add_right_comm] at hd⟩
  | kwThen hc hs hthen =>
      have hbefore := Serves.condition hc hs level agenda
      exact ⟨_, _, hbefore, rfl, rfl, by simpa [Demand.accepts] using hthen⟩
  | thenBranch hc hs hthen _ ih =>
      obtain ⟨d, agenda', hserves, hfound, hd⟩ :=
        ih (level + 1) (Demand.elsePart (level + 1) ++ agenda)
      have hbefore := (Serves.condition hc hs level agenda).trans (.token hthen (by decide) _ _)
      exact ⟨d, agenda', hbefore.trans hserves, hfound, by rwa [Nat.add_right_comm] at hd⟩
  | kwElse hc hs hthen ha helse =>
      have hbefore := (Serves.condition hc hs level agenda).trans (.thenBranch hthen ha _ _)
      exact ⟨_, _, hbefore, rfl, rfl, by simpa [Demand.accepts] using helse⟩
  | elseBranch hc hs hthen ha helse _ ih =>
      obtain ⟨d, agenda', hserves, hfound, hd⟩ := ih (level + 1) agenda
      have hbranch := (Serves.condition hc hs level agenda).trans (.thenBranch hthen ha _ _)
      have hbefore := hbranch.trans (.token helse (by decide) _ _)
      exact ⟨d, agenda', hbefore.trans hserves, hfound, by rwa [Nat.add_right_comm] at hd⟩
  | inner hc _ ih =>
      obtain ⟨d, agenda', hserves, hfound, hd⟩ := ih (level + 1) _
      have hbefore := Serves.lparen hc level agenda
      exact ⟨d, agenda', hbefore.trans hserves, hfound, by rwa [Nat.add_right_comm] at hd⟩
  | rparen hc ht hclose =>
      have hbefore := (Serves.lparen hc level agenda).trans (ht.serves _ _)
      exact ⟨_, _, hbefore, rfl, rfl, by simpa [Demand.accepts] using hclose⟩

/-! ## Errors of whole streams -/

section

variable {lexemes : List Lexeme} {ts expected : List Token} {found : Lexeme}

/-- In a stream that ends with its only end of the input, whatever the parser
stops at is explained by the agenda of a program. -/
theorem exists_serves_of_unexpected (hts : endOfInput ∉ ts)
    (htokens : tokensOf lexemes = ts ++ [endOfInput])
    (h : parseLexemes lexemes = .error (.unexpected expected found)) :
    ∃ c d agenda, Serves (.ofLexemes lexemes) programAgenda c (d :: agenda) ∧ found = c.peek ∧
      expected = d.accepts ∧ found.token ∉ d.accepts := by
  obtain ⟨t, c, hreads⟩ | ⟨e, c, hfails⟩ :=
    reads_or_fails (nestingLimit + 1) (.ofLexemes lexemes)
  · rw [parseLexemes, program_of_reads hreads] at h
    have hserves := hreads.serves 0 [.token 0 endOfInput]
    by_cases hpeek : c.peek.token = endOfInput
    · -- the end of the input is the last lexeme, so the program was complete
      have hrest : c.passed.rest = [] := by
        obtain ⟨ls, hmoves, -⟩ := hserves
        cases hcons : c.rest with
        | nil => simp [Cursor.passed, hcons]
        | cons l more =>
            have hsplit : lexemes = ls ++ l :: more := hcons ▸ hmoves.rest
            have hl : l.token = endOfInput := by rwa [Cursor.peek, hcons] at hpeek
            rw [hsplit, tokensOf_append, tokensOf, tokensOf, List.map_cons, hl] at htokens
            have hmore := eq_nil_of_endOfInput hts htokens
            simpa [Cursor.passed, hcons] using hmore
      rw [if_pos hpeek, if_pos hrest] at h
      contradiction
    · rw [if_neg hpeek] at h
      cases h
      exact ⟨c, _, [], hserves, rfl, rfl, by simpa [Demand.accepts] using hpeek⟩
  · rw [parseLexemes, program_of_fails hfails] at h
    cases h
    obtain ⟨d, agenda, hserves, hfound, hexpected, hfits⟩ :=
      hfails.exists_serves 0 [.token 0 endOfInput]
    exact ⟨c, d, agenda, hserves, hfound, hexpected, hfits⟩

/-- In such a stream an error that is not about the nesting is met at a lexeme
of the stream. -/
theorem exists_serveAll_of_unexpected (hts : endOfInput ∉ ts)
    (htokens : tokensOf lexemes = ts ++ [endOfInput])
    (h : parseLexemes lexemes = .error (.unexpected expected found)) :
    ∃ ls more d agenda, lexemes = ls ++ found :: more ∧
      serveAll programAgenda (tokensOf ls) = some (d :: agenda) ∧
      expected = d.accepts ∧ found.token ∉ d.accepts := by
  obtain ⟨c, d, agenda, ⟨ls, hmoves, hserve⟩, hfound, hexpected, hfits⟩ :=
    exists_serves_of_unexpected hts htokens h
  have hrest : lexemes = ls ++ c.rest := hmoves.rest
  cases hcons : c.rest with
  | nil =>
      -- behind the whole stream nothing is due any more
      rw [hrest, hcons, List.append_nil] at htokens
      rw [htokens] at hserve
      obtain ⟨x, hx⟩ : ∃ x, x ∈ d.accepts := by
        cases d with
        | token level t => exact ⟨t, List.mem_singleton_self t⟩
        | expression level => exact ⟨litTrue, List.mem_cons_self⟩
      exact absurd ((programPrefix_append_iff hserve).2 hx) not_programPrefix_of_endOfInput
  | cons l more =>
      have hl : found = l := by rw [hfound, Cursor.peek, hcons]
      exact ⟨ls, more, d, agenda, by rw [hrest, hcons, hl], hserve, hexpected, hfits⟩

end

/-- **Exact errors**: when a source is read as lexemes but is no program, and
not because of its nesting, the error is met at a lexeme before which the
tokens begin a program and with which they do not.  The report names this
lexeme and its place, and the tokens that it says were expected are those that
could have stood there. -/
theorem parse_error_exact {source : Text} {lexemes : List Lexeme} {e : ParseError}
    (hlexemes : tokenize source = .ok lexemes) (h : parse source = .error (.grammatical e))
    (hshallow : ∀ l, e ≠ .tooDeep l) :
    ∃ k l p expected, lexemes[k]? = some l ∧
      SourceError.problem source (.grammatical e) = .ok p ∧
      p.cause = .unexpected expected l.token l.start ∧
      ProgramPrefix ((tokensOf lexemes).take k) ∧
      ¬ ProgramPrefix ((tokensOf lexemes).take (k + 1)) ∧
      ∀ x, x ∈ expected ↔ ProgramPrefix ((tokensOf lexemes).take k ++ [x]) := by
  cases e with
  | tooDeep l => exact absurd rfl (hshallow l)
  | unexpected expected found =>
      obtain ⟨ts, hspells, htokens⟩ := spells_of_tokenize hlexemes
      have hparse : parseLexemes lexemes = .error (.unexpected expected found) := by
        rw [parse, hlexemes] at h
        cases hresult : parseLexemes lexemes <;> simp_all
      obtain ⟨ls, more, d, agenda, rfl, hserve, hexpected, hfits⟩ :=
        exists_serveAll_of_unexpected hspells.endOfInput_not_mem htokens hparse
      obtain ⟨p, hp, hcause⟩ := (ParseError.unexpected expected found).exists_problem source
      have htake : (tokensOf (ls ++ found :: more)).take ls.length = tokensOf ls := by
        rw [tokensOf_append, List.take_left' (List.length_map _)]
      have htake' : (tokensOf (ls ++ found :: more)).take (ls.length + 1) =
          tokensOf ls ++ [found.token] := by
        simp [tokensOf, List.take_append, List.take_of_length_le]
      refine ⟨ls.length, found, p, toSet expected, by simp, hp, hcause, ?_, ?_, fun x => ?_⟩
      · rw [htake]
        exact programPrefix_iff.2 ⟨_, hserve⟩
      · rw [htake', programPrefix_append_iff hserve]
        exact hfits
      · rw [htake, programPrefix_append_iff hserve, mem_toSet, hexpected]

/-- The lexemes of two conditionals, of which the inner one lacks its second
keyword. -/
def innerLexemes : List Lexeme :=
  [⟨kwIf, 0, 2⟩, ⟨kwIf, 3, 5⟩, ⟨litTrue, 6, 10⟩, ⟨kwElse, 11, 15⟩, ⟨endOfInput, 15, 15⟩]

theorem parse_error_exact_inner :
    tokenize "if if true else" = .ok innerLexemes ∧
      parse "if if true else" = .error (.grammatical (.unexpected [kwThen] ⟨kwElse, 11, 15⟩)) ∧
      ∃ k l p expected, innerLexemes[k]? = some l ∧
        SourceError.problem "if if true else"
          (.grammatical (.unexpected [kwThen] ⟨kwElse, 11, 15⟩)) = .ok p ∧
        p.cause = .unexpected expected l.token l.start ∧
        ProgramPrefix ((tokensOf innerLexemes).take k) ∧
        ¬ ProgramPrefix ((tokensOf innerLexemes).take (k + 1)) ∧
        ∀ x, x ∈ expected ↔ ProgramPrefix ((tokensOf innerLexemes).take k ++ [x]) := by
  have hlexes : Lexes 0 "if if true else"
      [⟨kwIf, 0, 2⟩, ⟨kwIf, 3, 5⟩, ⟨litTrue, 6, 10⟩, ⟨kwElse, 11, 15⟩] :=
    .token (t := kwIf) (by decide) <| .blank (by decide) <|
      .token (t := kwIf) (by decide) <| .blank (by decide) <|
      .token (t := litTrue) (by decide) <| .blank (by decide) <|
      .token (t := kwElse) (by decide) .nil
  have hlexemes : tokenize "if if true else" = .ok innerLexemes :=
    tokenize_eq_ok_iff.2 ⟨_, hlexes, rfl⟩
  have hparse : parse "if if true else" =
      .error (.grammatical (.unexpected [kwThen] ⟨kwElse, 11, 15⟩)) := by
    rw [parse, hlexemes]
    rfl
  exact ⟨hlexemes, hparse, parse_error_exact hlexemes hparse (by simp)⟩

end Conditional

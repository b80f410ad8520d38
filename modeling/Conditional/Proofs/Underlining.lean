import Conditional.Proofs.Blame
import Conditional.Proofs.EscapeFree
import Conditional.Proofs.Locality
import Conditional.Proofs.Scanning
import Conditional.Proofs.Spans

/-!
# Conditional.Proofs.Underlining

What a diagnosis marks.  A diagnosis cuts its subject at two offsets and puts
the three parts one behind the other again, so the subject stands in it as it
is, with the marks below it (`Problem.text_diagnosis`); this is so for every
span that does not start before the subject, also for one that is crossed or
lies beyond the end.

The span of a mistake in a source text is never one of these.  It covers the
character that could not be read or the token that fits nowhere, and at the end
of the input the column behind the source (`Cause.Marks`).
-/

namespace Conditional

open Token

/-! ## The parts of a text -/

namespace Text

variable {t : Text} {start stop : Int}

/-- The later offset is the later cut. -/
theorem cut_le_cut (hstart : 0 ≤ start) (h : start ≤ stop) : t.cut start ≤ t.cut stop := by
  rw [cut, cut, if_neg (by omega), if_neg (by omega)]
  omega

/-- No character is lost or repeated where a text is cut. -/
theorem upTo_append_between_append_onward (hstart : 0 ≤ start) (h : start ≤ stop) :
    t.upTo start ++ (t.between start stop ++ t.onward stop) = t := by
  have hfront : t.upTo start = (t.take (t.cut stop)).take (t.cut start) := by
    rw [List.take_take, Nat.min_eq_left (cut_le_cut hstart h), upTo]
  rw [hfront, between, onward, ← List.append_assoc, List.take_append_drop, List.take_append_drop]

/-- A text with the columns from the one offset to the other marked by a line of
carets below it. -/
def underlined (t : Text) (start stop : Nat) : Text :=
  "  " ++ t ++ "\n" ++ "  " ++ List.replicate start ' ' ++
    '^' :: List.replicate (stop - start - 1) '~'

end Text

/-- Without colour, a diagnosis is its subject with the span marked; at least one
column is marked. -/
theorem Problem.text_diagnosis {p : Problem} {start : Nat} (h : p.start = start) (face : Face) :
    (p.diagnosis face).text = p.subject.underlined start (max p.stop (start + 1)).toNat := by
  obtain ⟨stop, hstop⟩ : ∃ stop : Nat, max p.stop (start + 1) = stop :=
    Int.eq_ofNat_of_zero_le (by omega)
  have hle : (start : Int) ≤ stop := by omega
  have hsubject := Text.upTo_append_between_append_onward (t := p.subject) (by omega) hle
  have hblanks : Text.fill ' ' start = List.replicate start ' ' := rfl
  have hmarks : Text.fill '~' (stop - start - 1) = List.replicate (stop - start - 1) '~' := by
    rw [Text.fill, show ((stop : Int) - start - 1).toNat = stop - start - 1 by omega]
  have hlines : ("\n  " : Text) = "\n" ++ "  " := rfl
  calc (p.diagnosis face).text
      = "  " ++ (p.subject.upTo start ++ (p.subject.between start stop ++ p.subject.onward stop)) ++
          ("\n  " ++ Text.fill ' ' start) ++ '^' :: Text.fill '~' (stop - start - 1) := by
        simp [diagnosis, Doc.text, Doc.plain, Doc.styled, h, hstop]
    _ = p.subject.underlined start (max p.stop (start + 1)).toNat := by
        rw [hsubject, hblanks, hmarks, hstop, hlines, Text.underlined]
        simp

example : Text.underlined "if true)" 7 8 = "  if true)\n         ^" := by decide

/-! ## The span of a mistake -/

/-- What a mistake in a source text marks: the character that could not be read,
the token that was found, or the column behind the source. -/
inductive Cause.Marks (source : Text) : Cause → Nat → Nat → Prop where
  | character {c : Char} {start : Nat} (h : BlockedAt source start c) :
    Marks source (.unrecognized [c] start) start (start + 1)
  | token {expected : List Token} {found : Token} {start stop : Nat} (hfound : found ≠ endOfInput)
    (hstop : stop ≤ source.length) (hspelling : source.between start stop = found.spelling) :
    Marks source (.unexpected expected found start) start stop
  | ending {expected : List Token} :
    Marks source (.unexpected expected endOfInput source.length) source.length (source.length + 1)

/-- A mistake marks something. -/
theorem Cause.Marks.lt {source : Text} {cause : Cause} {start stop : Nat}
    (h : cause.Marks source start stop) : start < stop := by
  cases h with
  | character => exact Nat.lt_succ_self start
  | @token expected found _ _ _ _ hspelling =>
      refine Nat.lt_of_not_le fun hle => ?_
      have hcut : source.cut stop ≤ source.cut start := Text.cut_le_cut (by omega) (by omega)
      have hempty : source.between start stop = [] := by
        refine List.drop_eq_nil_of_le ?_
        rw [List.length_take]
        omega
      exact found.spelling_ne_nil (hspelling ▸ hempty)
  | ending => exact Nat.lt_succ_self _

/-- The report of a grammatical error points at the lookahead, and at one column if
the lookahead has none. -/
theorem ParseError.span_of_problem {source : Text} {e : ParseError} {p : Problem}
    (h : e.problem source = .ok p) (hstart : 0 ≤ e.found.start) :
    p.start = e.found.start ∧ p.stop = max e.found.stop (e.found.start + 1) ∧
      p.cause = .unexpected (toSet e.expected) e.found.token e.found.start := by
  have hnotice (expected : List Token) (found : Lexeme) (template : Option Text)
      (hp : found.problem source expected template = .ok p) (hstart : 0 ≤ found.start) :
      p.start = found.start ∧ p.stop = max found.stop (found.start + 1) ∧
        p.cause = .unexpected (toSet expected) found.token found.start := by
    obtain ⟨message, subject, rest, -, -, rfl⟩ := Notice.eq_of_problem hp
    refine ⟨rfl, ?_, rfl⟩
    simp only
    split_ifs <;> omega
  cases e with
  | unexpected expected found => exact hnotice expected found none h hstart
  | tooDeep found => exact hnotice exprStart found (some tooDeepMessage) h hstart

/-- A lexeme of a source has a place there, where its token is spelled. -/
theorem Lexes.exists_span {source : Text} {ls : List Lexeme} (h : Lexes 0 source ls) {l : Lexeme}
    (hl : l ∈ ls) :
    ∃ start stop : Nat, l.start = start ∧ l.stop = stop ∧ start < stop ∧ stop ≤ source.length ∧
      l.token ≠ endOfInput ∧ source.between start stop = l.token.spelling := by
  obtain ⟨htoken, hfrom, hlt, hto⟩ := h.bounds l hl
  have hspelling := h.between_eq [] rfl l hl
  obtain ⟨start, hstart⟩ : ∃ start : Nat, l.start = start := Int.eq_ofNat_of_zero_le hfrom
  obtain ⟨stop, hstop⟩ : ∃ stop : Nat, l.stop = stop := Int.eq_ofNat_of_zero_le (by omega)
  rw [hstart, hstop] at hspelling hlt
  exact ⟨start, stop, hstart, hstop, by omega, by omega, htoken, hspelling⟩

/-- The lookahead at a position of a stream that ends as it should is one of its
lexemes. -/
theorem Cursor.peek_seek_append_endAt (ls : List Lexeme) (finish : Int) (p : Nat) :
    (Cursor.seek (ls ++ [.endAt finish]) p).peek = .endAt finish ∨
      (Cursor.seek (ls ++ [.endAt finish]) p).peek ∈ ls := by
  have hfinish : (Cursor.seek (ls ++ [.endAt finish]) p).finish = finish := by
    simp [seek, ofLexemes, Lexeme.endAt]
  rw [peek]
  split
  · rw [hfinish]
    exact .inl rfl
  · next l rest hrest =>
    have hmem : l ∈ ls ++ [.endAt finish] :=
      List.mem_of_mem_drop (hrest ▸ List.mem_cons_self : l ∈ (seek (ls ++ [.endAt finish]) p).rest)
    obtain hmem | hend := List.mem_append.1 hmem
    · exact .inr hmem
    · exact .inl (List.mem_singleton.1 hend)

namespace SourceError

variable {source : Text} {e : SourceError} {p : Problem}

/-- A grammatical error is one of the parser, at the beginning of the stream. -/
theorem program_of_parse {lexemes : List Lexeme} (htokenize : tokenize source = .ok lexemes)
    {e : ParseError} (h : parse source = .error (.grammatical e)) :
    ∃ c, Parser.program (.seek lexemes 0) = .error e c := by
  have hstart : Cursor.seek lexemes 0 = .ofLexemes lexemes := rfl
  cases hprogram : Parser.program (.ofLexemes lexemes) with
  | ok t c => simp [parse, htokenize, parseLexemes, hprogram] at h
  | error e' c =>
      obtain rfl : e' = e := by simpa [parse, htokenize, parseLexemes, hprogram] using h
      exact ⟨c, hstart ▸ hprogram⟩

/-- A grammatical error is about a lexeme of the source or about its end. -/
theorem found_of_parse {e : ParseError} (h : parse source = .error (.grammatical e)) :
    e.found = .endAt source.length ∨ ∃ ls, Lexes 0 source ls ∧ e.found ∈ ls := by
  cases htokenize : tokenize source with
  | error e' => simp [parse, htokenize] at h
  | ok lexemes =>
      obtain ⟨ls, hls, rfl⟩ := tokenize_eq_ok_iff.1 htokenize
      obtain ⟨c, hfail⟩ := program_of_parse htokenize h
      obtain ⟨q, -, -, hfound, -⟩ := Parser.blames_program _ 0 e c hfail
      rw [hfound]
      obtain hend | hmem := Cursor.peek_seek_append_endAt ls source.length q
      · exact .inl hend
      · exact .inr ⟨ls, hls, hmem⟩

/-- The span of a mistake covers what the mistake is about. -/
theorem exists_marks (h : parse source = .error e) (hp : e.problem source = .ok p) :
    ∃ start stop : Nat, p.start = start ∧ p.stop = stop ∧ p.cause.Marks source start stop := by
  cases e with
  | lexical e =>
      have hblocked := tokenize_eq_error_iff.1 (LexError.tokenize_of_parse h)
      obtain ⟨hstart, hstop⟩ := e.span_of_problem hp
      obtain ⟨message, subject, rest, -, -, rfl⟩ := Notice.eq_of_problem hp
      exact ⟨e.position, e.position + 1, hstart, hstart ▸ hstop, .character hblocked⟩
  | grammatical e =>
      obtain hend | ⟨ls, hls, hmem⟩ := found_of_parse h
      · obtain ⟨hstart, hstop, hcause⟩ := e.span_of_problem hp (by simp [hend, Lexeme.endAt])
        rw [hend] at hstart hstop hcause
        refine ⟨source.length, source.length + 1, hstart, ?_, hcause ▸ .ending⟩
        rw [hstop]
        simp only [Lexeme.endAt]
        omega
      · obtain ⟨start, stop, hfrom, hto, hlt, hle, htoken, hspelling⟩ := hls.exists_span hmem
        obtain ⟨hstart, hstop, hcause⟩ := e.span_of_problem hp (by omega)
        rw [hfrom] at hstart hcause
        exact ⟨start, stop, hstart, by omega, hcause ▸ .token htoken hle hspelling⟩

end SourceError

/-- **Diagnoses underline the offending text.**  A mistake in a source text is
reported about that text, and the span of the report covers the character that
could not be read, the token that was found, or the column behind the source.
What is shown, without colour, is the source as it is, with this span marked below
it.  The same holds of every problem whose span does not start before its subject,
wherever the span stops. -/
theorem diagnosis_underlines :
    (∀ (source : Text) (e : SourceError), source ≠ [] → parse source = .error e →
      ∃ (p : Problem) (start stop : Nat), e.problem source = .ok p ∧ p.subject = source ∧
        p.showsSubject = true ∧ p.start = start ∧ p.stop = stop ∧ start < stop ∧
        p.cause.Marks source start stop ∧
        ∀ face, (p.diagnosis face).render false = source.underlined start stop) ∧
    ∀ (p : Problem) (start : Nat) (face : Face), p.start = start →
      (p.diagnosis face).render false =
        p.subject.underlined start (max p.stop (start + 1)).toNat := by
  refine ⟨fun source e hsource h => ?_, fun p start face hstart => p.text_diagnosis hstart face⟩
  obtain ⟨p, hp⟩ := e.exists_problem source
  have hsubject := (SourceError.eq_of_problem hp).1
  have hshows := SourceError.showsSubject_of_problem hp hsource
  obtain ⟨start, stop, hstart, hstop, hmarks⟩ := SourceError.exists_marks h hp
  have hlt := hmarks.lt
  refine ⟨p, start, stop, hp, hsubject, hshows, hstart, hstop, hlt, hmarks, fun face => ?_⟩
  rw [Doc.render_false, Problem.text_diagnosis hstart, hsubject, hstop,
    show (max (stop : Int) (start + 1)).toNat = stop by omega]

/-- A missing parenthesis, and a span beyond the end that is crossed. -/
theorem diagnosis_underlines_missingParenthesis :
    parse "(true" = .error (.grammatical (.unexpected [rparen] (.endAt 5))) ∧
      (∃ p, SourceError.problem "(true" (.grammatical (.unexpected [rparen] (.endAt 5))) = .ok p ∧
        (p.diagnosis .error).render false = "  (true\n       ^") ∧
      (Problem.diagnosis ⟨.general, [], "true", 6, -3, true, false⟩ .warning).render false =
        "  true\n        ^" := by
  have hlexes : Lexes 0 "(true" [⟨lparen, 0, 1⟩, ⟨litTrue, 1, 5⟩] :=
    .token (t := lparen) (by decide) <| .token (t := litTrue) (by decide) .nil
  have hlexemes : tokenize "(true" = .ok [⟨lparen, 0, 1⟩, ⟨litTrue, 1, 5⟩, .endAt 5] :=
    tokenize_eq_ok_iff.2 ⟨_, hlexes, rfl⟩
  have hparse : parse "(true" = .error (.grammatical (.unexpected [rparen] (.endAt 5))) := by
    rw [parse, hlexemes]
    rfl
  obtain ⟨hmistakes, hproblems⟩ := diagnosis_underlines
  obtain ⟨p, start, stop, hp, -, -, hstart, hstop, -, -, hdiagnosis⟩ :=
    hmistakes _ _ (by decide) hparse
  obtain ⟨hfrom, hto, -⟩ :=
    ParseError.span_of_problem (e := .unexpected [rparen] (.endAt 5)) hp (by decide)
  obtain rfl : start = 5 := Int.ofNat.inj (hstart.symm.trans hfrom)
  obtain rfl : stop = 6 := Int.ofNat.inj (hstop.symm.trans hto)
  exact ⟨hparse, ⟨p, hp, hdiagnosis .error⟩, hproblems _ 6 .warning rfl⟩

end Conditional

import Conditional.Proofs.Scanning

/-!
# Conditional.Proofs.Resumption

A scanner can be set down anywhere, and what it reads there depends on the text
ahead alone.  The same text further on in another source is read in the same way,
with every place moved (`Scanner.tokenize_shift_ok`,
`Scanner.tokenize_shift_error`).  So a source that is read as far as its end can
be put in front of any other one (`tokenize_concat`), and scanning from an offset
is scanning what stands behind it (`Scanner.resumes`).
-/

namespace Conditional

open Token

/-! ## Moved places -/

/-- The lexeme that stands so many characters further on. -/
def Lexeme.shift (n : Nat) (l : Lexeme) : Lexeme := ⟨l.token, l.start + n, l.stop + n⟩

/-- The error that is so many characters further on. -/
def LexError.shift (n : Nat) (e : LexError) : LexError := ⟨e.character, e.position + n⟩

theorem Lexes.shift {p : Nat} {s : Text} {ls : List Lexeme} (h : Lexes p s ls) (n : Nat) :
    Lexes (p + n) s (ls.map (Lexeme.shift n)) := by
  induction h with
  | nil => exact .nil
  | blank hc _ ih =>
      rw [Nat.add_right_comm] at ih
      exact .blank hc ih
  | @token p t s ls ht _ ih =>
      have hmoved : Lexeme.shift n ⟨t, p, p + t.spelling.length⟩ =
          ⟨t, (p + n : Nat), (p + n : Nat) + t.spelling.length⟩ := by
        simp only [Lexeme.shift, Lexeme.mk.injEq, true_and]
        omega
      rw [Nat.add_right_comm] at ih
      rw [List.map_cons, hmoved]
      exact .token ht ih

namespace Scanner

/-- The scanner with the same text ahead of it, so many characters further on. -/
def shift (n : Nat) (s : Scanner) : Scanner := ⟨s.rest, s.position + n, s.finish + n⟩

section

variable {s s' : Scanner} {ls : List Lexeme} {l : Lexeme} {e : LexError}

theorem Passes.shift (h : s.Passes ls s') (n : Nat) :
    (s.shift n).Passes (ls.map (Lexeme.shift n)) (s'.shift n) := by
  cases h with
  | @through p f a b ls ha =>
      have hmoved := Passes.through (b := b) (f := f + n) (ha.shift n)
      rwa [Nat.add_right_comm] at hmoved

theorem Stops.shift_ok (h : Stops s (.ok l)) (n : Nat) :
    Stops (s.shift n) (.ok (l.shift n)) := by
  cases h with
  | @atEnd p f => exact Stops.atEnd (p := p + n) (f := f + n)

theorem Stops.shift_error (h : Stops s (.error e)) (n : Nat) :
    Stops (s.shift n) (.error (e.shift n)) := by
  cases h with
  | unreadable hc hread => exact .unreadable hc hread

/-- The same text further on is read as the same lexemes further on. -/
theorem tokenize_shift_ok (h : s.tokenize = .ok ls s') (n : Nat) :
    (s.shift n).tokenize = .ok (ls.map (Lexeme.shift n)) (s'.shift n) := by
  obtain ⟨front, stop, last, hpasses, hstop⟩ := exists_passes s
  cases last with
  | ok l =>
      rw [hpasses.tokenize_ok hstop] at h
      cases h
      rw [(hpasses.shift n).tokenize_ok (hstop.shift_ok n), List.map_append, List.map_singleton]
  | error e =>
      rw [hpasses.tokenize_error hstop] at h
      contradiction

/-- What cannot be read there cannot be read further on. -/
theorem tokenize_shift_error (h : s.tokenize = .error e s') (n : Nat) :
    (s.shift n).tokenize = .error (e.shift n) (s'.shift n) := by
  obtain ⟨front, stop, last, hpasses, hstop⟩ := exists_passes s
  cases last with
  | ok l =>
      rw [hpasses.tokenize_ok hstop] at h
      contradiction
  | error e' =>
      rw [hpasses.tokenize_error hstop] at h
      cases h
      exact (hpasses.shift n).tokenize_error (hstop.shift_error n)

end

/-! ## Whole sources -/

section

variable {source : Text} {lexemes : List Lexeme} {e : LexError}

/-- A source that can be read is read to its end. -/
theorem tokenize_start_ok (h : Conditional.tokenize source = .ok lexemes) :
    (start source).tokenize = .ok lexemes (seek source source.length) := by
  obtain ⟨ls, hls, rfl⟩ := tokenize_eq_ok_iff.1 h
  have hread := tokenize_lexes hls source.length
  rwa [Nat.zero_add, ← List.drop_length (l := source)] at hread

/-- A source that cannot be read is read up to the offset of the error. -/
theorem tokenize_start_error (h : Conditional.tokenize source = .error e) :
    (start source).tokenize = .error e (seek source e.position) := by
  obtain ⟨ls, -, hpasses, hstop⟩ := (tokenize_eq_error_iff.1 h).exists_passes
  exact hpasses.tokenize_error hstop

theorem shift_seek {n : Nat} (h : n ≤ source.length) (k : Nat) :
    (seek (source.drop n) k).shift n = seek source (n + k) := by
  simp only [shift, seek, List.drop_drop, List.length_drop, mk.injEq, true_and]
  omega

end

end Scanner

/-! ## Sources one behind the other -/

/-- The scanner passes over what can be read and comes to what stands behind it,
as to a source of its own. -/
theorem Lexes.passes_start {a : Text} {ls : List Lexeme} (h : Lexes 0 a ls) (b : Text) :
    (Scanner.start (a ++ b)).Passes ls ((Scanner.start b).shift a.length) := by
  have hbehind : (Scanner.start b).shift a.length = ⟨b, 0 + a.length, (a ++ b).length⟩ := by
    simp [Scanner.shift, Scanner.start, Scanner.seek, Nat.add_comm]
  rw [hbehind]
  exact .through h

/-- **Scanning is a homomorphism.**  Behind a source that can be read, and any
blanks, another source is read as it is by itself, with its lexemes or its error
moved behind what stands in front. -/
theorem tokenize_concat {a w : Text} {lexemes : List Lexeme} (h : tokenize a = .ok lexemes)
    (hw : ∀ c ∈ w, c = ' ' ∨ c = '\t') (b : Text) :
    ∃ ls, lexemes = ls ++ [.endAt a.length] ∧ endOfInput ∉ tokensOf ls ∧
      ((∃ both, tokenize (a ++ w ++ b) = .ok both) ↔ ∃ more, tokenize b = .ok more) ∧
      (∀ more, tokenize b = .ok more →
        tokenize (a ++ w ++ b) = .ok (ls ++ more.map (Lexeme.shift (a.length + w.length)))) ∧
      ∀ e, tokenize b = .error e →
        tokenize (a ++ w ++ b) = .error (e.shift (a.length + w.length)) := by
  obtain ⟨ls, hls, rfl⟩ := tokenize_eq_ok_iff.1 h
  have hblanks : Lexes (0 + a.length) w [] := .of_blanks (by simpa [Text.isBlank] using hw) _
  have hfront := (hls.append hblanks).passes_start b
  rw [List.append_nil, List.length_append] at hfront
  have hread {more : List Lexeme} (hb : tokenize b = .ok more) :
      tokenize (a ++ w ++ b) = .ok (ls ++ more.map (Lexeme.shift (a.length + w.length))) := by
    have hmoved := Scanner.tokenize_shift_ok (Scanner.tokenize_start_ok hb) (a.length + w.length)
    rw [tokenize, hfront.tokenize_eq, hmoved, Scanner.preceded]
  have hfail {e : LexError} (hb : tokenize b = .error e) :
      tokenize (a ++ w ++ b) = .error (e.shift (a.length + w.length)) := by
    have hmoved :=
      Scanner.tokenize_shift_error (Scanner.tokenize_start_error hb) (a.length + w.length)
    rw [tokenize, hfront.tokenize_eq, hmoved, Scanner.preceded]
  refine ⟨ls, rfl, hls.spells.endOfInput_not_mem, ⟨?_, ?_⟩, fun _ => hread, fun _ => hfail⟩
  · rintro ⟨both, hboth⟩
    cases hb : tokenize b with
    | ok more => exact ⟨more, rfl⟩
    | error e =>
        rw [hfail hb] at hboth
        contradiction
  · rintro ⟨more, hb⟩
    exact ⟨_, hread hb⟩

/-- Keywords on both sides of the seam, and a character behind it that cannot be
read. -/
theorem tokenize_concat_glued :
    tokenize "iftrue" = .ok [⟨kwIf, 0, 2⟩, ⟨litTrue, 2, 6⟩, .endAt 6] ∧
      tokenize "iftruethen" = .ok [⟨kwIf, 0, 2⟩, ⟨litTrue, 2, 6⟩, ⟨kwThen, 6, 10⟩, .endAt 10] ∧
      tokenize "iftrue \t tru" = .error ⟨'t', 9⟩ := by
  have hleft : Lexes 0 "iftrue" [⟨kwIf, 0, 2⟩, ⟨litTrue, 2, 6⟩] :=
    .token (t := kwIf) (by decide) <| .token (t := litTrue) (by decide) .nil
  have hright : Lexes 0 "then" [⟨kwThen, 0, 4⟩] := .token (t := kwThen) (by decide) .nil
  have hlexemes : tokenize "iftrue" = .ok [⟨kwIf, 0, 2⟩, ⟨litTrue, 2, 6⟩, .endAt 6] :=
    tokenize_eq_ok_iff.2 ⟨_, hleft, rfl⟩
  have hempty : tokenize [] = .ok [.endAt 0] := tokenize_eq_ok_iff.2 ⟨_, .nil, rfl⟩
  have hbroken : tokenize "tru" = .error ⟨'t', 0⟩ :=
    tokenize_eq_error_iff.2 ⟨rfl, by decide, read?_eq_none_iff.1 rfl, _, hempty⟩
  obtain ⟨ls, hls, -, -, hread, -⟩ := tokenize_concat (w := []) hlexemes (by simp) "then"
  obtain ⟨-, -, -, -, -, hfail⟩ := tokenize_concat (w := " \t ") hlexemes (by simp [Text.lit]) "tru"
  obtain rfl : [⟨kwIf, 0, 2⟩, ⟨litTrue, 2, 6⟩] = ls := List.append_cancel_right hls
  exact ⟨hlexemes, hread _ (tokenize_eq_ok_iff.2 ⟨_, hright, rfl⟩), hfail _ hbroken⟩

/-! ## Scanning on -/

namespace Scanner

section

variable {source : Text} {n : Nat} {ls : List Lexeme} {l : Lexeme} {e : LexError}
  {stop : Scanner} {last : Except LexError Lexeme}

theorem Passes.endOfInput_not_mem {s : Scanner} (h : s.Passes ls stop) :
    endOfInput ∉ tokensOf ls := by
  cases h with
  | through h => exact h.spells.endOfInput_not_mem

/-- The lexeme at the end of a source stands for its end. -/
theorem Passes.eq_endAt (h : (seek source n).Passes ls stop) (hstop : Stops stop (.ok l)) :
    l = .endAt source.length := by
  have hseek := h.eq_seek
  cases hstop with
  | @atEnd p f =>
      have hfinish : f = source.length := congrArg finish hseek
      rw [hfinish]

/-- The lexemes in front of an error are those of the source without the rest. -/
theorem Passes.exists_front (h : (seek source n).Passes ls stop) (hstop : Stops stop (.error e)) :
    ∃ s, (seek (source.take e.position) n).tokenize = .ok (ls ++ [.endAt e.position]) s := by
  generalize hs : seek source n = s at h
  cases h with
  | @through p f a b ls ha =>
      obtain ⟨hrest, rfl, rfl⟩ : source.drop n = a ++ b ∧ n = p ∧ source.length = f := by
        simpa [seek] using hs
      cases hstop with
      | @unreadable _ _ c rest hc hread =>
          have hlength := congrArg List.length hrest
          rw [List.length_drop, List.length_append, List.length_cons] at hlength
          have hfront : seek (source.take (n + a.length)) n = ⟨a, n, n + a.length⟩ := by
            rw [seek, List.drop_take, Nat.add_sub_cancel_left, hrest, List.take_left' rfl,
              List.length_take_of_le (by omega)]
          rw [hfront, tokenize_lexes ha]
          exact ⟨_, rfl⟩

end

/-- The answers that a scanner has been given and those that it still has ahead
are together what one scan from the same place is answered. -/
structure Continues (source : Text) (s : Scanner) (calls : List Call) : Prop where
  inSource : s.after calls = seek source (s.after calls).position
  forward : ∀ more, (s.after calls).position ≤ (s.after (calls ++ more)).position
  /-- Nothing is lost or read twice; only the end of the input is repeated. -/
  complete : ∀ lexemes stop, s.tokenize = .ok lexemes stop →
    ∃ returned more, s.answers calls = returned.map .ok ∧
      (s.after calls).tokenize = .ok more stop ∧ (s.after calls).position ≤ stop.position ∧
      returned ++ more = lexemes ++
        List.replicate ((tokensOf returned).count endOfInput) (.endAt source.length)
  /-- No call fails before all that can be read has been returned, and from then
  on every call fails. -/
  failing : ∀ e stop, s.tokenize = .error e stop →
    ∃ returned ahead failures front, s.answers calls =
        returned.map .ok ++ List.replicate failures (.error e) ∧
      (s.after calls).tokenize = .error e stop ∧ (s.after calls).position ≤ stop.position ∧
      (seek (source.take e.position) s.position).tokenize =
        .ok (returned ++ ahead ++ [.endAt e.position]) front ∧
      (0 < failures → ahead = [])
  again : ∀ e s', next (s.after calls) = .error e s' → next s' = .error e s'

/-- A call that fails fails again. -/
theorem next_error_again {s s' : Scanner} {e : LexError} (h : next s = .error e s') :
    next s' = .error e s' := by
  obtain ⟨ls, stop, last, hpasses, hstop⟩ := exists_passes s
  cases ls with
  | cons l ls =>
      obtain ⟨s₁, hnext, -⟩ := hpasses.next_cons
      rw [hnext] at h
      contradiction
  | nil =>
      rw [hpasses.next_nil] at h
      cases last with
      | ok l =>
          rw [hstop.next_ok] at h
          contradiction
      | error e' =>
          rw [hstop.next_error] at h
          cases h
          exact hstop.next_error

/-- The end of the input is returned as often as it is asked for beyond the
lexemes. -/
theorem count_endOfInput_returned {ls : List Lexeme} (h : endOfInput ∉ tokensOf ls) (k m : Nat)
    (offset : Int) :
    (tokensOf (ls.take k ++ List.replicate m (.endAt offset))).count endOfInput = m := by
  have hfront : endOfInput ∉ (tokensOf ls).take k := fun hmem => h (List.mem_of_mem_take hmem)
  rw [tokensOf_append, tokensOf, List.map_take, List.count_append, List.count_eq_zero.2 hfront]
  simp [Lexeme.endAt]

/-- What so many calls return and what is then still ahead are the lexemes, and the
last one as often again as it was asked for beyond them. -/
theorem returned_append_ahead (ls : List Lexeme) (l : Lexeme) (k : Nat) :
    ls.take k ++ List.replicate (k - ls.length) l ++ (ls.drop k ++ [l]) =
      ls ++ [l] ++ List.replicate (k - ls.length) l := by
  by_cases hk : k ≤ ls.length
  · rw [Nat.sub_eq_zero_of_le hk, List.replicate_zero, List.append_nil, List.append_nil,
      ← List.append_assoc, List.take_append_drop]
  · have htake : ls.take k = ls := List.take_of_length_le (by omega)
    have hdrop : ls.drop k = [] := List.drop_eq_nil_of_le (by omega)
    rw [htake, hdrop, List.nil_append, List.append_assoc, List.append_assoc,
      ← List.replicate_succ', List.replicate_succ, List.singleton_append]

theorem continues_seek (source : Text) (n : Nat) (calls : List Call) :
    Continues source (seek source n) calls := by
  obtain ⟨ls, stop, last, hpasses, hstop⟩ := exists_passes (seek source n)
  obtain ⟨hfirst, hlater⟩ := hpasses.after hstop calls
  have hanswers := hpasses.answers_eq hstop calls
  refine ⟨hfirst.eq_seek, fun more => ?_, fun lexemes stop' h => ?_, fun e stop' h => ?_,
    fun _ _ => next_error_again⟩
  · rw [after_append]
    exact position_le_after _ more
  · cases last with
    | error e =>
        rw [hpasses.tokenize_error hstop] at h
        contradiction
    | ok l =>
        rw [hpasses.tokenize_ok hstop] at h
        cases h
        obtain rfl := hpasses.eq_endAt hstop
        refine ⟨ls.take (calls.count .next) ++
            List.replicate (calls.count .next - ls.length) (.endAt source.length), _,
          by simp [hanswers], hlater.tokenize_ok hstop, hlater.position_le, ?_⟩
        rw [count_endOfInput_returned hpasses.endOfInput_not_mem]
        exact returned_append_ahead ls _ _
  · cases last with
    | ok l =>
        rw [hpasses.tokenize_ok hstop] at h
        contradiction
    | error e' =>
        rw [hpasses.tokenize_error hstop] at h
        cases h
        obtain ⟨front, hfront⟩ := hpasses.exists_front hstop
        refine ⟨_, ls.drop (calls.count .next), _, front, hanswers, hlater.tokenize_error hstop,
          hlater.position_le, by rwa [List.take_append_drop], fun hpos => ?_⟩
        exact List.drop_eq_nil_of_le (by omega)

/-- **A scanner can be resumed anywhere.**  From an offset of a source it reads what
stands behind the offset as a source of its own, with every place moved, and comes
to the end of the source or to the offset of the error; beyond the end it stays
where it is.  Whatever calls come first, it reads on from there. -/
theorem resumes (source : Text) (n : Nat) :
    (n ≤ source.length →
      (∀ lexemes, Conditional.tokenize (source.drop n) = .ok lexemes →
        (seek source n).tokenize =
          .ok (lexemes.map (Lexeme.shift n)) (seek source source.length)) ∧
      ∀ e, Conditional.tokenize (source.drop n) = .error e →
        (seek source n).tokenize = .error (e.shift n) (seek source (n + e.position))) ∧
    (source.length < n →
      (seek source n).tokenize = .ok [.endAt source.length] (seek source n)) ∧
    ∀ calls, Continues source (seek source n) calls := by
  refine ⟨fun hn => ⟨fun lexemes h => ?_, fun e h => ?_⟩, fun hn => ?_, continues_seek source n⟩
  · have hmoved := tokenize_shift_ok (tokenize_start_ok h) n
    rwa [start, shift_seek hn, shift_seek hn, List.length_drop, Nat.add_zero,
      Nat.add_sub_cancel' hn] at hmoved
  · have hmoved := tokenize_shift_error (tokenize_start_error h) n
    rwa [start, shift_seek hn, shift_seek hn, Nat.add_zero] at hmoved
  · have hnil : seek source n = ⟨[], n, source.length⟩ := by
      rw [seek, List.drop_eq_nil_of_le (Nat.le_of_lt hn)]
    rw [hnil, tokenize_nil]

/-- Between two keywords, inside the second one, and beyond the end. -/
theorem resumes_insideKeyword :
    (seek "iftrue" 2).tokenize = .ok [⟨litTrue, 2, 6⟩, .endAt 6] (seek "iftrue" 6) ∧
      (seek "iftrue" 3).tokenize = .error ⟨'r', 3⟩ (seek "iftrue" 3) ∧
      (seek "iftrue" 7).tokenize = .ok [.endAt 6] (seek "iftrue" 7) ∧
      Continues "iftrue" (seek "iftrue" 2) [.next, .skipBlanks, .next, .next] := by
  have hlexes : Lexes 0 "true" [⟨litTrue, 0, 4⟩] := .token (t := litTrue) (by decide) .nil
  have hlater : Conditional.tokenize "true" = .ok [⟨litTrue, 0, 4⟩, .endAt 4] :=
    tokenize_eq_ok_iff.2 ⟨_, hlexes, rfl⟩
  have hempty : Conditional.tokenize [] = .ok [.endAt 0] := tokenize_eq_ok_iff.2 ⟨_, .nil, rfl⟩
  have hbroken : Conditional.tokenize "rue" = .error ⟨'r', 0⟩ :=
    tokenize_eq_error_iff.2 ⟨rfl, by decide, read?_eq_none_iff.1 rfl, _, hempty⟩
  obtain ⟨hbetween, -, hcalls⟩ := resumes "iftrue" 2
  obtain ⟨hinside, -⟩ := resumes "iftrue" 3
  obtain ⟨-, hbeyond, -⟩ := resumes "iftrue" 7
  exact ⟨(hbetween (by decide)).1 _ hlater, (hinside (by decide)).2 _ hbroken,
    hbeyond (by decide), hcalls _⟩

end Scanner

end Conditional

import Conditional.Proofs.Lexing

/-!
# Conditional.Proofs.Scanning

How far a scanner gets.  From wherever it stands it passes over blanks and
lexemes (`Scanner.Passes`) until it comes to a place where it stops for good
(`Scanner.Stops`): the end of the source, or a character that cannot be read.
Both are said of the text ahead, so whatever a scanner is asked for follows from
the lexemes that it has ahead of it and from the answer that it gets at the stop
(`Scanner.Passes.answers_eq`).

`BlockedAt` says, without the scanner, where a source cannot be read on.  There
is at most one such place, since the scanner fails exactly there
(`tokenize_eq_error_iff`), and nothing behind that place has a part in it.
-/

namespace Conditional

open Token

/-! ## Texts that hold lexemes, one behind the other -/

/-- What stands behind a text stands behind its first character. -/
theorem Text.add_length_cons (p : Nat) (c : Char) (s : Text) :
    p + (c :: s).length = p + 1 + s.length := by
  rw [List.length_cons]
  omega

theorem Lexes.append {p : Nat} {a b : Text} {ls ms : List Lexeme} (ha : Lexes p a ls)
    (hb : Lexes (p + a.length) b ms) : Lexes p (a ++ b) (ls ++ ms) := by
  induction ha with
  | nil => simpa using hb
  | @blank p c s ls hc _ ih =>
      rw [Text.add_length_cons] at hb
      exact .blank hc (ih hb)
  | @token p t s ls ht _ ih =>
      rw [List.length_append, ← Nat.add_assoc] at hb
      rw [List.append_assoc]
      exact .token ht (ih hb)

/-- Blanks hold no lexemes. -/
theorem Lexes.of_blanks {w : Text} (h : ∀ c ∈ w, Text.isBlank c) (p : Nat) : Lexes p w [] := by
  induction w generalizing p with
  | nil => exact .nil
  | cons c w ih =>
      obtain ⟨hc, hw⟩ := List.forall_mem_cons.1 h
      exact .blank hc (ih hw (p + 1))

/-- No token can be read where none is spelled. -/
theorem Token.read?_eq_none_iff {s : Text} :
    read? s = none ↔ ∀ t, t ≠ endOfInput → ¬ t.spelling <+: s := by
  constructor
  · rintro h t ht ⟨rest, rfl⟩
    rw [read?_spelling ht] at h
    contradiction
  · intro h
    cases hread : read? s with
    | none => rfl
    | some found =>
        obtain ⟨t, rest⟩ := found
        obtain ⟨ht, rfl⟩ := eq_append_of_read? hread
        exact absurd (List.prefix_append _ _) (h t ht)

namespace Scanner

/-! ## From one place to another -/

/-- Between the two places of a source stand blanks and the spellings of the
lexemes. -/
inductive Passes : Scanner → List Lexeme → Scanner → Prop where
  | through {p f : Nat} {a b : Text} {ls : List Lexeme} :
      Lexes p a ls → Passes ⟨a ++ b, p, f⟩ ls ⟨b, p + a.length, f⟩

/-- The scanner stands at the end of the source, or at a character that is no
blank and begins no token.  The answer is what a call for a lexeme gets there. -/
inductive Stops : Scanner → Except LexError Lexeme → Prop where
  | atEnd {p f : Nat} : Stops ⟨[], p, f⟩ (.ok (.endAt f))
  | unreadable {p f : Nat} {c : Char} {rest : Text} :
      Text.isBlank c = false → read? (c :: rest) = none →
      Stops ⟨c :: rest, p, f⟩ (.error ⟨c, p⟩)

theorem next_blank {c : Char} (hc : Text.isBlank c) (s : Text) (p f : Nat) :
    next ⟨c :: s, p, f⟩ = next ⟨s, p + 1, f⟩ := by
  rw [next, next, skipBlanks_cons hc]

namespace Passes

variable {s s' s'' : Scanner} {l : Lexeme} {ls ms : List Lexeme}

theorem refl (s : Scanner) : s.Passes [] s := .through .nil

theorem trans (h : s.Passes ls s') (h' : s'.Passes ms s'') : s.Passes (ls ++ ms) s'' := by
  cases h with
  | @through p f a b ls ha =>
      cases h' with
      | @through _ _ a' b' _ hb =>
          have hboth := Passes.through (f := f) (b := b') (ha.append hb)
          rwa [List.append_assoc, List.length_append, ← Nat.add_assoc] at hboth

theorem blank {c : Char} (hc : Text.isBlank c) (rest : Text) (p f : Nat) :
    Passes ⟨c :: rest, p, f⟩ [] ⟨rest, p + 1, f⟩ := .through (a := [c]) (.blank hc .nil)

theorem position_le (h : s.Passes ls s') : s.position ≤ s'.position := by
  cases h with
  | through => exact Nat.le_add_right _ _

/-- A scanner that reads on stays in its source. -/
theorem eq_seek {source : Text} {n : Nat} (h : (seek source n).Passes ls s') :
    s' = seek source s'.position := by
  generalize hs : seek source n = s at h
  cases h with
  | @through p f a b ls ha =>
      obtain ⟨hrest, rfl, rfl⟩ : source.drop n = a ++ b ∧ n = p ∧ source.length = f := by
        simpa [seek] using hs
      have hdrop : source.drop (n + a.length) = b := by
        rw [← List.drop_drop, hrest, List.drop_left']
        rfl
      simp [seek, hdrop]

/-- What a scanner passes over, it reads. -/
theorem tokenize_eq (h : s.Passes ls s') : s.tokenize = preceded ls s'.tokenize := by
  cases h with
  | @through p f a b ls ha => exact tokenize_append ha b f

/-- Before blanks the next lexeme is the one behind them. -/
theorem next_nil (h : s.Passes [] s') : next s = next s' := by
  generalize hls : ([] : List Lexeme) = ls at h
  cases h with
  | @through p f a b ls ha =>
      induction ha with
      | nil => rfl
      | @blank p c a ls hc _ ih =>
          rw [List.cons_append, next_blank hc, ih hls, Text.add_length_cons]
      | token => contradiction

/-- The lexeme ahead is the next one. -/
theorem next_cons (h : s.Passes (l :: ls) s') :
    ∃ s₁, next s = .ok l s₁ ∧ s.Passes [l] s₁ ∧ s₁.Passes ls s' := by
  generalize hls : l :: ls = ms at h
  cases h with
  | @through p f a b ms ha =>
      induction ha with
      | nil => contradiction
      | @blank p c a ms hc ha ih =>
          obtain ⟨s₁, hnext, hfirst, hlater⟩ := ih hls
          rw [List.cons_append, Text.add_length_cons]
          exact ⟨s₁, (next_blank hc _ _ _).trans hnext, (blank hc _ p f).trans hfirst, hlater⟩
      | @token p t a ms ht ha _ =>
          obtain ⟨rfl, rfl⟩ := List.cons.inj hls
          have hfirst : Lexes p (t.spelling ++ []) [⟨t, p, p + t.spelling.length⟩] := .token ht .nil
          rw [List.append_nil] at hfirst
          rw [List.append_assoc, List.length_append, ← Nat.add_assoc]
          exact ⟨_, next_spelling ht (a ++ b) p f, .through hfirst, .through ha⟩

end Passes

/-- Every scanner reads on until it stops. -/
theorem exists_passes (s : Scanner) : ∃ ls stop last, s.Passes ls stop ∧ Stops stop last := by
  obtain ⟨rest, p, f⟩ := s
  obtain ⟨ls, hls⟩ | ⟨a, b, ls, rfl, hls, c, rest, rfl, hc, hread⟩ := lexes_or_stuck p rest
  · have hpasses := Passes.through (b := []) (f := f) hls
    rw [List.append_nil] at hpasses
    exact ⟨ls, _, _, hpasses, .atEnd⟩
  · exact ⟨ls, _, _, .through hls, .unreadable hc hread⟩

/-! ## Calls -/

/-- A call to a scanner. -/
inductive Call where
  | next
  | skipBlanks
deriving DecidableEq, Repr

/-- The answer to a call for a lexeme. -/
def answer (s : Scanner) : Except LexError Lexeme :=
  match next s with
  | .ok l _ => .ok l
  | .error e _ => .error e

/-- The scanner that a call leaves behind, also when it fails. -/
def called (s : Scanner) : Call → Scanner
  | .skipBlanks => s.skipBlanks
  | .next =>
    match next s with
    | .ok _ s' => s'
    | .error _ s' => s'

/-- The scanner after calls. -/
def after (s : Scanner) (calls : List Call) : Scanner := calls.foldl called s

/-- The answers to the calls for a lexeme.  The calls go on after one that
fails. -/
def answers (s : Scanner) : List Call → List (Except LexError Lexeme)
  | [] => []
  | .skipBlanks :: calls => (s.called .skipBlanks).answers calls
  | .next :: calls => s.answer :: (s.called .next).answers calls

theorem after_append (s : Scanner) (calls more : List Call) :
    s.after (calls ++ more) = (s.after calls).after more := List.foldl_append

namespace Stops

variable {s : Scanner} {l : Lexeme} {e : LexError} {last : Except LexError Lexeme}

theorem skipBlanks_eq (h : Stops s last) : s.skipBlanks = s := by
  cases h with
  | atEnd => rfl
  | unreadable hc => exact skipBlanks_eq_self hc _ _ _

theorem next_ok (h : Stops s (.ok l)) : next s = .ok l s := by
  cases h with
  | atEnd => rfl

theorem next_error (h : Stops s (.error e)) : next s = .error e s := by
  cases h with
  | unreadable hc hread => rw [next, skipBlanks_eq_self hc, readHere, hread]

theorem answer_eq (h : Stops s last) : s.answer = last := by
  cases last with
  | ok l => simp [answer, h.next_ok]
  | error e => simp [answer, h.next_error]

/-- No call moves a scanner that has stopped. -/
theorem called_eq (h : Stops s last) (call : Call) : s.called call = s := by
  cases call with
  | skipBlanks => exact h.skipBlanks_eq
  | next =>
      cases last with
      | ok l => simp [called, h.next_ok]
      | error e => simp [called, h.next_error]

theorem tokenize_ok (h : Stops s (.ok l)) : s.tokenize = .ok [l] s := by
  cases h with
  | atEnd => exact tokenize_nil _ _

theorem tokenize_error (h : Stops s (.error e)) : s.tokenize = .error e s := by
  cases h with
  | unreadable hc hread => exact tokenize_unreadable hc hread _ _

end Stops

namespace Passes

variable {s stop : Scanner} {l : Lexeme} {e : LexError} {ls : List Lexeme}
  {last : Except LexError Lexeme}

theorem tokenize_ok (h : s.Passes ls stop) (hstop : Stops stop (.ok l)) :
    s.tokenize = .ok (ls ++ [l]) stop := by
  rw [h.tokenize_eq, hstop.tokenize_ok, preceded]

theorem tokenize_error (h : s.Passes ls stop) (hstop : Stops stop (.error e)) :
    s.tokenize = .error e stop := by
  rw [h.tokenize_eq, hstop.tokenize_error, preceded]

/-- Blanks in front of the lexemes ahead can be passed over first. -/
theorem skipBlanks (h : s.Passes ls stop) (hstop : Stops stop last) :
    s.Passes [] s.skipBlanks ∧ s.skipBlanks.Passes ls stop := by
  cases h with
  | @through p f a b ls ha =>
      induction ha with
      | @nil p =>
          have hself : Scanner.skipBlanks ⟨[] ++ b, p, f⟩ = ⟨b, p, f⟩ := hstop.skipBlanks_eq
          rw [hself]
          exact ⟨.refl _, .refl _⟩
      | @blank p c a ls hc ha ih =>
          rw [Text.add_length_cons] at hstop ⊢
          obtain ⟨hfirst, hlater⟩ := ih hstop
          rw [List.cons_append, skipBlanks_cons hc]
          exact ⟨(blank hc _ p f).trans hfirst, hlater⟩
      | @token p t a ls ht ha _ =>
          obtain ⟨c, rest, hcons, hc⟩ := spelling_eq_cons ht
          have hself : Scanner.skipBlanks ⟨t.spelling ++ a ++ b, p, f⟩ =
              ⟨t.spelling ++ a ++ b, p, f⟩ := by
            rw [hcons]
            exact skipBlanks_eq_self hc _ _ _
          rw [hself]
          exact ⟨.refl _, .through (.token ht ha)⟩

/-- Where no lexeme is ahead, a call for one goes to the stop. -/
theorem called_next_nil (h : s.Passes [] stop) (hstop : Stops stop last) :
    s.answer = last ∧ s.called .next = stop := by
  have hanswer := hstop.answer_eq
  have hcalled := hstop.called_eq .next
  simp only [answer, called] at hanswer hcalled ⊢
  rw [h.next_nil]
  exact ⟨hanswer, hcalled⟩

theorem called_next_cons (h : s.Passes (l :: ls) stop) :
    s.answer = .ok l ∧ s.Passes [l] (s.called .next) ∧ (s.called .next).Passes ls stop := by
  obtain ⟨s₁, hnext, hfirst, hlater⟩ := h.next_cons
  simp only [answer, called, hnext]
  exact ⟨trivial, hfirst, hlater⟩

/-- Calls take a scanner over as many lexemes as they ask for, and not beyond its
stop. -/
theorem after (h : s.Passes ls stop) (hstop : Stops stop last) (calls : List Call) :
    s.Passes (ls.take (calls.count .next)) (s.after calls) ∧
      (s.after calls).Passes (ls.drop (calls.count .next)) stop := by
  induction calls generalizing s ls with
  | nil => simpa [Scanner.after] using ⟨refl s, h⟩
  | cons call calls ih =>
      cases call with
      | skipBlanks =>
          obtain ⟨hskip, hrest⟩ := h.skipBlanks hstop
          obtain ⟨hfirst, hlater⟩ := ih hrest
          simpa [Scanner.after, called] using ⟨hskip.trans hfirst, hlater⟩
      | next =>
          cases ls with
          | nil =>
              obtain ⟨-, hcalled⟩ := h.called_next_nil hstop
              obtain ⟨hfirst, hlater⟩ := ih (refl stop)
              rw [List.take_nil] at hfirst
              rw [List.drop_nil] at hlater
              simpa [Scanner.after, hcalled] using ⟨h.trans hfirst, hlater⟩
          | cons l ls =>
              obtain ⟨-, hstep, hrest⟩ := h.called_next_cons
              obtain ⟨hfirst, hlater⟩ := ih hrest
              simpa [Scanner.after] using ⟨hstep.trans hfirst, hlater⟩

/-- Calls for a lexeme are answered with the lexemes ahead, in their order and
wherever blanks are passed over in between, and then over and over with the
answer at the stop. -/
theorem answers_eq (h : s.Passes ls stop) (hstop : Stops stop last) (calls : List Call) :
    s.answers calls =
      (ls.take (calls.count .next)).map .ok ++
        List.replicate (calls.count .next - ls.length) last := by
  induction calls generalizing s ls with
  | nil => simp [answers]
  | cons call calls ih =>
      cases call with
      | skipBlanks =>
          have hrest := (h.skipBlanks hstop).2
          simpa [answers, called] using ih hrest
      | next =>
          cases ls with
          | nil =>
              obtain ⟨hanswer, hcalled⟩ := h.called_next_nil hstop
              simpa [answers, hanswer, hcalled, List.replicate_succ] using ih (refl stop)
          | cons l ls =>
              obtain ⟨hanswer, -, hrest⟩ := h.called_next_cons
              simpa [answers, hanswer] using ih hrest

end Passes

/-- Calls never move a scanner back. -/
theorem position_le_after (s : Scanner) (calls : List Call) :
    s.position ≤ (s.after calls).position := by
  obtain ⟨ls, stop, last, hpasses, hstop⟩ := exists_passes s
  exact (hpasses.after hstop calls).1.position_le

end Scanner

/-! ## Where a source cannot be read on -/

/-- At the offset stands a character that is no blank and at which no token is
spelled, and all that stands in front of it can be read. -/
structure BlockedAt (source : Text) (p : Nat) (c : Char) : Prop where
  here : source[p]? = some c
  notBlank : c ≠ ' ' ∧ c ≠ '\t'
  noSpelling : ∀ t, t ≠ endOfInput → ¬ t.spelling <+: source.drop p
  readable : ∃ lexemes, tokenize (source.take p) = .ok lexemes

theorem Text.isBlank_eq_false_iff {c : Char} : isBlank c = false ↔ c ≠ ' ' ∧ c ≠ '\t' := by
  simp [isBlank]

theorem BlockedAt.lt_length {source : Text} {p : Nat} {c : Char} (h : BlockedAt source p c) :
    p < source.length := (List.getElem?_eq_some_iff.1 h.here).1

/-- A scanner that starts at the beginning stops where the source cannot be read
on, and what it passes over are the lexemes of what stands in front. -/
theorem BlockedAt.exists_passes {source : Text} {p : Nat} {c : Char} (h : BlockedAt source p c) :
    ∃ ls, tokenize (source.take p) = .ok (ls ++ [.endAt p]) ∧
      (Scanner.start source).Passes ls (Scanner.seek source p) ∧
      Scanner.Stops (Scanner.seek source p) (.error ⟨c, p⟩) := by
  obtain ⟨lexemes, hlexemes⟩ := h.readable
  obtain ⟨ls, hls, rfl⟩ := tokenize_eq_ok_iff.1 hlexemes
  have hlength : (source.take p).length = p := List.length_take_of_le (Nat.le_of_lt h.lt_length)
  have hpasses := Scanner.Passes.through (b := source.drop p) (f := source.length) hls
  rw [List.take_append_drop, hlength, Nat.zero_add] at hpasses
  rw [hlength] at hlexemes
  obtain ⟨hlt, hc⟩ := List.getElem?_eq_some_iff.1 h.here
  have hdrop : source.drop p = c :: source.drop (p + 1) := by rw [List.drop_eq_getElem_cons hlt, hc]
  have hread := read?_eq_none_iff.2 h.noSpelling
  refine ⟨ls, hlexemes, hpasses, ?_⟩
  rw [hdrop] at hread
  rw [Scanner.seek, hdrop]
  exact .unreadable (Text.isBlank_eq_false_iff.2 h.notBlank) hread

/-- The scanner fails exactly where the source cannot be read on. -/
theorem tokenize_eq_error_iff {source : Text} {e : LexError} :
    tokenize source = .error e ↔ BlockedAt source e.position e.character := by
  constructor
  · intro h
    obtain ⟨ls, hls⟩ | ⟨a, b, ls, rfl, hls, c, rest, rfl, hc, hread⟩ := lexes_or_stuck 0 source
    · rw [tokenize_eq_ok_iff.2 ⟨ls, hls, rfl⟩] at h
      contradiction
    · have hpasses := Scanner.Passes.through (b := c :: rest) (f := (a ++ c :: rest).length) hls
      have hstart : (Scanner.start (a ++ c :: rest)).tokenize = _ :=
        hpasses.tokenize_error (.unreadable hc hread)
      rw [Nat.zero_add] at hstart
      rw [tokenize, hstart] at h
      obtain rfl := Except.error.inj h
      exact ⟨by simp, Text.isBlank_eq_false_iff.1 hc, by simpa using read?_eq_none_iff.1 hread,
        ⟨_, tokenize_eq_ok_iff.2 ⟨ls, by simpa using hls, rfl⟩⟩⟩
  · intro h
    obtain ⟨ls, -, hpasses, hstop⟩ := h.exists_passes
    rw [tokenize, hpasses.tokenize_error hstop]

/-- **Lexical errors are where the source cannot be read on.**  The error is about
the character at its offset, which is no blank and begins no spelling, and what
stands in front is read by itself, as the lexemes that the scanner was given
before it failed.  There is no other such offset, and with the same text in front
every source that cannot be read on there fails there. -/
theorem tokenize_error_located {source : Text} {e : LexError} (h : tokenize source = .error e) :
    e.position < source.length ∧ BlockedAt source e.position e.character ∧
    (∃ ls, tokenize (source.take e.position) = .ok (ls ++ [.endAt e.position]) ∧
      (Scanner.start source).answers (List.replicate (ls.length + 1) .next) =
        ls.map .ok ++ [.error e]) ∧
    (∀ p c, BlockedAt source p c → p = e.position ∧ c = e.character) ∧
    ∀ (other : Text) (c : Char), other.take e.position = source.take e.position →
      other[e.position]? = some c → c ≠ ' ' ∧ c ≠ '\t' →
      (∀ t, t ≠ endOfInput → ¬ t.spelling <+: other.drop e.position) →
      tokenize other = .error ⟨c, e.position⟩ := by
  have hblocked := tokenize_eq_error_iff.1 h
  obtain ⟨ls, hls, hpasses, hstop⟩ := hblocked.exists_passes
  refine ⟨hblocked.lt_length, hblocked, ⟨ls, hls, ?_⟩, fun p c hp => ?_, ?_⟩
  · rw [hpasses.answers_eq hstop]
    simp [List.take_of_length_le]
  · have hother := tokenize_eq_error_iff (e := ⟨c, p⟩).2 hp
    rw [h] at hother
    obtain rfl := Except.error.inj hother
    exact ⟨rfl, rfl⟩
  · intro other c hfront hhere hblank hspelling
    exact tokenize_eq_error_iff.2 ⟨hhere, hblank, hspelling, _, hfront ▸ hls⟩

/-- A spelling that breaks off behind another token. -/
theorem tokenize_error_located_brokenOff :
    tokenize "truetru3" = .error ⟨'t', 4⟩ ∧
      tokenize "true" = .ok [⟨litTrue, 0, 4⟩, .endAt 4] ∧
      (Scanner.start "truetru3").answers [.next, .next] =
        [.ok ⟨litTrue, 0, 4⟩, .error ⟨'t', 4⟩] ∧
      tokenize "true&false" = .error ⟨'&', 4⟩ := by
  have hlexes : Lexes 0 "true" [⟨litTrue, 0, 4⟩] := .token (t := litTrue) (by decide) .nil
  have hfront : tokenize "true" = .ok [⟨litTrue, 0, 4⟩, .endAt 4] :=
    tokenize_eq_ok_iff.2 ⟨_, hlexes, rfl⟩
  have hbroken : tokenize "truetru3" = .error ⟨'t', 4⟩ :=
    tokenize_eq_error_iff.2 ⟨rfl, by decide, read?_eq_none_iff.1 rfl, _, hfront⟩
  obtain ⟨-, -, ⟨ls, hls, hanswers⟩, -, hothers⟩ := tokenize_error_located hbroken
  have hsame : [⟨litTrue, 0, 4⟩] ++ [Lexeme.endAt 4] = ls ++ [Lexeme.endAt 4] :=
    Except.ok.inj (hfront.symm.trans hls)
  obtain rfl := List.append_cancel_right hsame
  exact ⟨hbroken, hfront, hanswers,
    hothers "true&false" '&' rfl rfl (by decide) (read?_eq_none_iff.1 rfl)⟩

end Conditional

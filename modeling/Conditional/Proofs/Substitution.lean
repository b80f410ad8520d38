import Conditional.Proofs.BigStep
import Conditional.Proofs.Canonical
import Conditional.Proofs.Spans
import Conditional.Proofs.Valuation

/-!
# Conditional.Proofs.Substitution

A piece of a source that was read as a subterm may be replaced by any other
source, and the term changes at that place only (`parse_replace`).

The argument has three layers.  For terms, what stands at a position is all
that evaluation takes notice of (`Term.evaluate_replace`).  For tokens, every
call that the parser makes on its way (`Parser.Calls`) leaves a frame: the
tokens before and after those that the call passes over form an expression
around any expression that is put between them (`Parser.Calls.frames`).  For
texts, the lexemes of a source can be parted anywhere, and since keywords need
nothing between them, whatever is put between the parts is read on its own.
-/

namespace Conditional

open Token Conditional.Parser

/-! ## Subterms -/

namespace Term

/-- The subterm at a position. -/
def at? : Term → List Part → Option Term
  | t, [] => some t
  | ite c _ _, .condition :: position => c.at? position
  | ite _ a _, .thenBranch :: position => a.at? position
  | ite _ _ b, .elseBranch :: position => b.at? position
  | _, _ :: _ => none

/-- The term with another one at a position; the same term, if it has no such
position. -/
def replace : Term → List Part → Term → Term
  | _, [], u => u
  | ite c a b, .condition :: position, u => ite (c.replace position u) a b
  | ite c a b, .thenBranch :: position, u => ite c (a.replace position u) b
  | ite c a b, .elseBranch :: position, u => ite c a (b.replace position u)
  | t, _ :: _, _ => t

@[simp] theorem at?_nil (t : Term) : t.at? [] = some t := by cases t <;> rfl

@[simp] theorem replace_nil (t u : Term) : t.replace [] u = u := by cases t <;> rfl

/-- Only a conditional has subterms below its root. -/
theorem exists_ite_of_at?_cons {t u : Term} {part : Part} {position : List Part}
    (h : t.at? (part :: position) = some u) : ∃ c a b, t = ite c a b := by
  cases t with
  | ite c a b => exact ⟨c, a, b, rfl⟩
  | lit value | foreign node => simp [at?] at h

/-- A subterm in its own place changes nothing. -/
theorem replace_self {t u : Term} {position : List Part} (h : t.at? position = some u) :
    t.replace position u = t := by
  induction position generalizing t with
  | nil => simpa using h.symm
  | cons part position ih =>
      obtain ⟨c, a, b, rfl⟩ := exists_ite_of_at?_cons h
      cases part with
      | condition => exact congrArg (ite · a b) (ih h)
      | thenBranch => exact congrArg (ite c · b) (ih h)
      | elseBranch => exact congrArg (ite c a ·) (ih h)

/-- A conditional has the value that it has with parts of the same values. -/
theorem evaluate_ite_congr {c a b c' a' b' : Term} (hc : c'.evaluate = c.evaluate)
    (ha : a'.evaluate = a.evaluate) (hb : b'.evaluate = b.evaluate) :
    (ite c' a' b').evaluate = (ite c a b).evaluate := by
  rw [evaluate, evaluate, hc, ha, hb]

/-- Evaluation takes notice of a subterm for its value alone. -/
theorem evaluate_replace {t u v : Term} {position : List Part} (h : t.at? position = some u)
    (hvalue : v.evaluate = u.evaluate) : (t.replace position v).evaluate = t.evaluate := by
  induction position generalizing t with
  | nil =>
      rw [at?_nil, Option.some.injEq] at h
      rw [replace_nil, hvalue, h]
  | cons part position ih =>
      obtain ⟨c, a, b, rfl⟩ := exists_ite_of_at?_cons h
      cases part with
      | condition => exact evaluate_ite_congr (ih h) rfl rfl
      | thenBranch => exact evaluate_ite_congr rfl (ih h) rfl
      | elseBranch => exact evaluate_ite_congr rfl rfl (ih h)

end Term

/-! ## The calls of the parser -/

namespace Parser

/-- Reading with so many levels at the first cursor leads to a call with so
many levels at the second one, for the part of the term at the position.  A
group leads to a call for the same position as its own. -/
inductive Calls : Nat → Cursor → List Part → Nat → Cursor → Prop where
  | itself (n : Nat) (c : Cursor) : Calls n c [] n c
  | condition {n m : Nat} {c d : Cursor} {position : List Part} :
      c.peek.token = .kwIf → Calls n c.passed position m d →
      Calls (n + 1) c (.condition :: position) m d
  | thenBranch {n m : Nat} {c c₁ d : Cursor} {s : Term} {position : List Part} :
      c.peek.token = .kwIf → expr n c.passed = .ok s c₁ →
      c₁.peek.token = .kwThen → Calls n c₁.passed position m d →
      Calls (n + 1) c (.thenBranch :: position) m d
  | elseBranch {n m : Nat} {c c₁ c₂ d : Cursor} {s a : Term} {position : List Part} :
      c.peek.token = .kwIf → expr n c.passed = .ok s c₁ →
      c₁.peek.token = .kwThen → expr n c₁.passed = .ok a c₂ →
      c₂.peek.token = .kwElse → Calls n c₂.passed position m d →
      Calls (n + 1) c (.elseBranch :: position) m d
  | inner {n m : Nat} {c d : Cursor} {position : List Part} :
      c.peek.token = .lparen → Calls n c.passed position m d → Calls (n + 1) c position m d

/-- What is read at `if` is a conditional. -/
theorem Reads.of_kwIf {n : Nat} {c c' : Cursor} {t : Term} (h : Reads (n + 1) c t c')
    (hc : c.peek.token = .kwIf) :
    ∃ s a b c₁ c₂, t = .ite s a b ∧ Reads n c.passed s c₁ ∧ c₁.peek.token = .kwThen ∧
      Reads n c₁.passed a c₂ ∧ c₂.peek.token = .kwElse ∧ Reads n c₂.passed b c' := by
  cases h with
  | litTrue hc' | litFalse hc' | group hc' =>
      rw [hc] at hc'
      contradiction
  | conditional _ hs hthen ha helse hb => exact ⟨_, _, _, _, _, rfl, hs, hthen, ha, helse, hb⟩

/-- What is read at an opening parenthesis is a group. -/
theorem Reads.of_lparen {n : Nat} {c c' : Cursor} {t : Term} (h : Reads (n + 1) c t c')
    (hc : c.peek.token = .lparen) :
    ∃ c₁, Reads n c.passed t c₁ ∧ c₁.peek.token = .rparen ∧ c' = c₁.passed := by
  cases h with
  | litTrue hc' | litFalse hc' | conditional hc' =>
      rw [hc] at hc'
      contradiction
  | group _ ht hclose => exact ⟨_, ht, hclose, rfl⟩

theorem Reads.exists_derives {n : Nat} {c c' : Cursor} {t : Term} (h : Reads n c t c') :
    ∃ ls, c.Moves ls c' ∧ Derives (tokensOf ls) t := by
  obtain ⟨ls, k, hmoves, hnests, -⟩ := h.exists_nests
  exact ⟨ls, hmoves, hnests.derives⟩

end Parser

/-- The tokens before and after a place are a frame for a position of the
term: together with any expression between them they are an expression of the
term with that other term at the position. -/
def Frame (before after : List Token) (t : Term) (position : List Part) : Prop :=
  ∀ w u, Derives w u → Derives (before ++ w ++ after) (t.replace position u)

namespace Frame

variable {before after : List Token} {c a b : Term} {position : List Part}

theorem condition (h : Frame before after c position) {v w : List Token} (ha : Derives v a)
    (hb : Derives w b) :
    Frame (kwIf :: before) (after ++ (kwThen :: v ++ kwElse :: w)) (.ite c a b)
      (.condition :: position) := by
  intro x u hx
  simpa [Term.replace] using Derives.conditional (h x u hx) ha hb

theorem thenBranch {u w : List Token} (hc : Derives u c) (h : Frame before after a position)
    (hb : Derives w b) :
    Frame (kwIf :: u ++ kwThen :: before) (after ++ kwElse :: w) (.ite c a b)
      (.thenBranch :: position) := by
  intro x u hx
  simpa [Term.replace] using Derives.conditional hc (h x u hx) hb

theorem elseBranch {u v : List Token} (hc : Derives u c) (ha : Derives v a)
    (h : Frame before after b position) :
    Frame (kwIf :: u ++ kwThen :: v ++ kwElse :: before) after (.ite c a b)
      (.elseBranch :: position) := by
  intro x u hx
  simpa [Term.replace] using Derives.conditional hc ha (h x u hx)

theorem group {t : Term} (h : Frame before after t position) :
    Frame (lparen :: before) (after ++ [rparen]) t position := by
  intro x u hx
  simpa using Derives.group (h x u hx)

end Frame

/-- **Every call has a frame.**  Where reading succeeds, every call on its way
has succeeded, with the subterm at its position; and the lexemes before and
after those that it has passed over are a frame for that position. -/
theorem Parser.Calls.frames {n m : Nat} {c d : Cursor} {position : List Part}
    (h : Calls n c position m d) {t : Term} {c' : Cursor} (ht : Reads n c t c') :
    ∃ u d' before part after, Reads m d u d' ∧ t.at? position = some u ∧
      c.Moves before d ∧ d.Moves part d' ∧ d'.Moves after c' ∧
      Frame (tokensOf before) (tokensOf after) t position := by
  induction h generalizing t c' with
  | itself n c =>
      obtain ⟨part, hpart, -⟩ := ht.exists_derives
      refine ⟨t, c', [], part, [], ht, t.at?_nil, .refl c, hpart, .refl c', fun w u hw => ?_⟩
      simpa using hw
  | @condition n m c d position hc _ ih =>
      obtain ⟨s, a, b, c₁, c₂, rfl, hs, hthen, ha, helse, hb⟩ := ht.of_kwIf hc
      obtain ⟨u, d', before, part, after, hu, hat, hbefore, hpart, hafter, hframe⟩ := ih hs
      obtain ⟨vs, hvs, hderivesA⟩ := ha.exists_derives
      obtain ⟨ws, hws, hderivesB⟩ := hb.exists_derives
      have hif := Cursor.Moves.over hc (by decide)
      have hkw₁ := Cursor.Moves.over hthen (by decide)
      have hkw₂ := Cursor.Moves.over helse (by decide)
      refine ⟨u, d', _, part, _, hu, hat, hif.trans hbefore, hpart,
        hafter.trans ((hkw₁.trans hvs).trans (hkw₂.trans hws)), ?_⟩
      simpa [tokensOf, hc, hthen, helse] using hframe.condition hderivesA hderivesB
  | @thenBranch n m c c₁ d s position hc hs hthen _ ih =>
      obtain ⟨s', a, b, c₁', c₂, rfl, hs', -, ha, helse, hb⟩ := ht.of_kwIf hc
      obtain ⟨rfl, rfl⟩ := hs'.unique (expr_eq_ok_iff.1 hs)
      obtain ⟨u, d', before, part, after, hu, hat, hbefore, hpart, hafter, hframe⟩ := ih ha
      obtain ⟨us, hus, hderivesS⟩ := hs'.exists_derives
      obtain ⟨ws, hws, hderivesB⟩ := hb.exists_derives
      have hif := Cursor.Moves.over hc (by decide)
      have hkw₁ := Cursor.Moves.over hthen (by decide)
      have hkw₂ := Cursor.Moves.over helse (by decide)
      refine ⟨u, d', _, part, _, hu, hat, (hif.trans hus).trans (hkw₁.trans hbefore), hpart,
        hafter.trans (hkw₂.trans hws), ?_⟩
      simpa [tokensOf, hc, hthen, helse] using hframe.thenBranch hderivesS hderivesB
  | @elseBranch n m c c₁ c₂ d s a position hc hs hthen ha helse _ ih =>
      obtain ⟨s', a', b, c₁', c₂', rfl, hs', -, ha', -, hb⟩ := ht.of_kwIf hc
      obtain ⟨rfl, rfl⟩ := hs'.unique (expr_eq_ok_iff.1 hs)
      obtain ⟨rfl, rfl⟩ := ha'.unique (expr_eq_ok_iff.1 ha)
      obtain ⟨u, d', before, part, after, hu, hat, hbefore, hpart, hafter, hframe⟩ := ih hb
      obtain ⟨us, hus, hderivesS⟩ := hs'.exists_derives
      obtain ⟨vs, hvs, hderivesA⟩ := ha'.exists_derives
      have hif := Cursor.Moves.over hc (by decide)
      have hkw₁ := Cursor.Moves.over hthen (by decide)
      have hkw₂ := Cursor.Moves.over helse (by decide)
      refine ⟨u, d', _, part, _, hu, hat,
        ((hif.trans hus).trans (hkw₁.trans hvs)).trans (hkw₂.trans hbefore), hpart, hafter, ?_⟩
      simpa [tokensOf, hc, hthen, helse] using hframe.elseBranch hderivesS hderivesA
  | @inner n m c d position hc _ ih =>
      obtain ⟨c₁, hinner, hclose, rfl⟩ := ht.of_lparen hc
      obtain ⟨u, d', before, part, after, hu, hat, hbefore, hpart, hafter, hframe⟩ := ih hinner
      have hopen := Cursor.Moves.over hc (by decide)
      have hshut := Cursor.Moves.over hclose (by decide)
      refine ⟨u, d', _, part, _, hu, hat, hopen.trans hbefore, hpart, hafter.trans hshut, ?_⟩
      simpa [tokensOf, hc, hclose] using hframe.group

/-! ## Parting a source at its lexemes -/

section

variable {p : Nat} {s : Text} {before after : List Lexeme} {l : Lexeme}

/-- A text falls apart where one of its lexemes starts, the blanks in front of
the lexeme being left with what precedes it. -/
theorem Lexes.split (h : Lexes p s (before ++ l :: after)) :
    ∃ a b, s = a ++ b ∧ l.start = (p + a.length : Nat) ∧ Lexes p a before ∧
      Lexes (p + a.length) b (l :: after) := by
  generalize hls : before ++ l :: after = ls at h
  induction h generalizing before with
  | nil => simp at hls
  | @blank p c s ls hc _ ih =>
      obtain ⟨a, b, rfl, hstart, ha, hb⟩ := ih hls
      have hlength : p + (c :: a).length = p + 1 + a.length := by rw [List.length_cons]; omega
      rw [← hlength] at hstart hb
      exact ⟨c :: a, b, rfl, hstart, .blank hc ha, hb⟩
  | @token p t s ls ht hrest ih =>
      cases before with
      | nil =>
          obtain ⟨rfl, rfl⟩ := List.cons.inj hls
          exact ⟨[], t.spelling ++ s, rfl, rfl, .nil, .token ht hrest⟩
      | cons l₀ before =>
          obtain ⟨rfl, hls'⟩ := List.cons.inj hls
          obtain ⟨a, b, rfl, hstart, ha, hb⟩ := ih hls'
          have hlength : p + (t.spelling ++ a).length = p + t.spelling.length + a.length := by
            rw [List.length_append, Nat.add_assoc]
          rw [← hlength] at hstart hb
          exact ⟨t.spelling ++ a, b, (List.append_assoc ..).symm, hstart, .token ht ha, hb⟩

/-- A lexeme that starts where a text does is spelled at the front of it. -/
theorem Lexes.front (h : Lexes p s (l :: after)) (hstart : l.start = p) :
    ∃ b, s = l.token.spelling ++ b ∧ l.token ≠ endOfInput ∧
      l.stop = (p + l.token.spelling.length : Nat) ∧
      Lexes (p + l.token.spelling.length) b after := by
  cases h with
  | blank _ hrest =>
      have hbound := (hrest.bounds l List.mem_cons_self).2.1
      omega
  | token ht hrest => exact ⟨_, rfl, ht, rfl, hrest⟩

/-- A text falls apart around consecutive lexemes, and what holds them reaches
from the start of the first to the stop of the last. -/
theorem Lexes.split_part {part : List Lexeme} {first last : Lexeme}
    (h : Lexes p s (before ++ part ++ after)) (hfirst : part.head? = some first)
    (hlast : part.getLast? = some last) :
    ∃ a m b, s = a ++ (m ++ b) ∧ first.start = (p + a.length : Nat) ∧
      last.stop = (p + (a.length + m.length) : Nat) ∧ Spells a (tokensOf before) ∧
      Spells m (tokensOf part) ∧ Spells b (tokensOf after) := by
  obtain ⟨behind, rfl⟩ := List.head?_eq_some_iff.1 hfirst
  obtain ⟨ahead, hpart⟩ := List.getLast?_eq_some_iff.1 hlast
  rw [List.append_assoc, List.cons_append] at h
  obtain ⟨a, r, rfl, hstart, ha, hr⟩ := h.split
  rw [← List.cons_append, hpart, List.append_assoc, List.singleton_append] at hr
  obtain ⟨m, r, rfl, hlaststart, hm, hr⟩ := hr.split
  obtain ⟨b, rfl, ht, hstop, hb⟩ := hr.front hlaststart
  refine ⟨a, m ++ last.token.spelling, b, by simp, hstart, ?_, ha.spells, ?_, hb.spells⟩
  · rw [hstop, List.length_append]
    simp only [Nat.add_assoc]
  · rw [hpart, tokensOf_append]
    exact hm.spells.append (.single ht)

end

/-! ## Sources -/

/-- Reading the source, the parser was called for the position and passed over
the lexemes between the two offsets, and this is the term that it found. -/
def Consumed (source : Text) (position : List Part) (u : Term) (start stop : Int) : Prop :=
  ∃ lexemes m c c' part first last, tokenize source = .ok lexemes ∧
    Calls (nestingLimit + 1) (.ofLexemes lexemes) position m c ∧ expr m c = .ok u c' ∧
    c.Moves part c' ∧ part.head? = some first ∧ part.getLast? = some last ∧
    start = first.start ∧ stop = last.stop

/-- A source that spells an expression denotes its term, unless it is nested
too deeply. -/
theorem parse_of_derives {source : Text} {w : List Token} {t : Term} (h : Spells source w)
    (hw : Derives w t) (hshallow : ∀ l, parse source ≠ .error (.grammatical (.tooDeep l))) :
    parse source = .ok t := by
  obtain ⟨lexemes, hlexemes, htokens⟩ := h.tokenize
  rw [parse, hlexemes] at hshallow ⊢
  have hparse : parseLexemes lexemes = .ok t := by
    refine parseLexemes_of_derives hw (.inr htokens) fun l hl => hshallow l ?_
    simp only [hl]
  simp only [hparse]

theorem exists_reads_of_parse {source : Text} {t : Term} (h : parse source = .ok t) :
    ∃ ls c, Lexes 0 source ls ∧
      Reads (nestingLimit + 1) (.ofLexemes (ls ++ [.endAt source.length])) t c ∧ c.AtEnd := by
  rw [parse] at h
  split at h
  · contradiction
  · next hlexemes =>
      split at h
      · contradiction
      · next hparse =>
          cases h
          obtain ⟨ls, hls, rfl⟩ := tokenize_eq_ok_iff.1 hlexemes
          obtain ⟨c, hreads, hend⟩ := parseLexemes_eq_ok_iff_reads.1 hparse
          exact ⟨ls, c, hls, hreads, hend⟩

/-- What stands before the end of a stream is all but its end. -/
theorem Cursor.Moves.eq_of_atEnd {ls ls' : List Lexeme} {offset : Int} {c : Cursor}
    (h : (Cursor.ofLexemes (ls ++ [.endAt offset])).Moves ls' c) (hend : c.AtEnd)
    (hls' : endOfInput ∉ tokensOf ls') : ls = ls' := by
  have hrest : ls ++ [.endAt offset] = ls' ++ c.rest := h.rest
  obtain hnil | hone := hend
  · rw [List.map_eq_nil_iff.1 hnil, List.append_nil] at hrest
    have hmem : endOfInput ∈ tokensOf ls' := by rw [← hrest, tokensOf_append_endAt]; simp
    exact absurd hmem hls'
  · obtain ⟨l, hl, -⟩ := List.map_eq_singleton_iff.1 hone
    rw [hl] at hrest
    exact (List.append_inj' hrest rfl).1

/-- A source falls apart around what was consumed for a subterm. -/
theorem Consumed.exists_frame {source : Text} {t u : Term} {position : List Part}
    {start stop : Int} (h : Consumed source position u start stop)
    (ht : parse source = .ok t) :
    t.at? position = some u ∧
      ∃ a m b before part after, source = a ++ (m ++ b) ∧ start = (a.length : Nat) ∧
        stop = (a.length + m.length : Nat) ∧ Spells a before ∧ Spells m part ∧ Spells b after ∧
        Derives part u ∧ Frame before after t position := by
  obtain ⟨lexemes, n, d, d', part, first, last, hlexemes, hcalls, hcall, hpart, hfirst, hlast,
    rfl, rfl⟩ := h
  obtain ⟨ls, c, hls, hreads, hend⟩ := exists_reads_of_parse ht
  obtain rfl : ls ++ [.endAt source.length] = lexemes :=
    Except.ok.inj ((tokenize_eq_ok_iff.2 ⟨ls, hls, rfl⟩).symm.trans hlexemes)
  have hu := expr_eq_ok_iff.1 hcall
  obtain ⟨u', d'', before, part', after, hu', hat, hbefore, hpart', hafter, hframe⟩ :=
    hcalls.frames hreads
  obtain ⟨rfl, rfl⟩ := hu.unique hu'
  obtain rfl : part = part' :=
    List.append_cancel_right (hpart.rest.symm.trans hpart'.rest)
  obtain ⟨_, hmoves, hderives⟩ := hu.exists_derives
  obtain rfl := List.append_cancel_right (hpart.rest.symm.trans hmoves.rest)
  have hall := (hbefore.trans hpart).trans hafter
  have hwhole := hframe _ _ hderives
  rw [← tokensOf_append, ← tokensOf_append] at hwhole
  obtain rfl := hall.eq_of_atEnd hend hwhole.endOfInput_not_mem
  obtain ⟨a, m, b, hsource, hstart, hstop, ha, hm, hb⟩ := hls.split_part hfirst hlast
  rw [Nat.zero_add] at hstart hstop
  exact ⟨hat, a, m, b, _, _, _, hsource, hstart, hstop, ha, hm, hb, hderives, hframe⟩

/-- **Substitution in the source.**  Let a source denote a term, and let one
call of the parser have consumed a span of it for a subterm.  Then the source
with another one in place of the span, unless it is nested too deeply, denotes
the term with the other term in place of the subterm; so parentheses around the
span change nothing; and the value stays the same if that of the subterm
does. -/
theorem parse_replace {source other : Text} {t u v : Term} {position : List Part}
    {start stop : Int} (ht : parse source = .ok t)
    (hspan : Consumed source position u start stop) (hv : parse other = .ok v) :
    t.at? position = some u ∧
    (let replaced := source.upTo start ++ other ++ source.onward stop
     (∀ l, parse replaced ≠ .error (.grammatical (.tooDeep l))) →
       parse replaced = .ok (t.replace position v)) ∧
    (let grouped := source.upTo start ++ (['('] ++ source.between start stop ++ [')']) ++
       source.onward stop
     (∀ l, parse grouped ≠ .error (.grammatical (.tooDeep l))) → parse grouped = .ok t) ∧
    ∃ value, t.evaluate = .ok value ∧
      (v.evaluate = u.evaluate → (t.replace position v).evaluate = .ok value) := by
  obtain ⟨hat, a, m, b, before, part, after, rfl, rfl, rfl, ha, hm, hb, hpart, hframe⟩ :=
    hspan.exists_frame ht
  have hstart : a.length ≤ (a ++ (m ++ b)).length := by simp
  have hstop : a.length + m.length ≤ (a ++ (m ++ b)).length := by simp
  have hupTo : (a ++ (m ++ b)).upTo (a.length : Nat) = a := by
    rw [Text.upTo, Text.cut_natCast hstart, List.take_left']
    rfl
  have honward : (a ++ (m ++ b)).onward (a.length + m.length : Nat) = b := by
    rw [Text.onward, Text.cut_natCast hstop, ← List.append_assoc, List.drop_left']
    exact List.length_append
  rw [hupTo, honward, Text.between_append]
  refine ⟨hat, fun hshallow => ?_, fun hshallow => ?_, ?_⟩
  · obtain ⟨w, k, hw, hnests, -⟩ := parse_eq_ok_iff.1 hv
    exact parse_of_derives ((ha.append hw).append hb) (hframe _ _ hnests.derives) hshallow
  · have hgroup : Spells (['('] ++ m ++ [')']) (lparen :: part ++ [rparen]) :=
      ((Spells.single (t := lparen) (by decide)).append hm).append
        (.single (t := rparen) (by decide))
    have hwhole := hframe _ _ hpart.group
    rw [Term.replace_self hat] at hwhole
    exact parse_of_derives ((ha.append hgroup).append hb) hwhole hshallow
  · obtain ⟨value, hvalue⟩ := (native_of_parse ht).exists_evaluates
    refine ⟨value, hvalue.evaluate_eq, fun hsame => ?_⟩
    rw [Term.evaluate_replace hat hsame, hvalue.evaluate_eq]

/-- A group gives way to a conditional, with no blank before the `else` that
follows it. -/
theorem parse_replace_glued :
    parse "if true then (false)else true" = .ok (.ite (.lit true) (.lit false) (.lit true)) ∧
      Consumed "if true then (false)else true" [.thenBranch] (.lit false) 13 20 ∧
      parse "iftruethenfalseelsetrue" = .ok (.ite (.lit true) (.lit false) (.lit true)) ∧
      parse "if true then iftruethenfalseelsetrueelse true" =
        .ok (.ite (.lit true) (.ite (.lit true) (.lit false) (.lit true)) (.lit true)) ∧
      (Term.ite (.lit true) (.ite (.lit true) (.lit false) (.lit true)) (.lit true)).evaluate =
        (Term.ite (.lit true) (.lit false) (.lit true)).evaluate := by
  have hlexes : Lexes 0 "if true then (false)else true"
      [⟨kwIf, 0, 2⟩, ⟨litTrue, 3, 7⟩, ⟨kwThen, 8, 12⟩, ⟨lparen, 13, 14⟩, ⟨litFalse, 14, 19⟩,
        ⟨rparen, 19, 20⟩, ⟨kwElse, 20, 24⟩, ⟨litTrue, 25, 29⟩] :=
    .token (t := kwIf) (by decide) <| .blank (by decide) <| .token (t := litTrue) (by decide) <|
      .blank (by decide) <| .token (t := kwThen) (by decide) <| .blank (by decide) <|
      .token (t := lparen) (by decide) <| .token (t := litFalse) (by decide) <|
      .token (t := rparen) (by decide) <| .token (t := kwElse) (by decide) <|
      .blank (by decide) <| .token (t := litTrue) (by decide) .nil
  have ht : parse "if true then (false)else true" =
      .ok (.ite (.lit true) (.lit false) (.lit true)) :=
    parse_eq_ok_iff.2 ⟨_, _, hlexes.spells, .conditional .litTrue (.group .litFalse) .litTrue,
      by decide⟩
  have hspan : Consumed "if true then (false)else true" [.thenBranch] (.lit false) 13 20 :=
    ⟨_, _, _, _, [⟨lparen, 13, 14⟩, ⟨litFalse, 14, 19⟩, ⟨rparen, 19, 20⟩], _, _,
      tokenize_eq_ok_iff.2 ⟨_, hlexes, rfl⟩,
      .thenBranch rfl (Reads.litTrue rfl).expr_eq rfl (.itself _ _),
      (Reads.group rfl (.litFalse rfl) rfl).expr_eq, ⟨rfl, rfl, rfl⟩, rfl, rfl, rfl, rfl⟩
  have hspells := spells_flatMap_spelling (show endOfInput ∉
    [kwIf, litTrue, kwThen, litFalse, kwElse, litTrue] by decide)
  have hv : parse "iftruethenfalseelsetrue" = .ok (.ite (.lit true) (.lit false) (.lit true)) :=
    parse_eq_ok_iff.2 ⟨_, _, hspells, .conditional .litTrue .litFalse .litTrue, by decide⟩
  have hspells' : Spells "if true then iftruethenfalseelsetrueelse true"
      [kwIf, litTrue, kwThen, kwIf, litTrue, kwThen, litFalse, kwElse, litTrue, kwElse, litTrue] :=
    .token (t := kwIf) (by decide) <| .blank (by decide) <| .token (t := litTrue) (by decide) <|
      .blank (by decide) <| .token (t := kwThen) (by decide) <| .blank (by decide) <|
      hspells.append <| .token (t := kwElse) (by decide) <| .blank (by decide) <|
      .token (t := litTrue) (by decide) .nil
  have hshallow (l : Lexeme) : parse "if true then iftruethenfalseelsetrueelse true" ≠
      .error (.grammatical (.tooDeep l)) := by
    rw [parse_eq_ok_iff.2 ⟨_, _, hspells',
      .conditional .litTrue (.conditional .litTrue .litFalse .litTrue) .litTrue, by decide⟩]
    simp
  obtain ⟨-, hreplaced, -, value, hvalue, hsame⟩ := parse_replace ht hspan hv
  exact ⟨ht, hspan, hv, hreplaced hshallow, (hsame rfl).trans hvalue.symm⟩

end Conditional

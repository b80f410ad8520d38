import Conditional.Proofs.Continuation
import Conditional.Proofs.Spans

/-!
# Conditional.Proofs.Layout

Line breaks inside parentheses.  A source can be written on several lines if
each break is inside parentheses and inside no token (`Layout.Breaks`); what
stands at the ends of the lines, and on lines in between, is only whitespace.
Such lines are one statement in a file and one in the shell, and it denotes
what the source denotes (`layout_transparent`).

Two facts make this so.  Breaking a source between its tokens keeps the tokens
(`Layout.exists_spells`), and behind each line as many parentheses are open as
in front of the break in the source (`Layout.closes`).
-/

namespace Conditional

open LogicalLine

/-! ## Layouts -/

/-- A further line of a source, with whitespace around what it has of the
source and blank lines before it. -/
structure Continuation where
  blanks : List Text
  lead : Text
  piece : Text
  trail : Text
  blank_blanks : ∀ line ∈ blanks, line.Blank
  blank_lead : lead.Blank
  blank_trail : trail.Blank

/-- A source on several lines. -/
structure Layout where
  piece : Text
  trail : Text
  further : List Continuation
  blank_trail : trail.Blank
  further_ne_nil : further ≠ []

namespace Continuation

/-- The physical lines that a further line of a source takes up. -/
def lines (c : Continuation) : List Text := c.blanks ++ [c.lead ++ (c.piece ++ c.trail)]

/-- What stands in the source before each of the breaks, if the given text
stands before the first one. -/
def fronts (front : Text) : List Continuation → List Text
  | [] => []
  | c :: further => front :: fronts (front ++ c.piece) further

end Continuation

namespace Layout

/-- The source without the line breaks and the whitespace around them. -/
def source (l : Layout) : Text := l.piece ++ l.further.flatMap Continuation.piece

/-- The physical lines. -/
def lines (l : Layout) : List Text :=
  (l.piece ++ l.trail) :: l.further.flatMap Continuation.lines

/-- What stands in the source before each of the breaks. -/
def fronts (l : Layout) : List Text := Continuation.fronts l.piece l.further

/-- The source is broken inside parentheses and inside no lexeme. -/
def Breaks (l : Layout) (lexemes : List Lexeme) : Prop :=
  ∀ front ∈ l.fronts, isOpen front ∧
    ∀ x ∈ lexemes, ¬ (x.start < front.length ∧ front.length < x.stop)

end Layout

/-! ## Tokens of the lines -/

theorem SpellLines.blanks_append {blanks lines : List Text} {ts : List Token}
    (hblanks : ∀ line ∈ blanks, line.Blank) (h : SpellLines lines ts) :
    SpellLines (blanks ++ lines) ts := by
  induction blanks with
  | nil => exact h
  | cons line blanks ih =>
      have hnone : Spells (Text.trim line) [] := by
        rw [Text.trim_eq_nil_iff.2 (hblanks line List.mem_cons_self)]
        exact .nil
      exact .cons hnone (ih fun line' hmem => hblanks line' (List.mem_cons_of_mem _ hmem))

namespace Layout

/-- A text that is broken between its lexemes falls into the tokens of its
first line and those of the further lines. -/
theorem exists_spells_further (before : Text) {piece : Text} {further : List Continuation}
    {ls : List Lexeme}
    (h : Lexes before.length (piece ++ further.flatMap Continuation.piece) ls)
    (hcuts : ∀ front ∈ Continuation.fronts (before ++ piece) further,
      ∀ x ∈ ls, ¬ (x.start < front.length ∧ front.length < x.stop)) :
    ∃ us vs, tokensOf ls = us ++ vs ∧ Spells piece us ∧
      SpellLines (further.flatMap Continuation.lines) vs := by
  induction further generalizing before piece ls with
  | nil =>
      rw [List.flatMap_nil, List.append_nil] at h
      exact ⟨tokensOf ls, [], (List.append_nil _).symm, h.spells, .nil⟩
  | cons c further ih =>
      rw [Continuation.fronts, List.forall_mem_cons, List.length_append] at hcuts
      obtain ⟨hcut, hcuts⟩ := hcuts
      obtain ⟨ls₁, ls₂, rfl, hpiece, hrest⟩ := h.of_append hcut
      rw [← List.length_append] at hrest
      obtain ⟨us, vs, htokens, hc, hlines⟩ := ih _ hrest fun front hfront x hx =>
        hcuts front hfront x (List.mem_append_right _ hx)
      have hline : Spells (Text.trim (c.lead ++ (c.piece ++ c.trail))) us := by
        rw [Text.trim_pad c.blank_lead c.blank_trail]
        exact hc.trim
      have hmore := SpellLines.blanks_append c.blank_blanks (.cons hline hlines)
      rw [← htokens] at hmore
      refine ⟨tokensOf ls₁, tokensOf ls₂, tokensOf_append .., hpiece.spells, ?_⟩
      rw [List.flatMap_cons, Continuation.lines, List.append_assoc, List.singleton_append]
      exact hmore

/-- So the lines of a source, joined, have the tokens of the source. -/
theorem exists_spells {l : Layout} {lexemes : List Lexeme}
    (hlexemes : tokenize l.source = .ok lexemes) (hbreaks : l.Breaks lexemes) :
    ∃ ts, Spells l.source ts ∧
      Spells (joined (l.piece ++ l.trail) (l.further.flatMap Continuation.lines)) ts := by
  obtain ⟨ls, hls, rfl⟩ := tokenize_eq_ok_iff.1 hlexemes
  obtain ⟨us, vs, htokens, hpiece, hfurther⟩ := exists_spells_further [] hls
    fun front hfront x hx => (hbreaks front hfront).2 x (List.mem_append_left _ hx)
  have hfirst : Spells (Text.trimEnd (l.piece ++ l.trail)) us := by
    rw [Text.trimEnd_append l.blank_trail]
    exact hpiece.trimEnd
  refine ⟨tokensOf ls, hls.spells, ?_⟩
  rw [htokens]
  exact hfurther.foldl_continued hfirst

/-! ## Parentheses of the lines -/

theorem closes_blanks_append {excess : Int} {blanks lines : List Text} (hexcess : 0 < excess)
    (hblanks : ∀ line ∈ blanks, line.Blank) (h : Closes excess lines) :
    Closes excess (blanks ++ lines) := by
  induction blanks with
  | nil => exact h
  | cons line blanks ih =>
      have hline : excess + line.excess = excess := by
        rw [Text.excess_of_blank (hblanks line List.mem_cons_self), Int.add_zero]
      have hmore := ih fun line' hmem => hblanks line' (List.mem_cons_of_mem _ hmem)
      rw [List.cons_append]
      refine .more ?_ ?_
      · rwa [hline]
      · rwa [hline]

/-- The further lines close what is open in front of them. -/
theorem closes_further {front : Text} {further : List Continuation} (hfurther : further ≠ [])
    (hopen : ∀ t ∈ Continuation.fronts front further, 0 < t.excess)
    (hclosed : (front ++ further.flatMap Continuation.piece).excess = 0) :
    Closes front.excess (further.flatMap Continuation.lines) := by
  induction further generalizing front with
  | nil => contradiction
  | cons c further ih =>
      rw [Continuation.fronts, List.forall_mem_cons] at hopen
      obtain ⟨hpos, hopen⟩ := hopen
      have hline : front.excess + (c.lead ++ (c.piece ++ c.trail)).excess =
          (front ++ c.piece).excess := by
        rw [Text.excess_append, Text.excess_append, Text.excess_append,
          Text.excess_of_blank c.blank_lead, Text.excess_of_blank c.blank_trail]
        omega
      rw [List.flatMap_cons, ← List.append_assoc] at hclosed
      rw [List.flatMap_cons, Continuation.lines, List.append_assoc, List.singleton_append]
      refine closes_blanks_append hpos c.blank_blanks ?_
      cases further with
      | nil =>
          rw [List.flatMap_nil, List.append_nil] at hclosed
          exact .last (by omega)
      | cons c' further =>
          have hnext : 0 < (front ++ c.piece).excess := hopen _ List.mem_cons_self
          have hmore := ih (by simp) hopen hclosed
          refine .more ?_ ?_
          · rwa [hline]
          · rwa [hline]

/-- The lines of a source close what they open, and not before the last of
them. -/
theorem closes {l : Layout} {lexemes : List Lexeme} {t : Term} (ht : parse l.source = .ok t)
    (hbreaks : l.Breaks lexemes) : 0 < l.piece.excess ∧ Closes 0 l.lines := by
  have hopen : ∀ front ∈ l.fronts, 0 < front.excess := fun front hfront =>
    isOpen_iff.1 (hbreaks front hfront).1
  have hmore := closes_further l.further_ne_nil hopen (excess_of_parse ht)
  have hfirst : 0 < l.piece.excess := by
    obtain ⟨c, further, hfurther⟩ := List.exists_cons_of_ne_nil l.further_ne_nil
    refine hopen _ ?_
    rw [fronts, hfurther]
    exact List.mem_cons_self
  have hline : 0 + (l.piece ++ l.trail).excess = l.piece.excess := by
    rw [Text.excess_append, Text.excess_of_blank l.blank_trail]
    omega
  refine ⟨hfirst, .more ?_ ?_⟩
  · rwa [hline]
  · rwa [hline]

end Layout

/-! ## Transparency -/

/-- **Line breaks inside parentheses are transparent.**  A source that is
broken inside parentheses and between its tokens is one statement of a file,
numbered with its first line and denoting the same term, wherever in the file
it stands; and a shell with no unfinished statement takes it as one statement,
too, and answers it after its last line. -/
theorem layout_transparent {l : Layout} {lexemes : List Lexeme} {t : Term}
    (ht : parse l.source = .ok t) (hlexemes : tokenize l.source = .ok lexemes)
    (hbreaks : l.Breaks lexemes) :
    (∃ text, parse text = .ok t ∧ ∀ (statements : List LogicalLine) (number : Int)
      (rest : List Text),
      assembleFrom statements false number (l.lines ++ rest) =
        assembleFrom (statements ++ [⟨text, number⟩]) false (number + l.lines.length) rest) ∧
    ∀ s : Shell, s.Reached → s.pending = [] →
      ∃ d s', Session.Prints s.session.view t d ∧ s.Takes l.lines d s' ∧ s'.pending = [] ∧
        s'.session = s.session := by
  obtain ⟨hfirst, hcloses⟩ := Layout.closes ht hbreaks
  obtain ⟨ts, hsource, hjoined⟩ := Layout.exists_spells hlexemes hbreaks
  have hnotBlank : ¬ (l.piece ++ l.trail).Blank := by
    intro hblank
    have hexcess := Text.excess_of_blank fun c hc => hblank c (List.mem_append_left _ hc)
    rw [hexcess] at hfirst
    contradiction
  constructor
  · refine ⟨_, parse_of_spells ht hsource hjoined, fun statements number rest => ?_⟩
    exact assembleFrom_statement hnotBlank hcloses statements number rest
  · intro s hs hpending
    obtain ⟨view, pending, number, rfl⟩ := hs.exists_idle
    obtain rfl : pending = [] := hpending
    obtain ⟨d, hd⟩ := (native_of_parse ht).exists_prints view
    obtain ⟨number', htakes⟩ := Shell.exists_takes view [] hcloses
      (.inr (by simpa [Layout.lines] using hnotBlank)) .nil (SpellLines.of_joined hjoined) hsource
      ⟨t, ht, hd⟩ number
    exact ⟨_, _, hd, htakes, rfl, rfl⟩

/-- A literal in parentheses on three lines, with two blank lines between the
last two of them. -/
def spreadLiteral : Layout where
  piece := "("
  trail := " \t"
  further :=
    [{ blanks := [], lead := "\u3000", piece := "true", trail := []
       blank_blanks := by decide, blank_lead := by decide, blank_trail := by decide },
     { blanks := ["", " \x0b"], lead := "  ", piece := ")", trail := " "
       blank_blanks := by decide, blank_lead := by decide, blank_trail := by decide }]
  blank_trail := by decide
  further_ne_nil := by simp

theorem layout_transparent_spreadLiteral :
    parse spreadLiteral.source = .ok (.lit true) ∧
      tokenize spreadLiteral.source =
        .ok [⟨.lparen, 0, 1⟩, ⟨.litTrue, 1, 5⟩, ⟨.rparen, 5, 6⟩, .endAt 6] ∧
      spreadLiteral.Breaks [⟨.lparen, 0, 1⟩, ⟨.litTrue, 1, 5⟩, ⟨.rparen, 5, 6⟩, .endAt 6] ∧
      (∃ text, parse text = .ok (.lit true) ∧ assemble spreadLiteral.lines = .ok [⟨text, 1⟩]) ∧
      ∃ d s', Session.Prints ⟨true, true⟩ (.lit true) d ∧
        (Shell.start ⟨true, true⟩).Takes spreadLiteral.lines d s' ∧ s'.pending = [] ∧
        s'.session = (Shell.start ⟨true, true⟩).session := by
  have hlexes : Lexes 0 spreadLiteral.source
      [⟨.lparen, 0, 1⟩, ⟨.litTrue, 1, 5⟩, ⟨.rparen, 5, 6⟩] :=
    .token (t := .lparen) (by decide) <| .token (t := .litTrue) (by decide) <|
      .token (t := .rparen) (by decide) .nil
  have hlexemes : tokenize spreadLiteral.source =
      .ok [⟨.lparen, 0, 1⟩, ⟨.litTrue, 1, 5⟩, ⟨.rparen, 5, 6⟩, .endAt 6] :=
    tokenize_eq_ok_iff.2 ⟨_, hlexes, rfl⟩
  have ht : parse spreadLiteral.source = .ok (.lit true) := by
    rw [parse, hlexemes]
    rfl
  have hbreaks : spreadLiteral.Breaks
      [⟨.lparen, 0, 1⟩, ⟨.litTrue, 1, 5⟩, ⟨.rparen, 5, 6⟩, .endAt 6] := by
    unfold Layout.Breaks
    decide
  obtain ⟨⟨text, htext, hassemble⟩, hshell⟩ := layout_transparent ht hlexemes hbreaks
  have hlines := hassemble [] 1 []
  rw [List.append_nil] at hlines
  exact ⟨ht, hlexemes, hbreaks, ⟨text, htext, hlines⟩, hshell _ (.start ⟨true, true⟩) rfl⟩

end Conditional

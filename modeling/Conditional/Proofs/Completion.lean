import Conditional.Proofs.Depth
import Conditional.Proofs.Partition
import Conditional.Proofs.ShellInvariant
import Mathlib.Data.List.Infix

/-!
# Conditional.Proofs.Completion

A complete expression is never held back.  Whether a statement goes on is asked
of its characters, before anything is read in it, and whether it is an expression
is asked of its tokens.  The two agree, because an expression closes the
parentheses that it opens, and closes none that it has not opened
(`Opens.excessOf_nonneg`), and because the parentheses of a text are those of its
tokens, up to any place in it (`Spells.exists_prefix`).

So a statement that can be parsed is not open, and a statement that is not open
stays as it is: the lines of a file that come behind it begin statements of their
own (`LogicalLine.Announces.exists_takeAll_keeping`), and a shell answers it at
once and forgets its text.
-/

namespace Conditional

open Token LogicalLine

/-! ## Parentheses at the front of an expression -/

theorem excessOf_cons_of_ne {t : Token} (hopen : t ≠ lparen) (hclose : t ≠ rparen)
    (ts : List Token) : excessOf (t :: ts) = excessOf ts := by
  simp [excessOf, hopen, hclose]

/-- What begins an expression closes no parenthesis that it has not opened. -/
theorem Opens.excessOf_nonneg {ts : List Token} {k : Nat} (h : Opens ts k) : 0 ≤ excessOf ts := by
  have hif (ts : List Token) : excessOf (kwIf :: ts) = excessOf ts :=
    excessOf_cons_of_ne (by decide) (by decide) ts
  have hthen (ts : List Token) : excessOf (Token.kwThen :: ts) = excessOf ts :=
    excessOf_cons_of_ne (by decide) (by decide) ts
  have helse (ts : List Token) : excessOf (Token.kwElse :: ts) = excessOf ts :=
    excessOf_cons_of_ne (by decide) (by decide) ts
  have hopen (ts : List Token) : excessOf (lparen :: ts) = 1 + excessOf ts := excessOf_cons ..
  induction h with
  | start => exact Int.le_refl 0
  | condition _ ih => rwa [hif]
  | kwThen hu => exact Int.le_of_eq (by rw [hif, hu.excessOf_eq_zero])
  | thenBranch hu _ ih =>
      rwa [List.cons_append, hif, excessOf_append, hu.excessOf_eq_zero, hthen, Int.zero_add]
  | kwElse hu hv =>
      refine Int.le_of_eq ?_
      rw [List.cons_append, hif, excessOf_append, hu.excessOf_eq_zero, hthen, hv.excessOf_eq_zero,
        Int.zero_add]
  | elseBranch hu hv _ ih =>
      rwa [excessOf_append, List.cons_append, hif, excessOf_append, hu.excessOf_eq_zero, hthen,
        hv.excessOf_eq_zero, helse, Int.zero_add, Int.zero_add]
  | inner _ ih =>
      rw [hopen]
      omega
  | rparen hw =>
      rw [hopen, hw.excessOf_eq_zero]
      omega

theorem Derives.excessOf_nonneg {w ts : List Token} {t : Term} (h : Derives w t) (hts : ts <+: w) :
    0 ≤ excessOf ts := by
  obtain rfl | ⟨k, hopens⟩ := h.opens_of_prefix hts
  · exact Int.le_of_eq h.excessOf_eq_zero.symm
  · exact hopens.excessOf_nonneg

/-- A spelling that is broken off has no parentheses. -/
theorem Token.excess_of_prefix {t : Token} {front : Text} (h : front <+: t.spelling) :
    front = t.spelling ∨ front.excess = 0 := by
  have hall : ∀ front ∈ t.spelling.inits, front = t.spelling ∨ Text.excess front = 0 := by
    cases t <;> decide
  exact hall front ((List.mem_inits ..).2 h)

/-- Up to any place in a text, the parentheses are those of the tokens that end
before it. -/
theorem Spells.exists_prefix {s front : Text} {ts : List Token} (h : Spells s ts)
    (hfront : front <+: s) : ∃ us, us <+: ts ∧ front.excess = excessOf us := by
  induction h generalizing front with
  | nil =>
      obtain rfl := List.prefix_nil.1 hfront
      exact ⟨[], List.prefix_rfl, rfl⟩
  | @blank c s ts hc _ ih =>
      obtain rfl | ⟨rest, rfl, hrest⟩ := List.prefix_cons_iff.1 hfront
      · exact ⟨[], List.nil_prefix, rfl⟩
      · obtain ⟨us, hus, hexcess⟩ := ih hrest
        have hblank : Text.Blank [c] := by simpa [Text.Blank] using Text.isSpace_of_isBlank hc
        refine ⟨us, hus, ?_⟩
        rw [← List.singleton_append, Text.excess_append, Text.excess_of_blank hblank, hexcess,
          Int.zero_add]
  | @token t s ts ht _ ih =>
      have hwhole : t.spelling.excess = excessOf [t] := (Spells.single ht).excess_eq
      obtain hbroken | ⟨rest, rfl⟩ :=
        List.prefix_or_prefix_of_prefix hfront (List.prefix_append t.spelling s)
      · obtain rfl | hnone := excess_of_prefix hbroken
        · exact ⟨[t], by simp, hwhole⟩
        · exact ⟨[], List.nil_prefix, hnone⟩
      · obtain ⟨us, hus, hexcess⟩ := ih ((List.prefix_append_right_inj _).1 hfront)
        refine ⟨t :: us, by simpa using hus, ?_⟩
        rw [Text.excess_append, hwhole, hexcess, ← excessOf_cons]

/-- Up to any place in it, a source that denotes a term closes no parenthesis that
it has not opened. -/
theorem excess_nonneg_of_parse {source front : Text} {t : Term} (h : parse source = .ok t)
    (hfront : front <+: source) : 0 ≤ front.excess := by
  obtain ⟨w, k, hspells, hnests, -⟩ := parse_eq_ok_iff.1 h
  obtain ⟨us, hus, hexcess⟩ := hspells.exists_prefix hfront
  rw [hexcess]
  exact hnests.derives.excessOf_nonneg hus

/-- A text that has to go on is no expression. -/
theorem parse_ne_of_isOpen {s : Text} (h : isOpen s = true) (t : Term) : parse s ≠ .ok t := by
  intro ht
  rw [isOpen_eq_false_of_parse ht] at h
  contradiction

theorem isOpen_trimEnd (s : Text) : isOpen (Text.trimEnd s) = isOpen s := by
  rw [Bool.eq_iff_iff, isOpen_iff, isOpen_iff, Text.excess_trimEnd]

/-! ## Statements of a file that are complete -/

namespace LogicalLine

variable {statements : List LogicalLine} {goesOn : Bool}

/-- The statements that are not open stand where they stood. -/
def Keeps (statements statements' : List LogicalLine) : Prop :=
  ∀ (i : Nat) (s : LogicalLine),
    statements[i]? = some s → isOpen s.text = false → statements'[i]? = some s

theorem keeps_self (statements : List LogicalLine) : Keeps statements statements :=
  fun _ _ hs _ => hs

theorem keeps_append (statements more : List LogicalLine) :
    Keeps statements (statements ++ more) := by
  intro i s hs _
  rw [List.getElem?_append_left (List.getElem?_eq_some_iff.1 hs).1, hs]

/-- A line that is taken in changes no statement that is not open. -/
theorem Announces.exists_take_keeping (h : Announces goesOn statements) (line : Text)
    (number : Int) :
    ∃ statements' text, take statements goesOn line number = .ok (statements', text) ∧
      Announces (isOpen text) statements' ∧ Keeps statements statements' := by
  cases goesOn with
  | true =>
      obtain ⟨last, hlast, hopen⟩ := h.1 rfl
      obtain ⟨before, rfl⟩ := List.getLast?_eq_some_iff.1 hlast
      refine ⟨_, _, take_continued before last line number, announces_concat .., ?_⟩
      intro i s hs hclosed
      obtain hlt | hge := Nat.lt_or_ge i before.length
      · rw [List.getElem?_append_left hlt] at hs
        exact keeps_append before _ i s hs hclosed
      · -- the line is joined to the last statement, and that one is open
        rw [List.getElem?_append_right hge] at hs
        obtain rfl := List.mem_singleton.1 (List.mem_of_getElem? hs)
        rw [hopen] at hclosed
        contradiction
  | false =>
      by_cases hblank : line.Blank
      · exact ⟨statements, [], take_blank hblank statements number, h, keeps_self _⟩
      · exact ⟨_, _, take_first hblank statements number, announces_concat ..,
          keeps_append statements _⟩

/-- Neither do any number of lines. -/
theorem Announces.exists_takeAll_keeping (h : Announces goesOn statements) (number : Int)
    (lines : List Text) :
    ∃ statements' goesOn', takeAll statements goesOn number lines = .ok (statements', goesOn') ∧
      Announces goesOn' statements' ∧ Keeps statements statements' := by
  induction lines generalizing statements goesOn number with
  | nil => exact ⟨statements, goesOn, rfl, h, keeps_self _⟩
  | cons line lines ih =>
      obtain ⟨taken, text, htake, htaken, hfirst⟩ := h.exists_take_keeping line number
      obtain ⟨statements', goesOn', hrest, hstatements', hlater⟩ := ih htaken (number + 1)
      refine ⟨statements', goesOn', ?_, hstatements', fun i s hs hclosed => ?_⟩
      · rw [takeAll, htake]
        exact hrest
      · exact hlater i s (hfirst i s hs hclosed) hclosed

/-- Lines are taken in one after another. -/
theorem takeAll_append {lines : List Text} {number : Int} {taken : List LogicalLine × Bool}
    (h : takeAll statements goesOn number lines = .ok taken) (more : List Text) :
    takeAll statements goesOn number (lines ++ more) =
      takeAll taken.1 taken.2 (number + lines.length) more := by
  induction lines generalizing statements goesOn number with
  | nil =>
      obtain rfl := Except.ok.inj h
      rw [List.nil_append, List.length_nil, Int.natCast_zero, Int.add_zero]
  | cons line lines ih =>
      rw [List.cons_append, takeAll]
      rw [takeAll] at h
      cases htake : take statements goesOn line number with
      | error f =>
          rw [htake] at h
          contradiction
      | ok first =>
          rw [htake] at h
          have hrest := ih h
          rw [Int.add_assoc, Int.add_comm 1, ← Int.natCast_succ] at hrest
          exact hrest

/-- The lines of a file that come behind some lines change no statement of these
that is not open. -/
theorem exists_assemble_append {lines : List Text} (h : assemble lines = .ok statements)
    (more : List Text) :
    ∃ statements', assemble (lines ++ more) = .ok statements' ∧ Keeps statements statements' := by
  have hnone : Announces false [] := by simp [Announces]
  obtain ⟨found, goesOn, htake, hannounces⟩ := hnone.exists_takeAll 1 lines
  rw [assemble, ← map_fst_takeAll, htake] at h
  obtain rfl : found = statements := Except.ok.inj h
  obtain ⟨statements', goesOn', hmore, -, hkeeps⟩ :=
    hannounces.exists_takeAll_keeping (1 + lines.length) more
  refine ⟨statements', ?_, hkeeps⟩
  rw [assemble, ← map_fst_takeAll, takeAll_append htake, hmore]
  rfl

end LogicalLine

/-! ## Complete expressions -/

open Shell in
/-- **A complete expression is never held back.**  A source that denotes a term has
as many opening as closing parentheses, and at its front nowhere more closing ones.
So a line that asks for another one is no expression by itself.  In a file, once
the text that lines have been joined to is an expression, it is left as it is,
whatever lines follow.  A shell keeps no text that is an expression: it answers
such a text at once, and the next line stands alone. -/
theorem complete_not_held_back :
    (∀ source t, parse source = .ok t →
      source.count '(' = source.count ')' ∧
        ∀ front, front <+: source → front.count ')' ≤ front.count '(') ∧
    (∀ statements line number statements' text,
      take statements false line number = .ok (statements', text) → isOpen text = true →
        ∀ t, parse line ≠ .ok t ∧ parse text ≠ .ok t) ∧
    (∀ (lines : List Text) (statements : List LogicalLine) (i : Nat) (s : LogicalLine) (t : Term),
      assemble lines = .ok statements → statements[i]? = some s →
      parse s.text = .ok t → ∀ more, ∃ statements',
        assemble (lines ++ more) = .ok statements' ∧ statements'[i]? = some s) ∧
    ∀ view calls line, let s := (Shell.start view).after calls
      (∀ t, parse s.pending ≠ .ok t) ∧
      (s.pending = [] → ((perform (.statement line)).run s).state.pending ≠ [] →
        ∀ t, parse line ≠ .ok t) ∧
      ∀ t, parse (s.joined line) = .ok t → ∃ d s',
        (perform (.statement line)).run s = ⟨s', d, .ok .proceed⟩ ∧
        Session.Prints s.session.view t d ∧ s'.pending = [] ∧ s'.prompt = "> " ∧
        ∀ next, s'.joined next = Text.trimEnd next := by
  refine ⟨fun source t ht => ⟨?_, fun front hfront => ?_⟩, ?_, ?_, ?_⟩
  · have hexcess := excess_of_parse ht
    rw [Text.excess] at hexcess
    omega
  · have hexcess := excess_nonneg_of_parse ht hfront
    rw [Text.excess] at hexcess
    omega
  · intro statements line number statements' text htake hopen t
    obtain rfl : Text.trimEnd line = text := by
      rw [take, if_neg Bool.false_ne_true] at htake
      split at htake <;> exact congrArg Prod.snd (Except.ok.inj htake)
    refine ⟨parse_ne_of_isOpen ?_ t, parse_ne_of_isOpen hopen t⟩
    rwa [← isOpen_trimEnd]
  · intro lines statements i s t hassemble hs ht more
    obtain ⟨statements', hmore, hkeeps⟩ := exists_assemble_append hassemble more
    exact ⟨statements', hmore, hkeeps i s hs (isOpen_eq_false_of_parse ht)⟩
  · intro view calls line
    obtain ⟨view', pending, hs, hpending, -⟩ := (waits_start view).after calls
    generalize 0 + calls.countP Call.isStatement = number at hs
    rw [hs]
    refine ⟨fun t ht => ?_, fun hnil hkept t ht => hkept ?_, fun t ht => ?_⟩
    · by_cases hnil : pending = []
      · exact ne_nil_of_parse ht hnil
      · exact parse_ne_of_isOpen (hpending hnil) t ht
    · obtain rfl : pending = [] := hnil
      obtain ⟨ts, hspells⟩ := exists_spells_of_parse ht
      obtain ⟨d, hd⟩ := (native_of_parse ht).exists_prints view'
      have htrimmed : parse (withLine [] line) = .ok t :=
        parse_of_spells ht hspells hspells.trimEnd
      rw [run_statement number (.answers ⟨t, htrimmed, hd⟩)]
      rfl
    · obtain ⟨d, hd⟩ := (native_of_parse ht).exists_prints view'
      exact ⟨d, _, run_statement number (.answers ⟨t, ht, hd⟩), hd, rfl, rfl, fun _ => rfl⟩

/-- A literal in parentheses on two lines, and then in a shell, with a line behind
it that is not for it. -/
theorem complete_not_held_back_twoLines :
    parse "(true )" = .ok (.lit true) ∧
      (∀ front, front <+: Text.lit "(true )" → front.count ')' ≤ front.count '(') ∧
      take [] false "(true\t" 1 = .ok ([⟨"(true", 1⟩], "(true") ∧ isOpen "(true" = true ∧
      (∀ t, parse "(true\t" ≠ .ok t) ∧
      assemble ["(true\t", " )"] = .ok [⟨"(true )", 1⟩] ∧
      (∃ statements', assemble (["(true\t", " )"] ++ [")", "false"]) = .ok statements' ∧
        statements'[0]? = some ⟨"(true )", 1⟩) ∧
      ((Shell.start ⟨false, false⟩).after [.line "(true\t"]).pending = "(true" ∧
      ∃ d s', (Shell.perform (.statement ")")).run
          ((Shell.start ⟨false, false⟩).after [.line "(true\t"]) = ⟨s', d, .ok .proceed⟩ ∧
        Session.Prints ⟨false, false⟩ (.lit true) d ∧ s'.pending = [] := by
  have hspells : Spells "(true )" [lparen, litTrue, rparen] :=
    .token (t := lparen) (by decide) <| .token (t := litTrue) (by decide) <|
      .blank rfl <| .token (t := rparen) (by decide) .nil
  have hparse : parse "(true )" = .ok (.lit true) :=
    parse_eq_ok_iff.2 ⟨_, _, hspells, .group .litTrue, by decide⟩
  have htake : take [] false "(true\t" 1 = .ok ([⟨"(true", 1⟩], "(true") := by decide
  have hassemble : assemble ["(true\t", " )"] = .ok [⟨"(true )", 1⟩] := by decide
  obtain ⟨hsource, hline, hfile, hshell⟩ := complete_not_held_back
  obtain ⟨-, -, hanswer⟩ := hshell ⟨false, false⟩ [.line "(true\t"] ")"
  obtain ⟨d, s', hrun, hprints, hpending, -⟩ := hanswer (.lit true) hparse
  exact ⟨hparse, (hsource _ _ hparse).2, htake, by decide,
    fun t => (hline _ _ _ _ _ htake (by decide) t).1, hassemble,
    hfile _ _ 0 _ _ hassemble rfl hparse _, by decide, d, s', hrun, hprints, hpending⟩

end Conditional

import Conditional.Proofs.Conversation

/-!
# Conditional.Proofs.Commands

Which lines are commands, and that no line of a statement is mistaken for one.

A line that is not blank is a command if its word is one of five
(`Command.ofLine_eq_statement_iff`).  The word is cut off by its characters,
without regard to tokens: from `iftrue then` it is `iftrue`.  But a token is
either made of word characters throughout or begins with another character, so
the word of a text that spells tokens never ends within a token
(`Spells.exists_word`), and it spells tokens itself.  No command word does,
since at none of them a token begins.  Hence the shell takes in every line that
can be scanned as the line of a statement (`Shell.expression_not_captured`).

Two commands end the shell, and only their words make them
(`Command.leaves_iff`).
-/

namespace Conditional

open Token

/-- What cannot be read spells no tokens. -/
theorem Spells.not_unreadable {s : Text} {ts : List Token} (h : Spells s ts) : ¬ Unreadable s := by
  rintro ⟨c, rest, hs, hc, hread⟩
  cases h with
  | nil => contradiction
  | blank hblank _ =>
      obtain ⟨rfl, -⟩ := List.cons.inj hs
      rw [hblank] at hc
      contradiction
  | token ht _ =>
      rw [Token.read?_spelling ht] at hread
      contradiction

namespace Command

/-! ## Command words -/

/-- The command word of a line.  A question mark stands for `help`. -/
def word (line : Text) : Text :=
  match Text.trim line with
  | '?' :: _ => "help"
  | trimmed => trimmed.takeWhile isWordChar

/-- The words that are commands. -/
def words : List Text := ["tree", "trace", "help", "EOF", "exit"]

theorem ofWord?_eq_none_iff {word argument : Text} :
    ofWord? word argument = none ↔ word ∉ words := by
  unfold ofWord?
  split_ifs <;> simp_all [words]

theorem ofWord?_ne_statement (word argument piece : Text) :
    ofWord? word argument ≠ some (.statement piece) := by
  unfold ofWord?
  split_ifs <;> simp

/-- No token begins where a command word stands. -/
theorem unreadable_of_mem_words {word : Text} (h : word ∈ words) : Unreadable word := by
  simp only [words, List.mem_cons, List.not_mem_nil, or_false] at h
  obtain rfl | rfl | rfl | rfl | rfl := h
  · exact ⟨'t', _, rfl, rfl, rfl⟩
  · exact ⟨'t', _, rfl, rfl, rfl⟩
  · exact ⟨'h', _, rfl, rfl, rfl⟩
  · exact ⟨'E', _, rfl, rfl, rfl⟩
  · exact ⟨'e', _, rfl, rfl, rfl⟩

theorem ofLine_of_blank {line : Text} (h : line.Blank) : ofLine line = .blank := by
  rw [ofLine, Text.trim_eq_nil_iff.2 h]

/-- Unless it is blank, a line is what its word makes of it, or the line of a
statement if the word is no command. -/
theorem exists_ofLine_eq {line : Text} (h : ¬ line.Blank) :
    ∃ argument, ofLine line =
      (ofWord? (word line) argument).getD (.statement (Text.trim line)) := by
  unfold ofLine word
  split
  · next hnil => exact absurd (Text.trim_eq_nil_iff.1 hnil) h
  · next htrim =>
      rw [htrim]
      exact ⟨[], rfl⟩
  · next hquestion =>
      split
      · next htrim => exact absurd htrim (hquestion _)
      · exact ⟨_, rfl⟩

/-- The lines of statements are the lines that are neither blank nor commands,
and they are taken whole. -/
theorem ofLine_eq_statement_iff {line piece : Text} :
    ofLine line = .statement piece ↔
      ¬ line.Blank ∧ word line ∉ words ∧ piece = Text.trim line := by
  by_cases hblank : line.Blank
  · simp [ofLine_of_blank hblank, hblank]
  · obtain ⟨argument, hline⟩ := exists_ofLine_eq hblank
    cases hcommand : ofWord? (word line) argument with
    | none =>
        rw [hcommand] at hline
        simp [hline, hblank, ofWord?_eq_none_iff.1 hcommand, eq_comm]
    | some command =>
        have hword : word line ∈ words := by
          by_contra hword
          rw [ofWord?_eq_none_iff.2 hword] at hcommand
          contradiction
        have hne : command ≠ .statement piece := by
          rintro rfl
          exact ofWord?_ne_statement _ _ _ hcommand
        rw [hcommand] at hline
        simp [hline, hword, hne]

/-! ## Words of texts that spell tokens -/

theorem isWordChar_eq_false_of_isBlank {c : Char} (h : Text.isBlank c) : isWordChar c = false := by
  obtain rfl | rfl : c = ' ' ∨ c = '\t' := by simpa [Text.isBlank] using h
  · decide
  · decide

/-- A spelling is part of a word as a whole, or not at all. -/
theorem takeWhile_spelling_append {t : Token} (ht : t ≠ Token.endOfInput) (s : Text) :
    (t.spelling ++ s).takeWhile isWordChar = [] ∨
      (t.spelling ++ s).takeWhile isWordChar = t.spelling ++ s.takeWhile isWordChar := by
  cases t with
  | endOfInput => exact absurd rfl ht
  | lparen | rparen => exact .inl rfl
  | _ => exact .inr (List.takeWhile_append_of_pos (List.all_eq_true.1 rfl))

end Command

namespace Spells

open Command

variable {s line : Text} {ts : List Token}

/-- The word of a text that spells tokens is made of the spellings of the first
of them. -/
theorem exists_word (h : Spells s ts) :
    ∃ us, us <+: ts ∧ s.takeWhile isWordChar = us.flatMap spelling := by
  induction h with
  | nil => exact ⟨[], List.nil_prefix, rfl⟩
  | blank hc _ _ =>
      have hstop := isWordChar_eq_false_of_isBlank hc
      exact ⟨[], List.nil_prefix, List.takeWhile_cons_of_neg (by simp [hstop])⟩
  | @token t s ts ht _ ih =>
      obtain ⟨us, hus, hword⟩ := ih
      obtain hstop | hgoesOn := takeWhile_spelling_append ht s
      · exact ⟨[], List.nil_prefix, hstop⟩
      · refine ⟨t :: us, List.cons_prefix_cons.2 ⟨rfl, hus⟩, ?_⟩
        rw [hgoesOn, hword, List.flatMap_cons]

/-- So it is no command. -/
theorem takeWhile_not_mem_words (h : Spells s ts) : s.takeWhile isWordChar ∉ words := by
  intro hmem
  obtain ⟨us, hus, hword⟩ := h.exists_word
  have hspells : Spells (us.flatMap spelling) us :=
    spells_flatMap_spelling fun hend => h.endOfInput_not_mem (hus.subset hend)
  rw [hword] at hmem
  exact hspells.not_unreadable (unreadable_of_mem_words hmem)

/-- Nor does such a text begin with one of the marks that stand for commands. -/
theorem ne_mark_of_mem_head? (h : Spells s ts) : ∀ c ∈ s.head?, c ≠ '?' ∧ c ≠ '!' := by
  have hquestion : '?' ∉ s := h.not_mem (by decide) fun t => by cases t <;> decide
  have hexclamation : '!' ∉ s := h.not_mem (by decide) fun t => by cases t <;> decide
  intro c hc
  have hmem := List.mem_of_mem_head? hc
  exact ⟨fun heq => hquestion (heq ▸ hmem), fun heq => hexclamation (heq ▸ hmem)⟩

theorem word_eq (h : Spells (Text.trim line) ts) :
    word line = (Text.trim line).takeWhile isWordChar := by
  unfold word
  split
  · next htrim =>
      have hmark := (h.ne_mark_of_mem_head? '?' (by rw [htrim]; rfl)).1
      contradiction
  · rfl

end Spells

/-- A line that spells tokens is the line of a statement. -/
theorem Command.ofLine_of_spells {line : Text} {ts : List Token} (h : Spells (Text.trim line) ts)
    (hline : ¬ line.Blank) : ofLine line = .statement (Text.trim line) := by
  refine ofLine_eq_statement_iff.2 ⟨hline, ?_, rfl⟩
  rw [h.word_eq]
  exact h.takeWhile_not_mem_words

/-! ## Leaving -/

namespace Command

/-- The line asks the shell to end. -/
def Leaves (line : Text) : Prop := word line = "exit" ∨ word line = "EOF"

instance : DecidablePred Leaves := fun line =>
  inferInstanceAs (Decidable (word line = "exit" ∨ word line = "EOF"))

theorem ofWord?_leaves_iff {word argument line : Text} :
    ((ofWord? word argument).getD (statement line) = exit ∨
      (ofWord? word argument).getD (statement line) = endOfInput) ↔
        word = "exit" ∨ word = "EOF" := by
  constructor
  · intro h
    unfold ofWord? at h
    split_ifs at h with htree htrace hhelp heof hexit
    · simp at h
    · simp at h
    · simp at h
    · exact .inr heof
    · exact .inl hexit
    · simp at h
  · rintro (rfl | rfl)
    · exact .inl rfl
    · exact .inr rfl

/-- A line asks the shell to end if it is one of the two commands for that. -/
theorem leaves_iff {line : Text} : Leaves line ↔ ofLine line = exit ∨ ofLine line = endOfInput := by
  by_cases hblank : line.Blank
  · rw [ofLine_of_blank hblank, Leaves, word, Text.trim_eq_nil_iff.2 hblank]
    decide
  · obtain ⟨argument, hline⟩ := exists_ofLine_eq hblank
    rw [hline]
    exact ofWord?_leaves_iff.symm

end Command

/-! ## Lines of statements in the shell -/

namespace Shell

open Command

theorem onLine_of_spells {line : Text} {ts : List Token} (h : Spells (Text.trim line) ts)
    (hline : ¬ line.Blank) : onLine line = perform (.statement (Text.trim line)) := by
  rw [onLine, Command.ofLine_of_spells h hline]

/-- A shell in use counts a line of a statement and responds to the text that the
line makes with the lines before it.  Then it goes on, and shows as much of a
result as before. -/
theorem Reached.exists_statement {s : Shell} (h : Reached s) (line : Text) :
    ∃ pending d, Responds s.session.view (withLine s.pending line) (s.lineNumber + 1 : Nat)
        pending d ∧
      (Shell.perform (.statement line)).run s =
        ⟨idle s.session.view pending (s.lineNumber + 1), d, .ok .proceed⟩ := by
  obtain ⟨view, pending, number, rfl⟩ := h.exists_idle
  obtain ⟨pending', d, hresponds⟩ :=
    exists_responds view (withLine pending line) (number + 1 : Nat)
  exact ⟨pending', d, hresponds, run_statement number hresponds⟩

/-- **No expression is taken for a command.**  A line that is not blank and can be
scanned is taken in as the line of a statement, whatever the state of the shell,
and the shell does nothing else with it.  The word at which a command would be
recognised is made of the spellings of the first tokens, and it is no command
word; nor does the line begin with a mark that stands for a command. -/
theorem expression_not_captured {line : Text} {lexemes : List Lexeme}
    (hline : Text.trim line ≠ []) (hscan : tokenize (Text.trim line) = .ok lexemes) :
    ofLine line = .statement (Text.trim line) ∧
    (∀ s : Shell, (onLine line).run s = (perform (.statement (Text.trim line))).run s) ∧
    (∀ s : Shell, Reached s → ∃ pending d,
      Responds s.session.view (withLine s.pending (Text.trim line)) (s.lineNumber + 1 : Nat)
        pending d ∧
      (onLine line).run s = ⟨idle s.session.view pending (s.lineNumber + 1), d, .ok .proceed⟩) ∧
    (∃ us, us <+: tokensOf lexemes ∧
      (Text.trim line).takeWhile isWordChar = us.flatMap spelling) ∧
    (Text.trim line).takeWhile isWordChar ∉ words ∧
    ∀ c ∈ (Text.trim line).head?, c ≠ '?' ∧ c ≠ '!' := by
  obtain ⟨ts, hspells, htokens⟩ := spells_of_tokenize hscan
  have hblank : ¬ line.Blank := fun hblank => hline (Text.trim_eq_nil_iff.2 hblank)
  have honLine := onLine_of_spells hspells hblank
  refine ⟨ofLine_of_spells hspells hblank, fun s => by rw [honLine], fun s hs => ?_, ?_,
    hspells.takeWhile_not_mem_words, hspells.ne_mark_of_mem_head?⟩
  · rw [honLine]
    exact hs.exists_statement _
  · obtain ⟨us, hus, hword⟩ := hspells.exists_word
    refine ⟨us, ?_, hword⟩
    rw [htokens]
    exact hus.trans (List.prefix_append ts [endOfInput])

/-- A line that begins like two commands, has no blank between its tokens, and is
padded with whitespace that no token sequence can have. -/
def gluedLine : Text := "\u3000truethenif(\x0b"

/-- A shell that waits for more of a statement. -/
def waiting : Shell := ((onLine "(if").run (start ⟨true, false⟩)).state

theorem expression_not_captured_pending :
    Text.trim gluedLine = "truethenif(" ∧
      tokenize (Text.trim gluedLine) =
        .ok [⟨litTrue, 0, 4⟩, ⟨kwThen, 4, 8⟩, ⟨kwIf, 8, 10⟩, ⟨lparen, 10, 11⟩, .endAt 11] ∧
      waiting = idle ⟨true, false⟩ "(if" 1 ∧
      (onLine gluedLine).run waiting = (perform (.statement "truethenif(")).run waiting ∧
      (∃ d, (onLine gluedLine).run waiting =
        ⟨idle ⟨true, false⟩ "(if truethenif(" 2, d, .ok .proceed⟩) ∧
      ("truethenif" : Text) ∉ words := by
  have htrim : Text.trim gluedLine = "truethenif(" := by decide
  have hlexes : Lexes 0 "truethenif("
      [⟨litTrue, 0, 4⟩, ⟨kwThen, 4, 8⟩, ⟨kwIf, 8, 10⟩, ⟨lparen, 10, 11⟩] :=
    .token (t := litTrue) (by decide) (.token (t := kwThen) (by decide)
      (.token (t := kwIf) (by decide) (.token (t := lparen) (by decide) .nil)))
  have hscan : tokenize (Text.trim gluedLine) = .ok _ :=
    tokenize_eq_ok_iff.2 ⟨_, htrim ▸ hlexes, rfl⟩
  have hpending : waiting = idle ⟨true, false⟩ "(if" 1 := by decide
  obtain ⟨-, hsame, hresponds, -, hword, -⟩ := expression_not_captured (by decide) hscan
  have hrun := hsame waiting
  obtain ⟨pending, d, -, hline⟩ := hresponds waiting (.perform _ (.start _))
  have hstate : ((onLine gluedLine).run waiting).state =
      idle ⟨true, false⟩ "(if truethenif(" 2 := by decide
  rw [hline] at hstate
  change idle _ pending _ = _ at hstate
  rw [hstate] at hline
  rw [htrim] at hscan hrun hword
  exact ⟨htrim, htrim ▸ hscan, hpending, hrun, ⟨d, hline⟩, hword⟩

end Shell

end Conditional

import Conditional.Problem

/-!
# Conditional.Proofs.Messages

Making the messages about a source text cannot fail.  The message of a
lexical error has a hole for each of its snippets.  The messages of the
parser are templates without holes, made of token labels and fixed words, in
which no brace occurs, so filling them gives back the template itself
(`Template.fill_plain`) and leaves the source out.  Braces do occur in escaped
text, and filling gives back the text (`Template.fill_escape`).  What a message
quotes is bold, and the rest of it is plain (`Template.face_of_fillPieces`).
-/

namespace Conditional

open Token

/-- A computation in two stages succeeds only if both of them do. -/
theorem exists_of_bind_eq_ok {ε α β : Type} {x : Except ε α} {f : α → Except ε β} {b : β}
    (h : x >>= f = .ok b) : ∃ a, x = .ok a ∧ f a = .ok b := by
  cases x with
  | error e => contradiction
  | ok a => exact ⟨a, rfl, h⟩

/-! ## Templates without braces -/

namespace Template

/-- The text has no braces. -/
def Plain (t : Text) : Prop := ∀ c ∈ t, c ≠ '{' ∧ c ≠ '}'

instance (t : Text) : Decidable (Plain t) :=
  List.decidableBAll (fun c => c ≠ '{' ∧ c ≠ '}') t

theorem Plain.append {t t' : Text} (h : Plain t) (h' : Plain t') : Plain (t ++ t') := by
  intro c hc
  obtain hc | hc := List.mem_append.1 hc
  · exact h c hc
  · exact h' c hc

theorem Plain.join {separator : Text} (h : Plain separator) {parts : List Text}
    (hparts : ∀ t ∈ parts, Plain t) : Plain (Text.join separator parts) := by
  induction parts with
  | nil => simp [Plain, Text.join]
  | cons t parts ih =>
      have ht := hparts t List.mem_cons_self
      have hjoin := ih fun t' ht' => hparts t' (List.mem_cons_of_mem t ht')
      cases parts with
      | nil => simpa [Text.join] using ht
      | cons t' parts =>
          rw [Text.join, List.intercalate_cons_cons]
          exact (ht.append h).append hjoin

/-- Outside braces, a template is read character by character. -/
theorem pieces_cons {c : Char} (hopen : c ≠ '{') (hclose : c ≠ '}') (rest : Text) :
    pieces (c :: rest) = .char c :: pieces rest := by
  rw [pieces, if_neg (by simp [hopen, hclose])] <;> simp_all

theorem text_consPlain (c : Char) (d : Doc) : Doc.text (consPlain c d) = c :: d.text := by
  match d with
  | [] => rfl
  | ⟨.plain, t⟩ :: d => rfl
  | ⟨.bold, t⟩ :: d => rfl
  | ⟨.error, t⟩ :: d => rfl
  | ⟨.warning, t⟩ :: d => rfl

/-- A template without braces is filled with nothing: the message is the
template. -/
theorem fill_plain {t : Text} (h : Plain t) (snippets : List Text) :
    ∃ d, fill t snippets = .ok d ∧ Doc.text d = t := by
  induction t with
  | nil => exact ⟨[], rfl, rfl⟩
  | cons c t ih =>
      obtain ⟨hopen, hclose⟩ := h c List.mem_cons_self
      obtain ⟨d, hd, htext⟩ := ih fun c' hc' => h c' (List.mem_cons_of_mem c hc')
      refine ⟨consPlain c d, ?_, by rw [text_consPlain, htext]⟩
      rw [fill] at hd
      rw [fill, pieces_cons hopen hclose, fillPieces, hd]
      rfl

/-! ## Escaped text -/

theorem escape_append (t t' : Text) : escape (t ++ t') = escape t ++ escape t' :=
  List.flatMap_append

/-- The units of escaped text are the characters of the text, whatever comes
behind it. -/
theorem pieces_escape_append (t rest : Text) :
    pieces (escape t ++ rest) = t.map .char ++ pieces rest := by
  induction t with
  | nil => rfl
  | cons c t ih =>
      have hescape : escape (c :: t) ++ rest =
          (if c = '{' ∨ c = '}' then [c, c] else [c]) ++ (escape t ++ rest) :=
        List.append_assoc ..
      rw [hescape, List.map_cons, List.cons_append, ← ih]
      by_cases hopen : c = '{'
      · subst hopen
        rfl
      · by_cases hclose : c = '}'
        · subst hclose
          rfl
        · rw [if_neg (by simp [hopen, hclose]), List.singleton_append, pieces_cons hopen hclose]

theorem pieces_escape (t : Text) : pieces (escape t) = t.map .char := by
  simpa [pieces] using pieces_escape_append t []

/-- Text that is escaped comes out of a template as it is. -/
theorem fill_escape {t : Text} (h : t ≠ []) (snippets : List Text) :
    fill (escape t) snippets = .ok (Doc.plain t) := by
  rw [fill, pieces_escape]
  induction t with
  | nil => contradiction
  | cons c t ih =>
      cases t with
      | nil => rfl
      | cons c' t =>
          rw [List.map_cons, fillPieces, ih (by simp)]
          rfl

/-! ## Emphasis in messages -/

theorem mem_consPlain {c : Char} {d : Doc} {span : Span} (h : span ∈ consPlain c d) :
    span.face = .plain ∨ span ∈ d := by
  unfold consPlain at h
  split at h
  · obtain rfl | hmem := List.mem_cons.1 h
    · exact .inl rfl
    · exact .inr (List.mem_cons_of_mem _ hmem)
  · obtain rfl | hmem := List.mem_cons.1 h
    · exact .inl rfl
    · exact .inr hmem

/-- The parts of a message are plain or, where the user is quoted, bold. -/
theorem face_of_fillPieces {used : Nat} {ps : List Piece} {snippets : List Text} {d : Doc}
    (h : fillPieces used ps snippets = .ok d) :
    ∀ span ∈ d, span.face = .plain ∨ span.face = .bold := by
  induction ps generalizing used snippets d with
  | nil =>
      obtain rfl := Except.ok.inj h
      simp
  | cons piece ps ih =>
      cases piece with
      | char c =>
          obtain ⟨d', hrest, hd⟩ := exists_of_bind_eq_ok h
          obtain rfl := Except.ok.inj hd
          intro span hspan
          obtain hplain | hmem := mem_consPlain hspan
          · exact .inl hplain
          · exact ih hrest span hmem
      | stray brace => contradiction
      | hole =>
          cases snippets with
          | nil => contradiction
          | cons snippet snippets =>
              obtain ⟨d', hrest, hd⟩ := exists_of_bind_eq_ok h
              obtain rfl := Except.ok.inj hd
              rw [List.forall_mem_cons]
              exact ⟨.inr rfl, ih hrest⟩

end Template

/-! ## Problems with a source text -/

/-- A notice announces a problem if its template can be filled and it has a
first snippet, which is what the problem is about. -/
theorem Notice.eq_of_problem {n : Notice} {cause : Cause} {p : Problem}
    (h : n.problem cause = .ok p) :
    ∃ message subject rest, Template.fill n.template n.snippets = .ok message ∧
      n.snippets = subject :: rest ∧
      p = { cause := cause
            message := message
            subject := subject
            start := n.start
            stop := if n.stop = -1 then subject.length else n.stop
            pointed := n.pointed
            internal := n.internal } := by
  obtain ⟨message, hfill, hrest⟩ := exists_of_bind_eq_ok h
  cases hsnippets : n.snippets with
  | nil =>
      rw [hsnippets] at hrest
      contradiction
  | cons subject rest =>
      rw [hsnippets] at hfill hrest
      exact ⟨message, subject, rest, hfill, rfl, (Except.ok.inj hrest).symm⟩

/-- A lexical error can always be reported. -/
theorem LexError.exists_problem (source : Text) (e : LexError) :
    ∃ p, e.problem source = .ok p := ⟨_, rfl⟩

theorem Token.plain_label (t : Token) : Template.Plain t.label := by
  cases t <;> decide

theorem Token.plain_describe (tokens : List Token) : Template.Plain (describe tokens) := by
  have hlabels : ∀ t ∈ (inOrder tokens).map label, Template.Plain t := by
    intro t ht
    obtain ⟨token, -, rfl⟩ := List.mem_map.1 ht
    exact token.plain_label
  have hlist : Template.Plain ("one of " ++ Text.join ", " ((inOrder tokens).map label)) := by
    exact .append (by decide) (.join (by decide) hlabels)
  rw [describe]
  split
  · exact Token.plain_label _
  · exact hlist

theorem Problem.plain_expectation (expected : List Token) (found : Token) :
    Template.Plain (expectation expected found) := by
  have hexpected : Template.Plain "expected " := by decide
  have hfound : Template.Plain ", found " := by decide
  exact ((hexpected.append (plain_describe _)).append hfound).append (plain_label _)

/-- The tokens that a grammatical error expects. -/
def ParseError.expected : ParseError → List Token
  | .unexpected expected _ => expected
  | .tooDeep _ => exprStart

/-- The lexeme at which a grammatical error was met. -/
def ParseError.found : ParseError → Lexeme
  | .unexpected _ found => found
  | .tooDeep found => found

/-- A grammatical error can always be reported, and the report carries the set
of the expected tokens, the token that was found and where that token
begins. -/
theorem ParseError.exists_problem (source : Text) (e : ParseError) :
    ∃ p, e.problem source = .ok p ∧
      p.cause = .unexpected (toSet e.expected) e.found.token e.found.start := by
  have hreport (expected : List Token) (found : Lexeme) (template : Option Text)
      (hplain : Template.Plain (template.getD (Problem.expectation expected found.token))) :
      ∃ p, found.problem source expected template = .ok p ∧
        p.cause = .unexpected (toSet expected) found.token found.start := by
    obtain ⟨d, hd, -⟩ := Template.fill_plain hplain [source]
    simp only [Lexeme.problem, Problem.unexpected, Notice.problem, hd]
    exact ⟨_, rfl, rfl⟩
  cases e with
  | unexpected expected found =>
      exact hreport expected found none (Problem.plain_expectation expected found.token)
  | tooDeep found =>
      have hplain : Template.Plain tooDeepMessage := by decide
      exact hreport exprStart found (some tooDeepMessage) hplain

end Conditional

import Conditional.Proofs.FileRun
import Conditional.Proofs.Tracebacks

/-!
# Conditional.Proofs.Decoding

What becomes of a file that is no text.  Which bytes are a text is a matter of
the bytes alone (`SourceFile.wellFormed_iff`): they fall into characters, and the
bytes of a character have one of nine forms, among which there is no form for a
second spelling, for a surrogate, or for a number beyond the last character.

The text of a file is read before any of it is used.  So a file that is no text is
refused for this reason, whatever else is wrong with it, and the session is left
as it was when it was started (`Session.undecodable_refused`).  No other refusal
can be taken for this one, because a message about a statement begins or ends in
another way (`SourceError.text_message_ne`).
-/

namespace Conditional

namespace SourceFile

/-! ## Well-formed bytes -/

/-- The first and the last of a range of bytes. -/
abbrev ByteRange := Nat × Nat

/-- The byte is in the range. -/
abbrev InRange (byte : UInt8) (range : ByteRange) : Prop :=
  range.1 ≤ byte.toNat ∧ byte.toNat ≤ range.2

/-- The range of the bytes that do not begin a character. -/
def continuation : ByteRange := (0x80, 0xBF)

/-- The forms that the bytes of a character can have.  The ranges of some second
bytes are smaller than others: the bytes that they leave out after E0 and F0 would
spell a character a second time, and those after ED and F4 would spell a surrogate
and a number beyond the last character. -/
def characterForms : List (List ByteRange) :=
  [ [(0x00, 0x7F)],
    [(0xC2, 0xDF), continuation],
    [(0xE0, 0xE0), (0xA0, 0xBF), continuation],
    [(0xE1, 0xEC), continuation, continuation],
    [(0xED, 0xED), (0x80, 0x9F), continuation],
    [(0xEE, 0xEF), continuation, continuation],
    [(0xF0, 0xF0), (0x90, 0xBF), continuation, continuation],
    [(0xF1, 0xF3), continuation, continuation, continuation],
    [(0xF4, 0xF4), (0x80, 0x8F), continuation, continuation] ]

/-- The bytes have a form that the bytes of a character can have. -/
def IsCharacter (bytes : List UInt8) : Prop :=
  ∃ form ∈ characterForms, List.Forall₂ InRange bytes form

/-- The bytes fall into characters. -/
inductive WellFormed : List UInt8 → Prop where
  | nil : WellFormed []
  | cons {character rest : List UInt8} (h : IsCharacter character) (hrest : WellFormed rest) :
      WellFormed (character ++ rest)

/-- The form of the bytes of a character depends on the range of its number. -/
theorem isCharacter_utf8EncodeChar (c : Char) : IsCharacter (String.utf8EncodeChar c) := by
  have hvalid : c.val.toNat < 0xD800 ∨ 0xDFFF < c.val.toNat ∧ c.val.toNat < 0x110000 := c.valid
  generalize hv : c.val.toNat = v at hvalid
  simp only [String.utf8EncodeChar, hv, IsCharacter, characterForms, continuation]
  -- The number of bytes leaves a choice between forms, and the range of `v` makes it.
  split_ifs
  all_goals
    simp [InRange]
    omega

theorem ofNat_eq {n : Nat} (byte : UInt8) (h : n = byte.toNat) : UInt8.ofNat n = byte := by
  rw [h, UInt8.ofNat_toNat]

theorem exists_char {n : Nat} (h : n < 0xD800 ∨ 0xDFFF < n ∧ n < 0x110000) :
    ∃ c : Char, c.val.toNat = n := ⟨Char.ofNatAux n h, rfl⟩

section

variable {a b c d : UInt8}

/-- Bytes of a form of length one are the encoding of a character. -/
theorem exists_utf8EncodeChar_one (ha : InRange a (0x00, 0x7F)) :
    ∃ char, String.utf8EncodeChar char = [a] := by
  obtain ⟨char, hchar⟩ := exists_char (n := a.toNat) (by omega)
  refine ⟨char, ?_⟩
  simp only [String.utf8EncodeChar, hchar]
  rw [if_pos ha.2, ofNat_eq a rfl]

/-- So are those of length two. -/
theorem exists_utf8EncodeChar_two (ha : InRange a (0xC2, 0xDF)) (hb : InRange b (0x80, 0xBF)) :
    ∃ char, String.utf8EncodeChar char = [a, b] := by
  obtain ⟨char, hchar⟩ := exists_char
    (n := (a.toNat - 0xC0) * 64 + (b.toNat - 0x80)) (by omega)
  refine ⟨char, ?_⟩
  simp only [String.utf8EncodeChar]
  rw [if_neg (by omega), if_pos (by omega), ofNat_eq a (by omega), ofNat_eq b (by omega)]

/-- Of three bytes, the first two say whether there is a shorter encoding and
whether the number is that of a surrogate. -/
theorem exists_utf8EncodeChar_three (ha : InRange a (0xE0, 0xEF)) (hb : InRange b (0x80, 0xBF))
    (hc : InRange c (0x80, 0xBF)) (hlong : a.toNat = 0xE0 → 0xA0 ≤ b.toNat)
    (hscalar : a.toNat = 0xED → b.toNat ≤ 0x9F) :
    ∃ char, String.utf8EncodeChar char = [a, b, c] := by
  obtain ⟨char, hchar⟩ := exists_char
    (n := (a.toNat - 0xE0) * 4096 + (b.toNat - 0x80) * 64 + (c.toNat - 0x80)) (by omega)
  refine ⟨char, ?_⟩
  simp only [String.utf8EncodeChar]
  rw [if_neg (by omega), if_neg (by omega), if_pos (by omega), ofNat_eq a (by omega),
    ofNat_eq b (by omega), ofNat_eq c (by omega)]

/-- Of four bytes, the first two say whether there is a shorter encoding and
whether there is a character with so large a number. -/
theorem exists_utf8EncodeChar_four (ha : InRange a (0xF0, 0xF4)) (hb : InRange b (0x80, 0xBF))
    (hc : InRange c (0x80, 0xBF)) (hd : InRange d (0x80, 0xBF))
    (hlong : a.toNat = 0xF0 → 0x90 ≤ b.toNat) (hlast : a.toNat = 0xF4 → b.toNat ≤ 0x8F) :
    ∃ char, String.utf8EncodeChar char = [a, b, c, d] := by
  obtain ⟨char, hchar⟩ := exists_char
    (n := (a.toNat - 0xF0) * 262144 + (b.toNat - 0x80) * 4096 + (c.toNat - 0x80) * 64 +
      (d.toNat - 0x80)) (by omega)
  refine ⟨char, ?_⟩
  simp only [String.utf8EncodeChar]
  rw [if_neg (by omega), if_neg (by omega), if_neg (by omega), ofNat_eq a (by omega),
    ofNat_eq b (by omega), ofNat_eq c (by omega), ofNat_eq d (by omega)]

end

/-- Bytes of each form are the encoding of a character. -/
theorem IsCharacter.exists_utf8EncodeChar {bytes : List UInt8} (h : IsCharacter bytes) :
    ∃ c, String.utf8EncodeChar c = bytes := by
  obtain ⟨form, hform, hbytes⟩ := h
  simp only [characterForms, continuation, List.mem_cons, List.not_mem_nil, or_false] at hform
  obtain rfl | rfl | rfl | rfl | rfl | rfl | rfl | rfl | rfl := hform
  all_goals simp only [List.forall₂_cons_right_iff, List.forall₂_nil_right_iff] at hbytes
  · obtain ⟨a, _, ha, rfl, rfl⟩ := hbytes
    exact exists_utf8EncodeChar_one ha
  · obtain ⟨a, _, ha, ⟨b, _, hb, rfl, rfl⟩, rfl⟩ := hbytes
    exact exists_utf8EncodeChar_two ha hb
  · obtain ⟨a, _, ha, ⟨b, _, hb, ⟨c, _, hc, rfl, rfl⟩, rfl⟩, rfl⟩ := hbytes
    exact exists_utf8EncodeChar_three (by omega) (by omega) hc (by omega) (by omega)
  · obtain ⟨a, _, ha, ⟨b, _, hb, ⟨c, _, hc, rfl, rfl⟩, rfl⟩, rfl⟩ := hbytes
    exact exists_utf8EncodeChar_three (by omega) (by omega) hc (by omega) (by omega)
  · obtain ⟨a, _, ha, ⟨b, _, hb, ⟨c, _, hc, rfl, rfl⟩, rfl⟩, rfl⟩ := hbytes
    exact exists_utf8EncodeChar_three (by omega) (by omega) hc (by omega) (by omega)
  · obtain ⟨a, _, ha, ⟨b, _, hb, ⟨c, _, hc, rfl, rfl⟩, rfl⟩, rfl⟩ := hbytes
    exact exists_utf8EncodeChar_three (by omega) (by omega) hc (by omega) (by omega)
  · obtain ⟨a, _, ha, ⟨b, _, hb, ⟨c, _, hc, ⟨d, _, hd, rfl, rfl⟩, rfl⟩, rfl⟩, rfl⟩ := hbytes
    exact exists_utf8EncodeChar_four (by omega) (by omega) hc hd (by omega) (by omega)
  · obtain ⟨a, _, ha, ⟨b, _, hb, ⟨c, _, hc, ⟨d, _, hd, rfl, rfl⟩, rfl⟩, rfl⟩, rfl⟩ := hbytes
    exact exists_utf8EncodeChar_four (by omega) (by omega) hc hd (by omega) (by omega)
  · obtain ⟨a, _, ha, ⟨b, _, hb, ⟨c, _, hc, ⟨d, _, hd, rfl, rfl⟩, rfl⟩, rfl⟩, rfl⟩ := hbytes
    exact exists_utf8EncodeChar_four (by omega) (by omega) hc hd (by omega) (by omega)

/-- The bytes of a text are exactly those that fall into characters. -/
theorem wellFormed_iff {bytes : List UInt8} : WellFormed bytes ↔ ∃ t : Text, bytes = encode t := by
  constructor
  · intro h
    induction h with
    | nil => exact ⟨[], rfl⟩
    | cons hcharacter _ ih =>
        obtain ⟨c, rfl⟩ := hcharacter.exists_utf8EncodeChar
        obtain ⟨t, rfl⟩ := ih
        exact ⟨c :: t, rfl⟩
  · rintro ⟨t, rfl⟩
    induction t with
    | nil => exact .nil
    | cons c t ih => exact .cons (isCharacter_utf8EncodeChar c) ih

/-- The beginning of a text does not matter to whether the rest is one. -/
theorem exists_encode_append_iff {t : Text} {rest : List UInt8} :
    (∃ t', encode t ++ rest = encode t') ↔ ∃ t', rest = encode t' := by
  constructor
  · rintro ⟨t', h⟩
    induction t generalizing t' with
    | nil => exact ⟨t', h⟩
    | cons c t ih =>
        have hbytes : encode (c :: t) ++ rest = String.utf8EncodeChar c ++ (encode t ++ rest) :=
          List.append_assoc ..
        have hdecode : (encode t').toByteArray.utf8DecodeChar? 0 = some c := by
          rw [← h, hbytes, List.toByteArray_append]
          exact ByteArray.utf8DecodeChar?_utf8EncodeChar_append
        cases t' with
        | nil =>
            have hnone : (encode []).toByteArray.utf8DecodeChar? 0 = none := by decide
            rw [hnone] at hdecode
            contradiction
        | cons c' t' =>
            obtain rfl : c' = c := by
              rw [utf8DecodeChar?_encode] at hdecode
              exact Option.some.inj hdecode
            exact ih t' (List.append_cancel_left (hbytes.symm.trans h))
  · rintro ⟨t', rfl⟩
    exact ⟨t ++ t', by simp [encode]⟩

/-! ## Bytes that cannot be read -/

/-- The bytes after a byte order mark, if there is one in front of them. -/
def withoutMark (bytes : List UInt8) : List UInt8 :=
  if byteOrderMark <+: bytes then bytes.drop byteOrderMark.length else bytes

theorem dropMark_eq_withoutMark {bytes : List UInt8} (hone : bytes ≠ [0xEF])
    (htwo : bytes ≠ [0xEF, 0xBB]) : dropMark bytes = withoutMark bytes := by
  unfold dropMark
  split
  · contradiction
  · contradiction
  · exact (if_pos ⟨_, rfl⟩).symm
  · next hmark =>
      refine (if_neg ?_).symm
      rintro ⟨rest, rfl⟩
      exact hmark rest rfl

/-- Valid bytes are those of some text. -/
theorem isValidUTF8_iff {bytes : List UInt8} :
    bytes.toByteArray.IsValidUTF8 ↔ ∃ t : Text, bytes = encode t := by
  constructor
  · rintro ⟨t, ht⟩
    have hdata := congrArg (fun b => b.data.toList) ht
    exact ⟨t, by simpa [List.utf8Encode, encode] using hdata⟩
  · rintro ⟨t, ht⟩
    exact ⟨t, congrArg List.toByteArray ht⟩

/-- Bytes cannot be read exactly if they are no text, apart from the two that
break off within a byte order mark. -/
theorem decode_eq_none_iff {bytes : List UInt8} :
    decode bytes = none ↔ bytes ≠ [0xEF] ∧ bytes ≠ [0xEF, 0xBB] ∧
      ¬ ∃ t : Text, withoutMark bytes = encode t := by
  have hnone : decode bytes = none ↔ ¬ ∃ t : Text, dropMark bytes = encode t := by
    rw [← isValidUTF8_iff, decode, Option.map_eq_none_iff, String.fromUTF8?]
    split_ifs with h <;> simp [h]
  by_cases hone : bytes = [0xEF]
  · subst hone
    exact iff_of_false (by decide) (by simp)
  by_cases htwo : bytes = [0xEF, 0xBB]
  · subst htwo
    exact iff_of_false (by decide) (by simp)
  rw [hnone, dropMark_eq_withoutMark hone htwo]
  simp [hone, htwo]

end SourceFile

/-! ## Other mistakes -/

/-- A template without braces is the message. -/
theorem Notice.text_message {n : Notice} {cause : Cause} {p : Problem}
    (hplain : Template.Plain n.template) (h : n.problem cause = .ok p) :
    p.message.text = n.template := by
  obtain ⟨message, subject, rest, hmessage, -, rfl⟩ := Notice.eq_of_problem h
  obtain ⟨d, hd, htext⟩ := Template.fill_plain hplain n.snippets
  obtain rfl := Except.ok.inj (hmessage.symm.trans hd)
  exact htext

namespace SourceError

/-- The message about a lexical error ends with a quotation mark. -/
theorem getLast?_text_message {source : Text} {e : LexError} {p : Problem}
    (h : e.problem source = .ok p) : p.message.text.getLast? = some '\'' := by
  have hmessage : p.message = Doc.plain ['\''] ++ Doc.styled .bold source ++
      Doc.plain "' contains unrecognized character '" ++ Doc.styled .bold [e.character] ++
      Doc.plain ['\''] := by
    obtain rfl := Except.ok.inj h
    rfl
  have htext (d : Doc) : (d ++ Doc.plain ['\'']).text = d.text ++ ['\''] := by
    simp [Doc.text, Doc.plain]
  rw [hmessage, htext, List.getLast?_concat]

/-- The message about a grammatical error begins with an e. -/
theorem head?_text_message {source : Text} {e : ParseError} {p : Problem}
    (h : e.problem source = .ok p) : p.message.text.head? = some 'e' := by
  cases e with
  | unexpected expected found =>
      rw [Notice.text_message (Problem.plain_expectation expected found.token) h]
      rfl
  | tooDeep found =>
      have hplain : Template.Plain tooDeepMessage := by decide
      rw [Notice.text_message hplain h]
      rfl

/-- No mistake is reported with the words that are kept for a file that is no text. -/
theorem text_message_ne {source : Text} {e : SourceError} {p : Problem}
    (h : e.problem source = .ok p) (path : Text) :
    p.message.text ≠ "'" ++ path ++ "' is not valid UTF-8 text" := by
  intro hmessage
  cases e with
  | lexical e =>
      have hlast := getLast?_text_message h
      rw [hmessage, List.getLast?_append_of_ne_nil _ (by decide)] at hlast
      exact absurd hlast (by decide)
  | grammatical e =>
      have hhead := head?_text_message h
      rw [hmessage] at hhead
      exact absurd (show some '\'' = some 'e' from hhead) (by decide)

end SourceError

/-! ## Files that are no text -/

namespace Session

open Step Reporting

/-- What is wrong with a file that is no text. -/
def undecodable (path : Text) : Problem where
  cause := .general
  message := Doc.plain ['\''] ++ Doc.styled .bold path ++ Doc.plain "' is not valid UTF-8 text"
  subject := path
  start := 0
  stop := path.length
  pointed := false
  internal := false

theorem text_undecodable (path : Text) :
    (undecodable path).message.text = "'" ++ path ++ "' is not valid UTF-8 text" := by
  simp [undecodable, Doc.text, Doc.plain, Doc.styled]
  rfl

variable {files : Files} {s : Session} {bytes : List UInt8}

/-- The file is refused before any of its statements is looked at. -/
theorem run_load_undecodable (hreserved : s.path ∉ reservedPaths) (hnul : '\x00' ∉ s.path)
    (hbytes : files s.path = some bytes) (h : SourceFile.decode bytes = none) :
    (load files).run s = ⟨s, [], .error (.problem (undecodable s.path))⟩ := by
  have hread : (readText files).run s = ⟨s, [], .error (.problem (undecodable s.path))⟩ := by
    rw [readText, run_bind_silent (run_state s)]
    simp only [if_neg hreserved, if_neg hnul, hbytes, h]
    exact run_raiseProblem rfl s
  exact run_bind_error hread

/-- A problem that is met while statements are added is a mistake in one of
them. -/
theorem exists_mistake_of_addAll {statements : List LogicalLine} {p : Problem}
    (h : ((addAll statements).run s).answer = .error (.problem p)) :
    ∃ (source : Text) (e : SourceError), e.problem source = .ok p := by
  induction statements generalizing s with
  | nil => contradiction
  | cons statement statements ih =>
      cases hparse : parse statement.text with
      | ok t =>
          rw [addAll, run_bind_silent (run_add_parsed hparse s statement.number)] at h
          exact ih h
      | error e =>
          obtain ⟨p', hp⟩ := e.exists_problem statement.text
          rw [addAll, run_bind_error (run_add_error hparse hp s statement.number)] at h
          obtain rfl : p' = p := Signal.problem.inj (Except.error.inj h)
          exact ⟨statement.text, e, hp⟩

/-- The session refuses its file with the words that it is no text. -/
def Refuses (files : Files) (s : Session) : Prop :=
  ∃ p, ((load files).run s).answer = .error (.problem p) ∧
    p.message.text = "'" ++ s.path ++ "' is not valid UTF-8 text"

/-- The bytes alone decide whether the file is refused so. -/
theorem refuses_iff (hreserved : s.path ∉ reservedPaths) (hnul : '\x00' ∉ s.path)
    (hbytes : files s.path = some bytes) : Refuses files s ↔ SourceFile.decode bytes = none := by
  constructor
  · rintro ⟨p, hload, hmessage⟩
    by_contra hdecode
    obtain ⟨text, htext⟩ := Option.ne_none_iff_exists'.1 hdecode
    obtain ⟨statements, hgroups⟩ := LogicalLine.exists_groups 1 (Text.lines text)
    obtain ⟨warning, -, hrun⟩ := exists_run_load
      ⟨hreserved, hnul, bytes, hbytes, htext⟩ (LogicalLine.assemble_eq_ok_iff.2 hgroups)
    rw [hrun] at hload
    obtain ⟨source, e, hp⟩ := exists_mistake_of_addAll hload
    exact e.text_message_ne hp s.path hmessage
  · intro hdecode
    rw [Refuses, run_load_undecodable hreserved hnul hbytes hdecode]
    exact ⟨_, rfl, text_undecodable s.path⟩

/-- A file that breaks off within a byte order mark reads as empty. -/
theorem run_load_of_partial_mark (hreserved : s.path ∉ reservedPaths) (hnul : '\x00' ∉ s.path)
    (hbytes : files s.path = some bytes) (h : bytes = [0xEF] ∨ bytes = [0xEF, 0xBB]) :
    (load files).run s = ⟨s, s.reporter.traceback.origin ++ emptyWarning s.path, .ok ()⟩ := by
  have hdecode : SourceFile.decode bytes = some [] := by
    obtain rfl | rfl := h <;> rfl
  exact run_load_nil ⟨hreserved, hnul, bytes, hbytes, hdecode⟩ rfl

/-- What a session is when nothing of its file has been used: it is as it was when
it was started. -/
structure Untouched (reporter : Reporter) (s : Session) : Prop where
  queue : s.queue = []
  results : s.results = []
  /-- Nothing of the file is being worked on. -/
  place : s.reporter.traceback.lookup s.path = some .whole
  /-- The places of other files are as the session has found them. -/
  others : ∀ path ≠ s.path, s.reporter.traceback.lookup path = reporter.traceback.lookup path
  /-- A reporter that has not heard of any file has heard of this one only. -/
  paths : reporter.traceback = [] → s.reporter.traceback = [(s.path, .whole)]

theorem untouched_start (reporter : Reporter) (path : Text) (interactive : Bool) (view : View) :
    Untouched reporter (start reporter path interactive view) where
  queue := rfl
  results := rfl
  place := Traceback.lookup_set_self path .whole reporter.traceback
  others _ hne := Traceback.lookup_set_of_ne hne .whole reporter.traceback
  paths hnew := by
    change reporter.traceback.set path .whole = _
    rw [hnew]
    rfl

/-- **A file that is no text is refused for that reason, and nothing of it is
used.** -/
theorem undecodable_refused {path : Text} (hreserved : path ∉ reservedPaths)
    (hnul : '\x00' ∉ path) (hbytes : files path = some bytes) (reporter : Reporter) (view : View) :
    let s := start reporter path false view
    (Refuses files s ↔ bytes ≠ [0xEF] ∧ bytes ≠ [0xEF, 0xBB] ∧
      ¬ ∃ t : Text, SourceFile.withoutMark bytes = SourceFile.encode t) ∧
    ((∃ t : Text, SourceFile.withoutMark bytes = SourceFile.encode t) ↔
      SourceFile.WellFormed (SourceFile.withoutMark bytes)) ∧
    (Refuses files s →
      (load files).run s = ⟨s, [], .error (.problem (undecodable path))⟩ ∧ Untouched reporter s ∧
      Program.fileRun files view path = ⟨1, (undecodable path).announcement [], []⟩) ∧
    (bytes = [0xEF] ∨ bytes = [0xEF, 0xBB] →
      (load files).run s = ⟨s, s.reporter.traceback.origin ++ emptyWarning path, .ok ()⟩) := by
  intro s
  have hrefuses : Refuses files s ↔ bytes ≠ [0xEF] ∧ bytes ≠ [0xEF, 0xBB] ∧
      ¬ ∃ t : Text, SourceFile.withoutMark bytes = SourceFile.encode t := by
    rw [refuses_iff hreserved hnul hbytes, SourceFile.decode_eq_none_iff]
  refine ⟨hrefuses, SourceFile.wellFormed_iff.symm, fun h => ?_,
    run_load_of_partial_mark hreserved hnul hbytes⟩
  have hdecode := (refuses_iff hreserved hnul hbytes).1 h
  have hload := run_load_undecodable (s := s) hreserved hnul hbytes hdecode
  refine ⟨hload, untouched_start reporter path false view, ?_⟩
  have hrun := run_load_undecodable (s := start (Reporter.new true) path false view) hreserved hnul
    hbytes hdecode
  rw [Program.fileRun, Program.conclude, run_guarded_of_fatal (run_bind_error hrun) rfl]
  rfl

/-- A file with a lexical error on its first line and a surrogate on its second. -/
def surrogate : Files := fun path =>
  if path = "surrogate" then some (SourceFile.encode "tru3\n" ++ [0xED, 0xA0, 0x80]) else none

theorem undecodable_refused_surrogate :
    ("surrogate" : Text) ∉ reservedPaths ∧ '\x00' ∉ ("surrogate" : Text) ∧
      ¬ SourceFile.WellFormed (SourceFile.encode "tru3\n" ++ [0xED, 0xA0, 0x80]) ∧
      (load surrogate).run (start (Reporter.new false) "surrogate" false ⟨true, true⟩) =
        ⟨start (Reporter.new false) "surrogate" false ⟨true, true⟩, [],
          .error (.problem (undecodable "surrogate"))⟩ ∧
      Program.fileRun surrogate ⟨true, true⟩ "surrogate" =
        ⟨1, (undecodable "surrogate").announcement [], []⟩ := by
  have hreserved : ("surrogate" : Text) ∉ reservedPaths := by decide
  have hnul : '\x00' ∉ ("surrogate" : Text) := by decide
  have hbytes : surrogate "surrogate" =
      some (SourceFile.encode "tru3\n" ++ [0xED, 0xA0, 0x80]) := rfl
  have hmark : SourceFile.withoutMark (SourceFile.encode "tru3\n" ++ [0xED, 0xA0, 0x80]) =
      SourceFile.encode "tru3\n" ++ [0xED, 0xA0, 0x80] := by decide
  have hsurrogate : ¬ ∃ t : Text, SourceFile.encode "tru3\n" ++ [0xED, 0xA0, 0x80] =
      SourceFile.encode t := by
    rw [SourceFile.exists_encode_append_iff, ← SourceFile.isValidUTF8_iff]
    decide
  obtain ⟨hrefuses, hformed, houtcome, -⟩ :=
    undecodable_refused hreserved hnul hbytes (Reporter.new false) ⟨true, true⟩
  rw [hmark] at hrefuses hformed
  obtain ⟨hload, -, hrun⟩ := houtcome (hrefuses.2 ⟨by decide, by decide, hsurrogate⟩)
  exact ⟨hreserved, hnul, mt hformed.2 hsurrogate, hload, hrun⟩

end Session

end Conditional

import Conditional.Program
import Conditional.Proofs.Encoding

/-!
# Conditional.Proofs.Newlines

Files that differ in the way in which they end their lines.  A line feed may be
written as it is, with a carriage return in front, or as a carriage return
alone, each line in its own way (`Text.Respelled`).  Such files read as the
same text, and apart from the carriage return that would be taken together with
the line feed after it, there are no others (`Text.unifyNewlines_eq_iff`).

A session sees no more of a file than the text it reads as
(`Session.readText_congr`), so neither the ends of lines nor a byte order mark
can make a difference to it, or to the program.
-/

namespace Conditional

/-! ## Ways of writing the ends of lines -/

namespace Text

/-- The second text is the first with every line feed written in one of three
ways.  A carriage return is not left alone in front of a line feed, since the
two would be taken for one end of a line. -/
inductive Respelled : Text → Text → Prop where
  | nil : Respelled [] []
  | char {c : Char} {t u : Text} : c ≠ '\n' → Respelled t u → Respelled (c :: t) (c :: u)
  | lineFeed {t u : Text} : Respelled t u → Respelled ('\n' :: t) ('\n' :: u)
  | both {t u : Text} : Respelled t u → Respelled ('\n' :: t) ('\r' :: '\n' :: u)
  | carriageReturn {t u : Text} :
      u.head? ≠ some '\n' → Respelled t u → Respelled ('\n' :: t) ('\r' :: u)

section

variable {t u : Text} {c : Char}

theorem unifyNewlines_cons (h : c ≠ '\r') (u : Text) :
    unifyNewlines (c :: u) = c :: unifyNewlines u := by
  rw [unifyNewlines]
  · intro rest hc
    exact absurd hc h
  · intro hc
    exact absurd hc h

theorem unifyNewlines_carriageReturn (h : u.head? ≠ some '\n') :
    unifyNewlines ('\r' :: u) = '\n' :: unifyNewlines u := by
  rw [unifyNewlines]
  rintro rest rfl
  exact h rfl

/-- Unified newlines leave no carriage return. -/
theorem carriageReturn_not_mem_unifyNewlines (u : Text) : '\r' ∉ unifyNewlines u := by
  fun_induction unifyNewlines u with
  | case1 u ih => simpa using ih
  | case2 u hu ih => simpa using ih
  | case3 c u hboth hreturn ih => simpa [ih] using fun h => hreturn h.symm
  | case4 => exact List.not_mem_nil

/-- A text that was written in another way reads as it was. -/
theorem Respelled.unifyNewlines_eq (h : Respelled t u) (ht : '\r' ∉ t) : unifyNewlines u = t := by
  induction h with
  | nil => rfl
  | char hc _ ih =>
      rw [List.mem_cons, not_or] at ht
      rw [unifyNewlines_cons (Ne.symm ht.1), ih ht.2]
  | lineFeed _ ih => rw [unifyNewlines_cons (by decide), ih fun hmem => ht (.tail _ hmem)]
  | both _ ih => rw [unifyNewlines, ih fun hmem => ht (.tail _ hmem)]
  | carriageReturn hhead _ ih =>
      rw [unifyNewlines_carriageReturn hhead, ih fun hmem => ht (.tail _ hmem)]

/-- Every text is a way of writing the text that it reads as. -/
theorem respelled_unifyNewlines (u : Text) : Respelled (unifyNewlines u) u := by
  fun_induction unifyNewlines u with
  | case1 u ih => exact .both ih
  | case2 u hu ih =>
      refine .carriageReturn (fun hhead => ?_) ih
      cases u with
      | nil => contradiction
      | cons c u => exact hu u (congrArg (· :: u) (Option.some.inj hhead))
  | case3 c u hboth hreturn ih =>
      by_cases hc : c = '\n'
      · exact hc ▸ .lineFeed ih
      · exact .char hc ih
  | case4 => exact .nil

/-- The texts that read as a given one are the ways of writing it. -/
theorem unifyNewlines_eq_iff : unifyNewlines u = t ↔ '\r' ∉ t ∧ Respelled t u := by
  constructor
  · rintro rfl
    exact ⟨carriageReturn_not_mem_unifyNewlines u, respelled_unifyNewlines u⟩
  · rintro ⟨ht, hu⟩
    exact hu.unifyNewlines_eq ht

/-- A respelled text begins with the same character, unless that ends a line. -/
theorem Respelled.head?_eq_some (h : Respelled t u) (hc : u.head? = some c) :
    t.head? = some c ∨ c = '\r' := by
  cases h with
  | nil => exact .inl hc
  | char => exact .inl hc
  | lineFeed => exact .inl hc
  | both => exact .inr (Option.some.inj hc).symm
  | carriageReturn => exact .inr (Option.some.inj hc).symm

/-! ### One way for all lines -/

/-- A text with a carriage return in front of every line feed. -/
def withBoth (t : Text) : Text := t.flatMap fun c => if c = '\n' then ['\r', '\n'] else [c]

/-- A text with a carriage return in place of every line feed. -/
def withReturns (t : Text) : Text := t.map fun c => if c = '\n' then '\r' else c

theorem respelled_self (t : Text) : Respelled t t := by
  induction t with
  | nil => exact .nil
  | cons c t ih =>
      by_cases hc : c = '\n'
      · exact hc ▸ .lineFeed ih
      · exact .char hc ih

theorem respelled_withBoth (t : Text) : Respelled t (withBoth t) := by
  induction t with
  | nil => exact .nil
  | cons c t ih =>
      rw [withBoth, List.flatMap_cons]
      split
      · next hc =>
          subst hc
          exact .both ih
      · next hc => exact .char hc ih

theorem lineFeed_not_mem_withReturns (t : Text) : '\n' ∉ withReturns t := by
  intro hmem
  obtain ⟨c, -, hc⟩ := List.mem_map.1 hmem
  split at hc
  · contradiction
  · contradiction

/-- Where no line feed is left, none can follow a carriage return. -/
theorem respelled_withReturns (t : Text) : Respelled t (withReturns t) := by
  induction t with
  | nil => exact .nil
  | cons c t ih =>
      rw [withReturns, List.map_cons]
      split
      · next hc =>
          subst hc
          refine .carriageReturn (fun hhead => ?_) ih
          exact lineFeed_not_mem_withReturns t (List.mem_of_mem_head? hhead)
      · next hc => exact .char hc ih

end

end Text

/-! ## Files -/

namespace SourceFile

/-- The bytes of a file that holds the text, with or without a byte order mark. -/
def encodeMarked (marked : Bool) (t : Text) : List UInt8 :=
  (if marked then byteOrderMark else []) ++ encode t

/-- A byte order mark makes no difference to a text that does not begin with
another one. -/
theorem decode_encodeMarked {t : Text} (h : t.head? ≠ some '\uFEFF') (marked : Bool) :
    decode (encodeMarked marked t) = some (Text.unifyNewlines t) := by
  cases marked with
  | false => exact decode_encode h
  | true =>
      have hdrop : dropMark (byteOrderMark ++ encode t) = dropMark (encode t) :=
        (dropMark_encode h).symm
      rw [← decode_encode h, decode, decode, encodeMarked, if_pos rfl, hdrop]

/-- A text without carriage returns can be read back however the ends of its
lines were written. -/
theorem decode_of_respelled {t u : Text} (hreturn : '\r' ∉ t) (hmark : t.head? ≠ some '\uFEFF')
    (h : Text.Respelled t u) (marked : Bool) : decode (encodeMarked marked u) = some t := by
  have hmark' : u.head? ≠ some '\uFEFF' := by
    intro hhead
    obtain hhead | hhead := h.head?_eq_some hhead
    · exact hmark hhead
    · exact absurd hhead (by decide)
  rw [decode_encodeMarked hmark', h.unifyNewlines_eq hreturn]

end SourceFile

/-! ## Sessions and runs -/

/-- Both give access to the same files, and these read as the same texts. -/
def Session.SameTexts (files files' : Files) : Prop :=
  ∀ path, (files' path).map SourceFile.decode = (files path).map SourceFile.decode

section

open Session

variable {files files' : Files}

/-- A session takes from a file only the text that it reads as. -/
theorem Session.readText_congr (h : SameTexts files files') : readText files' = readText files := by
  ext s
  rw [readText, readText, Step.run_bind, Step.run_bind, Step.run_state]
  simp only [Outcome.done_andThen]
  have hpath := h s.path
  split
  · rfl
  · split
    · rfl
    · cases hbytes' : files' s.path with
      | none =>
          cases hbytes : files s.path with
          | none => rfl
          | some bytes => simp [hbytes, hbytes'] at hpath
      | some bytes' =>
          cases hbytes : files s.path with
          | none => simp [hbytes, hbytes'] at hpath
          | some bytes =>
              rw [hbytes, hbytes'] at hpath
              have hdecode : SourceFile.decode bytes' = SourceFile.decode bytes :=
                Option.some.inj hpath
              simp only [hdecode]

theorem Session.load_congr (h : SameTexts files files') : load files' = load files := by
  rw [load, load, readText_congr h]

/-- The program takes from a file only the text that it reads as. -/
theorem Program.run_congr (h : SameTexts files files') (arguments : List Text) (input : Text) :
    Program.run arguments files' input = Program.run arguments files input := by
  have hfile : fileRun files' = fileRun files := by
    funext view path
    rw [fileRun, fileRun, load_congr h]
  have hoptions : runOptions files' = runOptions files := by
    funext input options
    rw [runOptions, runOptions, hfile]
  rw [Program.run, Program.run, hoptions]

/-- **The ends of lines and a byte order mark make no difference.**  A text may
be written with line feeds, with carriage returns and line feeds, with carriage
returns alone, or with any mixture of these; a file that holds it, with or
without a mark, is to every session and to the program what a file is that
holds the text as it stands. -/
theorem Program.run_respelled {t : Text} (hreturn : '\r' ∉ t) (hmark : t.head? ≠ some '\uFEFF') :
    (Text.Respelled t t ∧ Text.Respelled t (Text.withBoth t) ∧
        Text.Respelled t (Text.withReturns t)) ∧
      ∀ (u : Text) (marked : Bool) (path : Text) (files files' : Files), Text.Respelled t u →
        files path = some (SourceFile.encode t) →
        files' path = some (SourceFile.encodeMarked marked u) →
        (∀ other ≠ path, files' other = files other) →
        SourceFile.decode (SourceFile.encodeMarked marked u) = some t ∧
          (∀ s, (load files').run s = (load files).run s) ∧
          ∀ arguments input,
            Program.run arguments files' input = Program.run arguments files input := by
  refine ⟨⟨Text.respelled_self t, Text.respelled_withBoth t, Text.respelled_withReturns t⟩, ?_⟩
  intro u marked path files files' hrespelled hfile hfile' hothers
  have hplain := SourceFile.decode_of_respelled hreturn hmark (Text.respelled_self t) false
  have hdecode := SourceFile.decode_of_respelled hreturn hmark hrespelled marked
  have hsame : SameTexts files files' := by
    intro other
    by_cases hother : other = path
    · rw [hother, hfile, hfile', Option.map_some, Option.map_some, hdecode, ← hplain]
      rfl
    · rw [hothers other hother]
  exact ⟨hdecode, fun s => by rw [load_congr hsame], Program.run_congr hsame⟩

/-- A text of four lines, in a file with a mark in which lines end in all three
ways. -/
def mixedFile : Files := fun path =>
  if path = "mixed" then
    some (SourceFile.encodeMarked true "(if true\r\nthen false\relse true)\ntru3\r")
  else none

/-- The same text, written with line feeds. -/
def plainFile : Files := fun path =>
  if path = "mixed" then some (SourceFile.encode "(if true\nthen false\nelse true)\ntru3\n")
  else none

theorem Program.run_respelled_mixed :
    ('\r' ∉ ("(if true\nthen false\nelse true)\ntru3\n" : Text) ∧
        ("(if true\nthen false\nelse true)\ntru3\n" : Text).head? ≠ some '\uFEFF') ∧
      Text.Respelled "(if true\nthen false\nelse true)\ntru3\n"
        "(if true\r\nthen false\relse true)\ntru3\r" ∧
      (load mixedFile).run (start (Reporter.new true) "mixed" false ⟨true, true⟩) =
        (load plainFile).run (start (Reporter.new true) "mixed" false ⟨true, true⟩) ∧
      Program.run ["mixed"] mixedFile [] = Program.run ["mixed"] plainFile [] := by
  have hreturn : '\r' ∉ ("(if true\nthen false\nelse true)\ntru3\n" : Text) := by decide
  have hmark : ("(if true\nthen false\nelse true)\ntru3\n" : Text).head? ≠ some '\uFEFF' := by
    decide
  have hrespelled : Text.Respelled "(if true\nthen false\nelse true)\ntru3\n"
      "(if true\r\nthen false\relse true)\ntru3\r" :=
    (Text.unifyNewlines_eq_iff.1 (by decide)).2
  have hothers : ∀ other ≠ ("mixed" : Text), mixedFile other = plainFile other := by
    intro other hother
    rw [mixedFile, plainFile, if_neg hother, if_neg hother]
  obtain ⟨-, hload, hrun⟩ := (Program.run_respelled hreturn hmark).2 _ true "mixed" plainFile
    mixedFile hrespelled rfl rfl hothers
  exact ⟨⟨hreturn, hmark⟩, hrespelled, hload _, hrun ["mixed"] []⟩

end

end Conditional

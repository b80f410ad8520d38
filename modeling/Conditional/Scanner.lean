import Conditional.Lexeme

/-!
# Conditional.Scanner

Cutting source text into lexemes.

A scanner is a place in a source text: the characters that are still to be
read, and how many stand before them.  Keywords need nothing between them
(`iftrue` is two tokens), blanks may stand anywhere between tokens, and any
other character is an error at its own offset.  Since no spelling begins
another, reading the first spelling that fits is never a wrong choice, and
the scanner does not go back.

Scanning can stop and go on at any place, so `next` and `tokenize` return the
scanner they leave behind, after a failure too: then it stands at the
character that could not be read.
-/

namespace Conditional

/-- A character that begins no token, and its offset. -/
structure LexError where
  character : Char
  position : Nat
deriving DecidableEq, Repr

/-- A place in a source text.  `finish` is the length of the whole source,
which is where its end is reported. -/
structure Scanner where
  rest : Text
  position : Nat
  finish : Nat
deriving DecidableEq, Repr

namespace Scanner

/-- The scanner before an offset of a source.  The offset may lie beyond the
end; then nothing is left to read. -/
def seek (source : Text) (offset : Nat) : Scanner := ⟨source.drop offset, offset, source.length⟩

/-- The scanner at the beginning of a source. -/
def start (source : Text) : Scanner := seek source 0

/-- Passes over the blanks in front of the next token. -/
def skipBlanks (s : Scanner) : Scanner :=
  { s with
    rest := s.rest.dropWhile Text.isBlank
    position := s.position + (s.rest.takeWhile Text.isBlank).length }

/-- Reads the lexeme that begins where the scanner stands. -/
def readHere : EStateM LexError Scanner Lexeme := fun s =>
  match s.rest with
  | [] => .ok (.endAt s.finish) s
  | c :: _ =>
    match Token.read? s.rest with
    | none => .error ⟨c, s.position⟩ s
    | some (token, rest) =>
      .ok ⟨token, s.position, s.position + token.spelling.length⟩
        { s with rest := rest, position := s.position + token.spelling.length }

/-- Reads the next lexeme.  At the end of the source this is the end of the
input, as often as it is asked for. -/
def next : EStateM LexError Scanner Lexeme := fun s => readHere s.skipBlanks

/-! ## Every lexeme but the end of the input shortens what is left -/

theorem length_skipBlanks_le (s : Scanner) : s.skipBlanks.rest.length ≤ s.rest.length :=
  (List.dropWhile_suffix _).length_le

theorem length_lt_of_readHere {s s' : Scanner} {l : Lexeme} (h : readHere s = .ok l s')
    (hl : l.token ≠ .endOfInput) : s'.rest.length < s.rest.length := by
  unfold readHere at h
  split at h
  · cases h
    exact absurd rfl hl
  · split at h
    · cases h
    · next hread =>
      cases h
      exact Token.length_lt_of_read? hread

theorem length_lt_of_next {s s' : Scanner} {l : Lexeme} (h : next s = .ok l s')
    (hl : l.token ≠ .endOfInput) : s'.rest.length < s.rest.length :=
  Nat.lt_of_lt_of_le (length_lt_of_readHere h hl) (length_skipBlanks_le s)

/-- Reads lexemes up to and including the end of the input. -/
def tokenize (s : Scanner) : EStateM.Result LexError Scanner (List Lexeme) :=
  match _h : next s with
  | .error e s' => .error e s'
  | .ok l s' =>
    if _hl : l.token = .endOfInput then .ok [l] s'
    else
      match tokenize s' with
      | .error e s'' => .error e s''
      | .ok ls s'' => .ok (l :: ls) s''
termination_by s.rest.length
decreasing_by exact length_lt_of_next _h _hl

end Scanner

/-- The lexemes of a source text, the last of which is the end of the input. -/
def tokenize (source : Text) : Except LexError (List Lexeme) :=
  match (Scanner.start source).tokenize with
  | .ok ls _ => .ok ls
  | .error e _ => .error e

end Conditional

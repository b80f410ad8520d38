/-!
# Conditional.Text

Text as a list of characters.  Every offset in this library (the position of
a lexeme, the column of a caret, the length of a subject) counts characters,
so the list is the representation in which those offsets are plain list
indices.  `String` appears only as literals, which are coerced, and at the
edge of the program.

The module holds the few operations on text that the other modules share:
whitespace and trimming, cutting at signed offsets, numerals, and the
splitting of text into lines.
-/

namespace Conditional

/-- A sequence of characters. -/
abbrev Text := List Char

/-- The characters of a string. -/
def Text.lit (s : String) : Text := s.toList

/-- String literals may stand where text is wanted. -/
instance : Coe String Text := ⟨Text.lit⟩

namespace Text

/-! ## Blanks and whitespace -/

/-- The characters that separate tokens: space and tab, and nothing else. -/
def isBlank (c : Char) : Bool := c == ' ' || c == '\t'

/-- Unicode whitespace, the set removed from the ends of a line.  It contains
the line and paragraph separators and the information separators U+001C to
U+001F, but not the zero-width characters. -/
def isSpace (c : Char) : Bool :=
  let n := c.toNat
  (0x09 ≤ n && n ≤ 0x0D) || (0x1C ≤ n && n ≤ 0x20) || n == 0x85 || n == 0xA0 ||
    n == 0x1680 || (0x2000 ≤ n && n ≤ 0x200A) || n == 0x2028 || n == 0x2029 ||
    n == 0x202F || n == 0x205F || n == 0x3000

/-- The text without its leading whitespace. -/
def trimStart (t : Text) : Text := t.dropWhile isSpace

/-- The text without its trailing whitespace. -/
def trimEnd (t : Text) : Text := (t.reverse.dropWhile isSpace).reverse

/-- The text without whitespace at either end. -/
def trim (t : Text) : Text := trimEnd (trimStart t)

/-! ## Cutting at signed offsets -/

/-- The cut that a signed offset stands for.  A negative offset counts from
the end, and an offset beyond either end is moved to that end. -/
def cut (t : Text) (offset : Int) : Nat :=
  if offset < 0 then (offset + t.length).toNat else min offset.toNat t.length

/-- What stands before a signed offset. -/
def upTo (t : Text) (stop : Int) : Text := t.take (t.cut stop)

/-- What stands at or after a signed offset. -/
def onward (t : Text) (start : Int) : Text := t.drop (t.cut start)

/-- What stands between two signed offsets; nothing, if they are crossed. -/
def between (t : Text) (start stop : Int) : Text := (t.take (t.cut stop)).drop (t.cut start)

/-- An offset within the text is its own cut. -/
theorem cut_natCast {t : Text} {n : Nat} (h : n ≤ t.length) : t.cut n = n := by
  rw [cut, if_neg (by omega), Int.toNat_natCast, Nat.min_eq_left h]

/-- A part of a text stands between its own offsets. -/
theorem between_append (before part after : Text) :
    (before ++ (part ++ after)).between before.length (before.length + part.length : Nat) =
      part := by
  have hstart : before.length ≤ (before ++ (part ++ after)).length := by simp
  have hstop : before.length + part.length ≤ (before ++ (part ++ after)).length := by simp
  rw [between, cut_natCast hstart, cut_natCast hstop, List.take_length_add_append,
    List.drop_append_of_le_length (Nat.le_refl _), List.drop_length, List.nil_append,
    List.take_left']
  rfl

/-- A character repeated; not at all, if the count is negative. -/
def fill (c : Char) (count : Int) : Text := List.replicate count.toNat c

/-- What follows a given beginning of a text, if the text begins so. -/
def after? : Text → Text → Option Text
  | [], t => some t
  | _ :: _, [] => none
  | b :: beginning, c :: t => if b = c then after? beginning t else none

theorem after?_eq_some_iff {beginning t rest : Text} :
    after? beginning t = some rest ↔ t = beginning ++ rest := by
  induction beginning generalizing t with
  | nil => simp [after?]
  | cons b beginning ih =>
    cases t with
    | nil => simp [after?]
    | cons c t => by_cases h : b = c <;> simp [after?, h, ih, Ne.symm]

/-! ## Numerals -/

/-- A natural number in decimal notation. -/
def ofNat (n : Nat) : Text := Nat.toDigits 10 n

/-- An integer in decimal notation, with a minus sign if it is negative. -/
def ofInt : Int → Text
  | .ofNat n => ofNat n
  | .negSucc n => '-' :: ofNat (n + 1)

/-! ## Lines -/

/-- One convention for the end of a line: a carriage return followed by a
line feed, and a carriage return alone, both become a line feed. -/
def unifyNewlines : Text → Text
  | '\r' :: '\n' :: rest => '\n' :: unifyNewlines rest
  | '\r' :: rest => '\n' :: unifyNewlines rest
  | c :: rest => c :: unifyNewlines rest
  | [] => []

/-- The lines of a text, without the line feeds that end them.  A final line
feed ends the last line and starts no further one; no other character ends a
line. -/
def lines : Text → List Text
  | [] => []
  | c :: rest =>
    if c = '\n' then [] :: lines rest
    else match lines rest with
      | [] => [[c]]
      | line :: more => (c :: line) :: more

/-- Texts with a separator between neighbours. -/
def join (separator : Text) (parts : List Text) : Text := separator.intercalate parts

end Text

end Conditional

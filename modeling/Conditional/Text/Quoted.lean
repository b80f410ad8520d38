import Conditional.Text.Printable

/-!
# Conditional.Text.Quoted

Text in quotes, with everything in it visible.  Single quotes are used, or
double quotes if the text holds single quotes and no double ones.  Inside,
the quote in use and the backslash are escaped, and so is every character
that is not printable: line feed, carriage return and tab by a letter, the
others by their code point in two, four or eight hexadecimal digits.
-/

namespace Conditional

namespace Text

/-- A number in hexadecimal notation, with zeros in front up to a width. -/
def hex (width n : Nat) : Text :=
  let digits := Nat.toDigits 16 n
  List.replicate (width - digits.length) '0' ++ digits

/-- A character as it is written between quotes of the given kind. -/
def escapeChar (quote c : Char) : Text :=
  if c = quote ∨ c = '\\' then ['\\', c]
  else if c = '\n' then ['\\', 'n']
  else if c = '\r' then ['\\', 'r']
  else if c = '\t' then ['\\', 't']
  else if isPrintable c then [c]
  else if c.toNat < 0x100 then '\\' :: 'x' :: hex 2 c.toNat
  else if c.toNat < 0x10000 then '\\' :: 'u' :: hex 4 c.toNat
  else '\\' :: 'U' :: hex 8 c.toNat

/-- The quote that is used around a text. -/
def quoteFor (t : Text) : Char := if '\x27' ∈ t ∧ '\x22' ∉ t then '\x22' else '\x27'

/-- A text in quotes. -/
def quoted (t : Text) : Text :=
  let quote := quoteFor t
  quote :: t.flatMap (escapeChar quote) ++ [quote]

end Text

end Conditional

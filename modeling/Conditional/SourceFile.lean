import Conditional.Text

/-!
# Conditional.SourceFile

The text of a source file.  A file is UTF-8, in the strict sense: exactly the
encodings of sequences of Unicode scalar values are accepted.  One byte order
mark in front is dropped.  A file that breaks off within a byte order mark
reads as empty.
-/

namespace Conditional

namespace SourceFile

/-- The encoding of U+FEFF, which may stand in front of a text. -/
def byteOrderMark : List UInt8 := [0xEF, 0xBB, 0xBF]

/-- The bytes after a byte order mark, or after a file that is nothing but
the beginning of one. -/
def dropMark (bytes : List UInt8) : List UInt8 :=
  match bytes with
  | [0xEF] => []
  | [0xEF, 0xBB] => []
  | 0xEF :: 0xBB :: 0xBF :: rest => rest
  | _ => bytes

/-- The text that a file holds, with unified newlines; none, if the bytes are
not the encoding of a text. -/
def decode (bytes : List UInt8) : Option Text :=
  (String.fromUTF8? (dropMark bytes).toByteArray).map fun s => Text.unifyNewlines s.toList

end SourceFile

end Conditional

import Conditional.SourceFile

/-!
# Conditional.Proofs.Encoding

Texts as the bytes of a file.  A file that holds the encoding of a text reads
as that text with unified newlines (`SourceFile.decode_encode`).  The one
exception is a text with a byte order mark in front, which is dropped as the
mark of the file: the encoding of no other character begins with the bytes of
a mark.
-/

namespace Conditional

namespace SourceFile

/-- The bytes of a file that holds the text and no byte order mark. -/
def encode (t : Text) : List UInt8 := t.flatMap String.utf8EncodeChar

/-- The first character of a text can be read off its encoding. -/
theorem utf8DecodeChar?_encode (c : Char) (t : Text) :
    (encode (c :: t)).toByteArray.utf8DecodeChar? 0 = some c :=
  List.utf8DecodeChar?_utf8Encode_cons

/-- The bytes of a mark are the encoding of a character. -/
theorem utf8DecodeChar?_byteOrderMark (rest : List UInt8) :
    (byteOrderMark ++ rest).toByteArray.utf8DecodeChar? 0 = some '\uFEFF' := by
  have hmark : byteOrderMark = String.utf8EncodeChar '\uFEFF' := by decide
  rw [hmark, List.toByteArray_append]
  exact ByteArray.utf8DecodeChar?_utf8EncodeChar_append

/-- A text that does not begin with the character of the mark has no mark in
front of its encoding. -/
theorem dropMark_encode {t : Text} (h : t.head? ≠ some '\uFEFF') :
    dropMark (encode t) = encode t := by
  cases t with
  | nil => rfl
  | cons c t =>
      have hdecode := utf8DecodeChar?_encode c t
      unfold dropMark
      split
      · next hbytes =>
          rw [hbytes] at hdecode
          have hnone : [0xEF].toByteArray.utf8DecodeChar? 0 = none := by decide
          rw [hnone] at hdecode
          contradiction
      · next hbytes =>
          rw [hbytes] at hdecode
          have hnone : [0xEF, 0xBB].toByteArray.utf8DecodeChar? 0 = none := by decide
          rw [hnone] at hdecode
          contradiction
      · next rest hbytes =>
          have hmark := utf8DecodeChar?_byteOrderMark rest
          rw [hbytes] at hdecode
          exact absurd (hdecode.symm.trans hmark) h
      · rfl

theorem decode_encode {t : Text} (h : t.head? ≠ some '\uFEFF') :
    decode (encode t) = some (Text.unifyNewlines t) := by
  have hvalid : (encode t).toByteArray.IsValidUTF8 := ⟨t, rfl⟩
  rw [decode, dropMark_encode h, String.fromUTF8?, dif_pos hvalid, Option.map_some]
  have htext : String.fromUTF8 (encode t).toByteArray hvalid = String.ofList t := rfl
  rw [htext, String.toList_ofList]

end SourceFile

end Conditional

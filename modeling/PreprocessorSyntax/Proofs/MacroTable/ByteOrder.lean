import Mathlib.Data.Char
import Mathlib.Tactic.SplitIfs

/-!
# The order of encoded texts

Texts are compared by the code points of their characters.  Their UTF-8 encodings
compare in the same way byte by byte: the first byte of a character tells how many
there are, more of them for higher code points, and the bytes of a character hold
the digits of its code point from the most significant one on.
-/

namespace PreprocessorSyntax

/-- The bytes of a text in UTF-8. -/
def encoded (text : String) : List UInt8 :=
  text.toUTF8.data.toList

theorem encoded_eq_flatMap (text : String) :
    encoded text = text.toList.flatMap String.utf8EncodeChar := by
  rw [encoded, ← @String.ofList_toList text, String.toUTF8, String.toByteArray_ofList,
    List.utf8Encode, List.toList_data_toByteArray, String.toList_ofList]

/-- The encoding of a character decides how a text compares, whatever is behind it. -/
theorem utf8EncodeChar_append_lt
    {c d : Char}
    (lt : c < d)
    (front back : List UInt8) :
    String.utf8EncodeChar c ++ front < String.utf8EncodeChar d ++ back := by
  have order : c.val.toNat < d.val.toNat := UInt32.lt_iff_toNat_lt.1 lt
  have bound : d.val.toNat < 1114112 := by
    rcases d.valid with low | high
    · exact Nat.lt_trans low (by decide)
    · exact high.2
  unfold String.utf8EncodeChar
  generalize c.val.toNat = first at order ⊢
  generalize d.val.toNat = second at order bound ⊢
  simp only
  split_ifs <;>
    simp (disch := omega) only [List.cons_append, List.nil_append, List.cons_lt_cons_iff,
      UInt8.lt_iff_toNat_lt, ← UInt8.toNat_inj, UInt8.toNat_ofNat', Nat.reducePow,
      Nat.mod_eq_of_lt] <;>
    omega

theorem flatMap_utf8EncodeChar_lt {first second : List Char} (lt : first < second) :
    first.flatMap String.utf8EncodeChar < second.flatMap String.utf8EncodeChar := by
  induction lt with
  | @nil c rest =>
      have encodes := String.length_utf8EncodeChar c
      have positive := c.utf8Size_pos
      cases bytes : String.utf8EncodeChar c with
      | nil =>
          rw [bytes, List.length_nil] at encodes
          omega
      | cons byte others =>
          rw [List.flatMap_cons, bytes]
          exact List.nil_lt_cons _ _
  | rel lt => exact utf8EncodeChar_append_lt lt _ _
  | cons _ inductionHypothesis => exact List.append_left_lt inductionHypothesis

/-- Encoded texts compare as the texts do. -/
theorem encoded_lt {first second : String} (lt : first < second) :
    encoded first < encoded second := by
  rw [encoded_eq_flatMap, encoded_eq_flatMap]
  exact flatMap_utf8EncodeChar_lt (String.lt_iff.1 lt)

end PreprocessorSyntax

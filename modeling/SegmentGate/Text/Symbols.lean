/-!
# Bytes as symbols

A file is a sequence of bytes that need not be valid UTF-8. `Symbols.ofBytes` reads it as a sequence
of symbols: a character where one is encoded, and `none` for a byte that begins no character. An
ASCII byte is always a symbol of its own, whatever stands before it, so the punctuation of a format
is seen even next to damaged text. `ofBytes_toUTF8` says that a valid text is its characters.
-/
namespace SegmentGate.Text

abbrev Symbols := List (Option Char)

namespace Symbols

/-- The symbols of the bytes from position `i` on. -/
def decodeFrom (b : ByteArray) (i : Nat) : Symbols :=
  if i < b.size then
    match h : b.utf8DecodeChar? i with
    | some c => some c :: decodeFrom b (i + c.utf8Size)
    | none => none :: decodeFrom b (i + 1)
  else []
termination_by b.size - i
decreasing_by
  · have := ByteArray.le_size_of_utf8DecodeChar?_eq_some h
    have := c.utf8Size_pos
    omega
  · omega

def ofBytes (b : ByteArray) : Symbols := decodeFrom b 0

theorem decodeFrom_append_utf8Encode (cs : List Char) (p : ByteArray) :
    decodeFrom (p ++ cs.utf8Encode) p.size = cs.map some := by
  induction cs generalizing p with
  | nil => rw [decodeFrom]; simp
  | cons c cs ih =>
    have hd : (p ++ (c :: cs).utf8Encode).utf8DecodeChar? p.size = some c := by
      rw [ByteArray.utf8DecodeChar?_eq_utf8DecodeChar?_extract]
      simp [ByteArray.extract_append_eq_right, List.utf8DecodeChar?_utf8Encode_cons]
    have hlt := ByteArray.lt_size_of_isSome_utf8DecodeChar? (by rw [hd]; rfl)
    rw [decodeFrom, if_pos hlt]
    split
    · rename_i c' h'
      rw [hd] at h'
      cases h'
      have := ih (p ++ [c].utf8Encode)
      rw [ByteArray.append_assoc, ← List.utf8Encode_append] at this
      simp only [List.singleton_append, ByteArray.size_append] at this
      rw [List.map_cons, ← this]
      congr 2
      rw [List.utf8Encode_singleton, List.size_toByteArray, String.length_utf8EncodeChar]
    · rename_i h'
      rw [hd] at h'
      cases h'

theorem ofBytes_toUTF8 (s : String) : ofBytes s.toUTF8 = s.toList.map some := by
  have h := decodeFrom_append_utf8Encode s.toList ByteArray.empty
  rw [ByteArray.empty_append] at h
  have : s.toUTF8 = s.toList.utf8Encode := by simp
  rw [ofBytes, this]
  exact h

end Symbols
end SegmentGate.Text

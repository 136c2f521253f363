import Ps5Debugger.Lib.Bytes

/-!
# UTF-8 and malformed input

A decoder that puts a replacement character for what is not UTF-8, as those of string libraries do. How
many bytes a replacement stands for differs between them and is a parameter. Text that was encoded is read
back, and text without replacements was encoded.
-/

namespace Lib

namespace Utf8

variable {malformed : List Byte → Nat} {s : List Char} {b : List Byte}

/-- The bytes of a text. -/
def encode (s : List Char) : List Byte := s.flatMap fun c => (String.utf8EncodeChar c).map UInt8.toBitVec

/-- The character at the front. -/
def decodeChar (b : List Byte) : Option Char := ((b.map UInt8.ofBitVec).toByteArray).utf8DecodeChar? 0

/-- What is left of the bytes once so many of them are passed. -/
def decodeFrom (malformed : List Byte → Nat) : Nat → List Byte → List Char
  | _, [] => []
  | skip + 1, _ :: b => decodeFrom malformed skip b
  | 0, x :: b =>
    match decodeChar (x :: b) with
    | some c => c :: decodeFrom malformed (c.utf8Size - 1) b
    | none => '\uFFFD' :: decodeFrom malformed (malformed (x :: b) - 1) b

/-- The text of some bytes, with replacements. -/
def decode (malformed : List Byte → Nat) (b : List Byte) : List Char := decodeFrom malformed 0 b

/-! ## Characters -/

@[simp] theorem encode_nil : encode [] = [] := rfl

@[simp] theorem encode_cons (c : Char) (s : List Char) :
    encode (c :: s) = (String.utf8EncodeChar c).map UInt8.toBitVec ++ encode s := List.flatMap_cons

theorem map_ofBitVec_toBitVec (l : List UInt8) : (l.map UInt8.toBitVec).map UInt8.ofBitVec = l := by
  rw [List.map_map]
  exact List.map_id l

theorem map_toBitVec_ofBitVec (b : List Byte) : (b.map UInt8.ofBitVec).map UInt8.toBitVec = b := by
  rw [List.map_map]
  exact List.map_id b

/-- A character that was encoded is read. -/
theorem decodeChar_encode (c : Char) (b : List Byte) :
    decodeChar ((String.utf8EncodeChar c).map UInt8.toBitVec ++ b) = some c := by
  rw [decodeChar, List.map_append, map_ofBitVec_toBitVec, List.toByteArray_append]
  exact ByteArray.utf8DecodeChar?_utf8EncodeChar_append

/-- A character that is read was encoded. -/
theorem eq_of_decodeChar {c : Char} (h : decodeChar b = some c) :
    ∃ rest, b = (String.utf8EncodeChar c).map UInt8.toBitVec ++ rest := by
  obtain ⟨rest, hrest⟩ := ByteArray.exists_of_utf8DecodeChar?_eq_some h
  have hlist := congrArg (fun a : ByteArray => a.data.toList) hrest
  simp only [ByteArray.data_append, List.data_toByteArray, Array.toList_append, List.toList_toArray] at hlist
  refine ⟨rest.data.toList.map UInt8.toBitVec, ?_⟩
  rw [← List.map_append, ← hlist, map_toBitVec_ofBitVec]

theorem ne_nil_of_decodeChar {c : Char} (h : decodeChar b = some c) : b ≠ [] := by
  obtain ⟨rest, rfl⟩ := eq_of_decodeChar h
  have := c.utf8Size_pos
  exact List.ne_nil_of_length_pos (by simp; omega)

/-! ## Texts -/

theorem decodeFrom_eq (skip : Nat) (b : List Byte) : decodeFrom malformed skip b = decode malformed (b.drop skip) := by
  induction b generalizing skip with
  | nil => cases skip <;> rfl
  | cons x b ih =>
    cases skip with
    | zero => rfl
    | succ skip => exact ih skip

@[simp] theorem decode_nil : decode malformed [] = [] := rfl

theorem decode_of_some {c : Char} (h : decodeChar b = some c) :
    decode malformed b = c :: decode malformed (b.drop c.utf8Size) := by
  cases b with
  | nil => exact absurd rfl (ne_nil_of_decodeChar h)
  | cons x b =>
    have hsize : c.utf8Size = c.utf8Size - 1 + 1 := (Nat.sub_add_cancel c.utf8Size_pos).symm
    rw [decode, decodeFrom, h]
    simp only [decodeFrom_eq]
    rw [hsize, List.drop_succ_cons, Nat.add_sub_cancel]

theorem decode_of_none (hne : b ≠ []) (h : decodeChar b = none) :
    '\uFFFD' ∈ decode malformed b := by
  cases b with
  | nil => exact absurd rfl hne
  | cons x b =>
    rw [decode, decodeFrom, h]
    exact List.mem_cons_self

theorem length_encodeChar (c : Char) : ((String.utf8EncodeChar c).map UInt8.toBitVec).length = c.utf8Size := by
  rw [List.length_map, String.length_utf8EncodeChar]

/-- Text that was encoded is read back. -/
theorem decode_encode (malformed : List Byte → Nat) (s : List Char) : decode malformed (encode s) = s := by
  induction s with
  | nil => rfl
  | cons c s ih =>
    rw [encode_cons, decode_of_some (decodeChar_encode c _), ← length_encodeChar, List.drop_left, ih]

/-- Text in which nothing was replaced was encoded. -/
theorem encode_decode (h : '\uFFFD' ∉ decode malformed b) : encode (decode malformed b) = b := by
  induction hn : b.length using Nat.strong_induction_on generalizing b with
  | _ n ih =>
    cases hc : decodeChar b with
    | none =>
      by_cases hne : b = []
      · rw [hne]
        rfl
      · exact absurd (decode_of_none hne hc) h
    | some c =>
      obtain ⟨rest, rfl⟩ := eq_of_decodeChar hc
      have htext : decode malformed ((String.utf8EncodeChar c).map UInt8.toBitVec ++ rest) =
          c :: decode malformed rest := by
        rw [decode_of_some hc, ← length_encodeChar, List.drop_left]
      rw [htext, List.mem_cons, not_or] at h
      have hshorter : rest.length < n := by
        rw [← hn, List.length_append, length_encodeChar]
        have := c.utf8Size_pos
        omega
      rw [htext, encode_cons, ih rest.length hshorter h.2 rfl]

/-- What is read as a text without replacements is the text. -/
theorem decode_eq_iff (h : '\uFFFD' ∉ s) : decode malformed b = s ↔ b = encode s := by
  constructor
  · rintro rfl
    exact (encode_decode h).symm
  · rintro rfl
    exact decode_encode malformed s

end Utf8

end Lib

import Mathlib.Data.List.GetD
import Ps5Debugger.Lib.Bytes

/-!
# Arrays of bytes with signed indices

Signed 32-bit and 64-bit numbers whose sums wrap around, and arrays of bytes that such numbers index: an
index outside the array is an exception, and there are fewer than `2 ^ 31` bytes.
-/

namespace Lib

/-- The signed 32-bit number that is left of a number. -/
def wrap32 (n : Int) : Int := n.bmod (2 ^ 32)

/-- The signed 64-bit number that is left of a number. -/
def wrap64 (n : Int) : Int := n.bmod (2 ^ 64)

/-- The byte at an index. -/
def byteAt (bytes : List Byte) (index : Int) : Option Byte := if 0 ≤ index then bytes[index.toNat]? else none

/-- The little-endian signed word at an index. -/
def int32At (bytes : List Byte) (index : Int) : Option Int := do
  let b0 ← byteAt bytes index
  let b1 ← byteAt bytes (wrap32 (index + 1))
  let b2 ← byteAt bytes (wrap32 (index + 2))
  let b3 ← byteAt bytes (wrap32 (index + 3))
  return wrap32 (leNat 4 [b0, b1, b2, b3])

/-- The little-endian signed half-word at an index. -/
def int16At (bytes : List Byte) (index : Int) : Option Int := do
  let b0 ← byteAt bytes index
  let b1 ← byteAt bytes (wrap32 (index + 1))
  return (leNat 2 [b0, b1] : Int).bmod (2 ^ 16)

/-! ## Numbers -/

section Numbers

variable {n : Int}

theorem wrap32_eq_self (hlo : -2 ^ 31 ≤ n) (hhi : n < 2 ^ 31) : wrap32 n = n :=
  Int.bmod_eq_of_le (by omega) (by omega)

theorem wrap32_of_le (hlo : 2 ^ 31 ≤ n) (hhi : n < 2 ^ 32 + 2 ^ 31) : wrap32 n = n - 2 ^ 32 := by
  rw [wrap32, ← Int.sub_bmod_right]
  exact wrap32_eq_self (by omega) (by omega)

theorem wrap32_add_wrap32 (m n : Int) : wrap32 (wrap32 m + wrap32 n) = wrap32 (m + n) := by
  rw [wrap32, wrap32, wrap32, wrap32, Int.bmod_add_bmod, Int.add_bmod_bmod]

theorem wrap32_bounds (n : Int) : -2 ^ 31 ≤ wrap32 n ∧ wrap32 n < 2 ^ 31 := by
  have hlo := Int.le_bmod (x := n) (m := 2 ^ 32) (by decide)
  have hhi := Int.bmod_lt (x := n) (m := 2 ^ 32) (by decide)
  rw [wrap32]
  omega

theorem wrap64_eq_self (hlo : -2 ^ 63 ≤ n) (hhi : n < 2 ^ 63) : wrap64 n = n :=
  Int.bmod_eq_of_le (by omega) (by omega)

theorem wrap64_bounds (n : Int) : -2 ^ 63 ≤ wrap64 n ∧ wrap64 n < 2 ^ 63 := by
  have hlo := Int.le_bmod (x := n) (m := 2 ^ 64) (by decide)
  have hhi := Int.bmod_lt (x := n) (m := 2 ^ 64) (by decide)
  rw [wrap64]
  omega

theorem wrap64_wrap64_add (m n : Int) : wrap64 (wrap64 m + n) = wrap64 (m + n) := Int.bmod_add_bmod

/-- What is left differs by a multiple. -/
theorem exists_wrap64_eq (n : Int) : ∃ k, wrap64 n = n + 2 ^ 64 * k := by
  refine ⟨-n.bdiv (2 ^ 64), ?_⟩
  rw [wrap64, Int.bmod_eq_self_sub_mul_bdiv, mul_neg, ← sub_eq_add_neg]
  rfl

theorem exists_wrap32_eq (n : Int) : ∃ k, wrap32 n = n + 2 ^ 32 * k := by
  refine ⟨-n.bdiv (2 ^ 32), ?_⟩
  rw [wrap32, Int.bmod_eq_self_sub_mul_bdiv, mul_neg, ← sub_eq_add_neg]
  rfl

theorem wrap32_wrap64 (n : Int) : wrap32 (wrap64 n) = wrap32 n := Int.bmod_bmod_of_dvd (by decide)

end Numbers

/-! ## Bytes -/

section Bytes

variable {bytes : List Byte} {off k : Nat} {index : Int}

theorem byteAt_of_lt (h : off < bytes.length) : byteAt bytes off = some (ofList bytes off) := by
  rw [byteAt, if_pos (Int.natCast_nonneg off), Int.toNat_natCast, ofList, List.getD_eq_getElem _ _ h]
  exact List.getElem?_eq_getElem h

theorem byteAt_eq_none_iff : byteAt bytes index = none ↔ index < 0 ∨ (bytes.length : Int) ≤ index := by
  rw [byteAt]
  split
  · rw [List.getElem?_eq_none_iff]
    omega
  · exact iff_of_true rfl (.inl (by omega))

variable (hsize : bytes.length < 2 ^ 31)

include hsize

theorem byteAt_add (h : off + k < bytes.length) : byteAt bytes (wrap32 (off + k)) = some (ofList bytes (off + k)) := by
  rw [wrap32_eq_self (by omega) (by omega)]
  exact byteAt_of_lt h

theorem int16At_eq (h : off + 2 ≤ bytes.length) :
    int16At bytes off = some ((leNat 2 (slice (ofList bytes) off 2) : Int).bmod (2 ^ 16)) := by
  have h1 : byteAt bytes (wrap32 ((off : Int) + (1 : Nat))) = _ := byteAt_add hsize (by omega)
  rw [int16At, byteAt_of_lt (by omega)]
  simp only [Nat.cast_one] at h1
  simp only [h1]
  rfl

theorem int32At_eq (h : off + 4 ≤ bytes.length) :
    int32At bytes off = some (wrap32 (leNat 4 (slice (ofList bytes) off 4))) := by
  have h1 : byteAt bytes (wrap32 ((off : Int) + (1 : Nat))) = _ := byteAt_add hsize (by omega)
  have h2 : byteAt bytes (wrap32 ((off : Int) + (2 : Nat))) = _ := byteAt_add hsize (by omega)
  have h3 : byteAt bytes (wrap32 ((off : Int) + (3 : Nat))) = _ := byteAt_add hsize (by omega)
  rw [int32At, byteAt_of_lt (by omega)]
  simp only [Nat.cast_one, Nat.cast_ofNat] at h1 h2 h3
  simp only [h1, h2, h3]
  rfl

omit hsize in
/-- A word that does not end in the array is not read. -/
theorem int32At_eq_none (hlo : -2 ^ 31 ≤ index) (hhi : index < 2 ^ 31)
    (h : index < 0 ∨ (bytes.length : Int) < index + 4) : int32At bytes index = none := by
  rw [int32At]
  by_cases hneg : index < 0
  · rw [byteAt_eq_none_iff.mpr (.inl hneg)]
    rfl
  · -- the last byte is not read
    have hlast : byteAt bytes (wrap32 (index + 3)) = none := by
      refine byteAt_eq_none_iff.mpr ?_
      by_cases hint : index + 3 < 2 ^ 31
      · rw [wrap32_eq_self (by omega) hint]
        omega
      · rw [wrap32_of_le (by omega) (by omega)]
        omega
    rw [hlast]
    simp only [Option.bind_eq_bind, Option.bind_none, Option.bind_fun_none]

end Bytes

end Lib

import Ps5Debugger.Lib.Bytes

/-!
# Integer types of C

The values of an integer type of C are integers of its range. A value is loaded from its bytes, operands
narrower than `int` are promoted to it, and a result is converted to its type. At one type, adding and
subtracting come down to the bits, whatever was promoted before the conversion (`conv_promoted_conv`,
`value_add`, `value_sub`). An overflow of a signed type wraps here.
-/

namespace Lib

/-- An integer type, of a number of bytes. -/
structure CIntType where
  bytes : Nat
  signed : Bool

namespace CIntType

/-- `int` -/
def int : CIntType := ⟨4, true⟩

variable (t : CIntType)

/-- The width. -/
def width : Nat := 8 * t.bytes

/-- The value of bits. -/
def value (b : BitVec t.width) : Int := if t.signed then b.toInt else b.toNat

/-- The bits that are stored at the front of bytes. -/
def bits (p : List Byte) : BitVec t.width := BitVec.ofNat t.width (leNat t.bytes p)

/-- A load. -/
def load (p : List Byte) : Int := t.value (t.bits p)

/-- A conversion to the type. -/
def conv (x : Int) : Int := if t.signed then x.bmod (2 ^ t.width) else x % 2 ^ t.width

/-- The type of an operand: `int`, if the type is narrower. -/
def promoted : CIntType := if t.bytes < int.bytes then int else t

theorem value_inj {a b : BitVec t.width} : t.value a = t.value b ↔ a = b := by
  rw [value, value]
  split
  · exact BitVec.toInt_inj
  · rw [Int.ofNat_inj]
    exact BitVec.toNat_inj

theorem value_add (a b : BitVec t.width) : t.value (a + b) = t.conv (t.value a + t.value b) := by
  rw [value, value, value, conv]
  split
  · exact BitVec.toInt_add a b
  · rw [BitVec.toNat_add]
    push_cast
    rfl

theorem value_sub (a b : BitVec t.width) : t.value (a - b) = t.conv (t.value a - t.value b) := by
  rw [value, value, value, conv]
  split
  · exact BitVec.toInt_sub
  · have hb := b.isLt
    rw [BitVec.toNat_sub, Int.natCast_mod, Int.natCast_add, Int.ofNat_sub hb.le]
    have hshift : ((2 ^ t.width : Nat) : Int) - b.toNat + a.toNat = a.toNat - b.toNat + (2 ^ t.width : Nat) := by ring
    rw [hshift, Int.add_emod_right]
    push_cast
    rfl

/-- A conversion keeps the residue. -/
theorem conv_emod (x : Int) : t.conv x % (2 ^ t.width : Nat) = x % (2 ^ t.width : Nat) := by
  rw [conv]
  split
  · exact Int.bmod_emod
  · rw [← Nat.cast_ofNat, ← Nat.cast_pow, Int.emod_emod]

/-- A conversion looks at the residue only. -/
theorem conv_congr {x y : Int} (h : x % (2 ^ t.width : Nat) = y % (2 ^ t.width : Nat)) : t.conv x = t.conv y := by
  rw [conv, conv]
  split
  · rw [← Int.emod_bmod x, h, Int.emod_bmod]
  · rw [Nat.cast_pow, Nat.cast_ofNat] at h
    exact h

/-- A conversion to a type through a wider one. -/
theorem conv_conv {t u : CIntType} (h : t.bytes ≤ u.bytes) (x : Int) : t.conv (u.conv x) = t.conv x := by
  have hdvd : ((2 ^ t.width : Nat) : Int) ∣ ((2 ^ u.width : Nat) : Int) :=
    Int.natCast_dvd_natCast.mpr (Nat.pow_dvd_pow 2 (Nat.mul_le_mul_left 8 h))
  apply conv_congr
  rw [← Int.emod_emod_of_dvd (u.conv x) hdvd, conv_emod, Int.emod_emod_of_dvd x hdvd]

theorem bytes_le_promoted : t.bytes ≤ t.promoted.bytes := by
  rw [promoted]
  split
  · rename_i h
    exact h.le
  · exact le_refl _

/-- What is computed at the promoted type and converted back is computed at the type. -/
theorem conv_promoted_conv (x : Int) : t.conv (t.promoted.conv x) = t.conv x := conv_conv t.bytes_le_promoted x

end CIntType

end Lib

import Ps5Debugger.Lib.Bytes

/-!
# A store split between RAM and a file

The first `ramBytes` bytes of the store are kept in RAM, the rest in a file. A range may lie
on either side or across the split. `flat` is the store as one buffer; reads and writes of
ranges are slices and copies of it.
-/

namespace Lib

/-- The two halves of a store. -/
structure SplitStore where
  ram : Buf
  ramBytes : Nat
  file : Buf

namespace SplitStore

variable (s : SplitStore)

/-- The store as one buffer. -/
def flat : Buf := fun x => if x < s.ramBytes then s.ram x else s.file (x - s.ramBytes)

/-- Copy the range at `off` of `len` bytes into `dst`. -/
def read (dst : Buf) (off len : Nat) : Buf :=
  if off ≥ s.ramBytes then blit dst 0 (view s.file (off - s.ramBytes)) len
  else if off + len ≤ s.ramBytes then blit dst 0 (view s.ram off) len
  else
    let a := s.ramBytes - off
    blit (blit dst 0 (view s.ram off) a) a s.file (len - a)

/-- Write `len` bytes of `src` at `off`. -/
def write (src : Buf) (off len : Nat) : SplitStore :=
  if off ≥ s.ramBytes then { s with file := blit s.file (off - s.ramBytes) src len }
  else if off + len ≤ s.ramBytes then { s with ram := blit s.ram off src len }
  else
    let a := s.ramBytes - off
    { s with ram := blit s.ram off src a, file := blit s.file 0 (view src a) (len - a) }

@[simp] theorem write_ramBytes (src : Buf) (off len : Nat) :
    (s.write src off len).ramBytes = s.ramBytes := by
  rw [write]
  split
  · rfl
  · split <;> rfl

/-- A read shows the flat store. -/
theorem read_apply (dst : Buf) {off len i : Nat} (hi : i < len) :
    s.read dst off len i = s.flat (off + i) := by
  rw [read, flat]
  split
  · rw [if_neg (by omega), blit_zero_of_lt hi, view_apply]
    congr 1
    omega
  · split
    · rw [if_pos (by omega), blit_zero_of_lt hi, view_apply]
    · -- across the split
      rcases Nat.lt_or_ge i (s.ramBytes - off) with hlt | hge
      · rw [if_pos (by omega), blit_outside (.inl hlt), blit_zero_of_lt hlt, view_apply]
      · obtain ⟨y, rfl⟩ := Nat.exists_eq_add_of_le hge
        rw [if_neg (by omega), blit_inside (by omega)]
        congr 1
        omega

/-- A copy into the RAM half. -/
theorem flat_ram (src : Buf) {off len : Nat} (h : off + len ≤ s.ramBytes) :
    ({ s with ram := blit s.ram off src len } : SplitStore).flat = blit s.flat off src len := by
  funext x
  simp only [flat, blit]
  by_cases hx : off ≤ x ∧ x < off + len
  · simp only [if_pos hx, if_pos (show x < s.ramBytes by omega)]
  · simp only [if_neg hx]

/-- A write is a copy into the flat store. -/
theorem flat_write (src : Buf) (off len : Nat) :
    (s.write src off len).flat = blit s.flat off src len := by
  rw [write]
  split
  · next hge =>
    funext x
    simp only [flat, blit]
    by_cases hx : off ≤ x ∧ x < off + len
    · rw [if_neg (by omega), if_pos (by omega), if_pos hx]
      congr 1
      omega
    · rw [if_neg hx]
      split
      · rfl
      · rw [if_neg (by omega)]
  · split
    · next h => exact s.flat_ram src h
    · funext x
      simp only [flat, blit, view]
      by_cases hx : off ≤ x ∧ x < off + len
      · rw [if_pos hx]
        by_cases hr : x < s.ramBytes
        · rw [if_pos hr, if_pos (by omega)]
        · rw [if_neg hr, if_pos (by omega)]
          congr 1
          omega
      · rw [if_neg hx]
        by_cases hr : x < s.ramBytes
        · rw [if_pos hr, if_pos hr, if_neg (by omega)]
        · rw [if_neg hr, if_neg hr, if_neg (by omega)]

end SplitStore

end Lib

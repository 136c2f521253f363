import Ps5Debugger.Lib.Bytes

/-!
# Arrays that grow by copying

An array of a managed language: a size and an element at each index. `copyOf` makes a longer or
shorter copy, filled up with a default; `patch` is `System.arraycopy` from a list of bytes. What
is stored beyond the size is never looked at by a program that stays inside its arrays, so the
lemmas speak of indices below it.
-/

namespace Lib

variable {α : Type}

/-- An array. -/
structure Arr (α : Type) where
  size : Nat
  get : Nat → α

namespace Arr

/-- A new array. -/
def new (z : α) (n : Nat) : Arr α := ⟨n, fun _ => z⟩

/-- `copyOf(n)`. -/
def copyOf (z : α) (a : Arr α) (n : Nat) : Arr α := ⟨n, fun i => if i < a.size then a.get i else z⟩

/-- `a[i] = x`, inside the array. -/
def set (a : Arr α) (i : Nat) (x : α) : Arr α := ⟨a.size, Function.update a.get i x⟩

/-- `arraycopy(bytes, 0, a, off, bytes.size)`, inside the array. -/
def patch (a : Arr Byte) (off : Nat) (bytes : List Byte) : Arr Byte :=
  ⟨a.size, blit a.get off (ofList bytes) bytes.length⟩

/-- `arraycopy(src, srcPos, a, destPos, len)`, inside both. -/
def arraycopy (src : List α) (srcPos : Nat) (a : Arr α) (destPos len : Nat) : Arr α :=
  ⟨a.size, fun i => if destPos ≤ i ∧ i < destPos + len then src.getD (srcPos + (i - destPos)) (a.get i) else a.get i⟩

/-- `copyOfRange(off, off + len)`. -/
def range (a : Arr Byte) (off len : Nat) : List Byte := slice a.get off len

@[simp] theorem size_new (z : α) (n : Nat) : (new z n).size = n := rfl
@[simp] theorem size_copyOf (z : α) (a : Arr α) (n : Nat) : (a.copyOf z n).size = n := rfl
@[simp] theorem size_set (a : Arr α) (i : Nat) (x : α) : (a.set i x).size = a.size := rfl
@[simp] theorem size_patch (a : Arr Byte) (off : Nat) (bytes : List Byte) :
    (a.patch off bytes).size = a.size := rfl

@[simp] theorem size_arraycopy (src : List α) (srcPos : Nat) (a : Arr α) (destPos len : Nat) :
    (arraycopy src srcPos a destPos len).size = a.size := rfl

/-- Inside the copy one reads the source. -/
theorem get_arraycopy_inside {src : List α} {srcPos destPos len i : Nat} {a : Arr α}
    (hi : destPos ≤ i ∧ i < destPos + len) (hsrc : srcPos + len ≤ src.length) :
    src[srcPos + (i - destPos)]? = some ((arraycopy src srcPos a destPos len).get i) := by
  have hlt : srcPos + (i - destPos) < src.length := by omega
  have hget : (arraycopy src srcPos a destPos len).get i = src.getD (srcPos + (i - destPos)) (a.get i) := if_pos hi
  rw [hget, List.getD_eq_getElem?_getD, List.getElem?_eq_getElem hlt, Option.getD_some]

/-- Outside the copy nothing changes. -/
theorem get_arraycopy_outside {src : List α} {srcPos destPos len i : Nat} {a : Arr α}
    (hi : ¬ (destPos ≤ i ∧ i < destPos + len)) : (arraycopy src srcPos a destPos len).get i = a.get i :=
  if_neg hi

@[simp] theorem get_set_self (a : Arr α) (i : Nat) (x : α) : (a.set i x).get i = x :=
  Function.update_self (β := fun _ => α) i x a.get

theorem get_set_ne (a : Arr α) {i j : Nat} (x : α) (h : j ≠ i) : (a.set i x).get j = a.get j :=
  Function.update_of_ne (β := fun _ => α) h x a.get

theorem get_copyOf {z : α} {a : Arr α} {n i : Nat} (h : i < a.size) : (a.copyOf z n).get i = a.get i :=
  if_pos h

theorem range_copyOf {z : Byte} {a : Arr Byte} {n off len : Nat} (h : off + len ≤ a.size) :
    (a.copyOf z n).range off len = a.range off len :=
  slice_eq_iff.mpr fun _ _ => get_copyOf (by omega)

/-- What was copied in is found there. -/
theorem range_patch_self (a : Arr Byte) (off : Nat) (bytes : List Byte) :
    (a.patch off bytes).range off bytes.length = bytes := by
  have h : slice (blit a.get off (ofList bytes) bytes.length) (off + 0) bytes.length = bytes :=
    (slice_blit_inside (by omega)).trans (slice_ofList bytes)
  exact h

/-- Before and behind the copy nothing changes. -/
theorem range_patch_of_disjoint {a : Arr Byte} {off o n : Nat} {bytes : List Byte}
    (h : o + n ≤ off ∨ off + bytes.length ≤ o) : (a.patch off bytes).range o n = a.range o n :=
  slice_blit_outside h

end Arr

end Lib

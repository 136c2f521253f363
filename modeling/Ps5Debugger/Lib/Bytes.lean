import Mathlib.Data.List.Basic
import Mathlib.Tactic.Ring

/-!
# Byte buffers, `memcpy`, little-endian words

The bottom of every model of C code that moves bytes around. A buffer is a total
function from offsets to bytes, so that a pointer is a buffer (`view`) and a read
outside what was written is a read of *some* byte, not an error: the models say
which bytes those are, and the theorems say when no such byte is looked at.

* `blit` — `memcpy`; the two rules are "inside the copy" and "outside the copy".
* `slice` — the bytes of a range as a list, the form in which values are compared
  and stored.
* `leNat` / `leBytes` — little-endian words; reads past the end of the list see
  zeros.
* `u32` / `u64` / `subU64` — the wrap of unsigned arithmetic.
-/

namespace Lib

/-- A byte of memory. -/
abbrev Byte : Type := BitVec 8

/-- A buffer, seen from a pointer into it: the byte at each offset. -/
abbrev Buf : Type := Nat → Byte

/-- Pointer arithmetic: the buffer `b` seen from `b + off`. -/
def view (b : Buf) (off : Nat) : Buf := fun i => b (off + i)

@[simp] theorem view_apply (b : Buf) (off i : Nat) : view b off i = b (off + i) := rfl

/-! ## Copies -/

/-- `memcpy(dst + off, src, len)`. -/
def blit (dst : Buf) (off : Nat) (src : Buf) (len : Nat) : Buf :=
  fun i => if off ≤ i ∧ i < off + len then src (i - off) else dst i

/-- Inside the copied range one reads the source. -/
theorem blit_inside {dst src : Buf} {off len i : Nat} (hi : i < len) :
    blit dst off src len (off + i) = src i := by
  have hin : off ≤ off + i ∧ off + i < off + len := by omega
  rw [blit, if_pos hin, Nat.add_sub_cancel_left]

/-- Outside the copied range nothing changes. -/
theorem blit_outside {dst src : Buf} {off len i : Nat} (hi : i < off ∨ off + len ≤ i) :
    blit dst off src len i = dst i := by
  rw [blit, if_neg (by omega)]

/-- A copy to the front of a buffer. -/
theorem blit_zero_of_lt {dst src : Buf} {len i : Nat} (hi : i < len) :
    blit dst 0 src len i = src i := by
  rw [blit, if_pos (by omega), Nat.sub_zero]

/-- A copy, seen from a base that both offsets are measured from. -/
theorem blit_add (dst src : Buf) (base off len x : Nat) :
    blit dst (base + off) src len (base + x) =
      if off ≤ x ∧ x < off + len then src (x - off) else dst (base + x) := by
  by_cases h : off ≤ x ∧ x < off + len
  · obtain ⟨y, rfl⟩ := Nat.exists_eq_add_of_le h.1
    rw [if_pos h, ← Nat.add_assoc, blit_inside (by omega), Nat.add_sub_cancel_left]
  · rw [if_neg h, blit_outside (by omega)]

/-! ## Slices -/

/-- The `len` bytes of `b` at offset `off`. -/
def slice (b : Buf) (off len : Nat) : List Byte := (List.range len).map fun i => b (off + i)

@[simp] theorem length_slice (b : Buf) (off len : Nat) : (slice b off len).length = len := by
  simp [slice]

theorem getElem?_slice (b : Buf) (off len i : Nat) :
    (slice b off len)[i]? = if i < len then some (b (off + i)) else none := by
  by_cases hi : i < len
  · simp [slice, hi]
  · rw [if_neg hi]
    exact List.getElem?_eq_none (by rw [length_slice]; omega)

theorem getD_slice {b : Buf} {off len i : Nat} (hi : i < len) :
    (slice b off len).getD i 0 = b (off + i) := by
  rw [List.getD_eq_getElem?_getD, getElem?_slice, if_pos hi, Option.getD_some]

/-- Two slices agree exactly when their bytes do. -/
theorem slice_eq_iff {b b' : Buf} {off off' len : Nat} :
    slice b off len = slice b' off' len ↔ ∀ i < len, b (off + i) = b' (off' + i) := by
  constructor
  · intro h i hi
    rw [← getD_slice (b := b) hi, h, getD_slice hi]
  · intro h
    apply List.map_congr_left
    intro i hi
    exact h i (List.mem_range.mp hi)

theorem slice_view (b : Buf) (off off' len : Nat) :
    slice (view b off) off' len = slice b (off + off') len :=
  slice_eq_iff.mpr fun i _ => by rw [view_apply, Nat.add_assoc]

theorem slice_view_zero (b : Buf) (off len : Nat) : slice (view b off) 0 len = slice b off len :=
  slice_view b off 0 len

theorem slice_append_slice (b : Buf) (off m n : Nat) :
    slice b off (m + n) = slice b off m ++ slice b (off + m) n := by
  simp [slice, List.range_add, Nat.add_assoc]

theorem drop_slice (b : Buf) (off len k : Nat) : (slice b off len).drop k = slice b (off + k) (len - k) := by
  apply List.ext_getElem?
  intro i
  rw [List.getElem?_drop, getElem?_slice, getElem?_slice, Nat.add_assoc]
  exact if_congr (by omega) rfl rfl

theorem take_slice (b : Buf) (off len k : Nat) : (slice b off len).take k = slice b off (min k len) := by
  apply List.ext_getElem?
  intro i
  rw [List.getElem?_take, getElem?_slice, getElem?_slice, ← ite_and]
  exact if_congr (by omega) rfl rfl

/-- A slice that lies inside a copy is a slice of the source. -/
theorem slice_blit_inside {dst src : Buf} {off len k n : Nat} (hk : k + n ≤ len) :
    slice (blit dst off src len) (off + k) n = slice src k n := by
  refine slice_eq_iff.mpr fun i hi => ?_
  rw [Nat.add_assoc]
  exact blit_inside (by omega)

/-- A slice that a copy does not touch is unchanged. -/
theorem slice_blit_outside {dst src : Buf} {off len o n : Nat}
    (h : o + n ≤ off ∨ off + len ≤ o) : slice (blit dst off src len) o n = slice dst o n :=
  slice_eq_iff.mpr fun _ _ => blit_outside (by omega)

/-- A buffer as an array of slots of `v` bytes: copying `m` slots to slot `g`. -/
theorem slice_blit_slots (dst src : Buf) (v g m x : Nat) :
    slice (blit dst (g * v) src (m * v)) (x * v) v =
      if g ≤ x ∧ x < g + m then slice src ((x - g) * v) v else slice dst (x * v) v := by
  split
  · next h =>
    obtain ⟨y, rfl⟩ := Nat.exists_eq_add_of_le h.1
    have hmul : (y + 1) * v ≤ m * v := Nat.mul_le_mul_right _ (by omega)
    rw [Nat.succ_mul] at hmul
    rw [Nat.add_mul, Nat.add_sub_cancel_left, slice_blit_inside hmul]
  · next h =>
    refine slice_blit_outside ?_
    rcases Nat.lt_or_ge x g with hlt | hge
    · have hmul : (x + 1) * v ≤ g * v := Nat.mul_le_mul_right _ hlt
      rw [Nat.succ_mul] at hmul
      exact .inl hmul
    · have hmul : (g + m) * v ≤ x * v := Nat.mul_le_mul_right _ (by omega)
      rw [Nat.add_mul] at hmul
      exact .inr hmul

/-- Copying one slot. -/
theorem slice_blit_slot (dst src : Buf) (v g x : Nat) :
    slice (blit dst (g * v) src v) (x * v) v = if x = g then slice src 0 v else slice dst (x * v) v := by
  have h := slice_blit_slots dst src v g 1 x
  rw [Nat.one_mul] at h
  rw [h]
  by_cases hx : x = g
  · subst hx
    rw [if_pos (by omega), if_pos rfl, Nat.sub_self, Nat.zero_mul]
  · rw [if_neg (by omega), if_neg hx]

/-- A list of bytes as a buffer; past its end one reads zeros. -/
def ofList (l : List Byte) : Buf := fun i => l.getD i 0

theorem slice_ofList (l : List Byte) : slice (ofList l) 0 l.length = l := by
  apply List.ext_getElem?
  intro i
  rw [getElem?_slice]
  by_cases hi : i < l.length
  · simp [ofList, hi]
  · rw [if_neg hi, List.getElem?_eq_none (by omega)]

theorem ofList_append_add (a b : List Byte) (i : Nat) : ofList (a ++ b) (a.length + i) = ofList b i := by
  rw [ofList, ofList, List.getD_eq_getElem?_getD, List.getElem?_append_right (Nat.le_add_right _ _),
    Nat.add_sub_cancel_left, List.getD_eq_getElem?_getD]

/-! ## Little-endian words -/

/-- The unsigned little-endian word of the first `n` bytes. -/
def leNat : Nat → List Byte → Nat
  | 0, _ => 0
  | n + 1, p => (p.headD 0).toNat + 256 * leNat n p.tail

theorem leNat_lt : ∀ (n : Nat) (p : List Byte), leNat n p < 256 ^ n
  | 0, _ => by simp [leNat]
  | n + 1, p => by
    have ih := leNat_lt n p.tail
    have hb : (p.headD 0).toNat < 256 := (p.headD 0).isLt
    rw [leNat, Nat.pow_succ]
    omega

/-- Words are equal exactly when their bytes are. -/
theorem leNat_inj : ∀ (n : Nat) (p q : List Byte),
    leNat n p = leNat n q ↔ ∀ j < n, p.getD j 0 = q.getD j 0
  | 0, _, _ => by simp [leNat]
  | n + 1, p, q => by
    have hp : (p.headD 0).toNat < 256 := (p.headD 0).isLt
    have hq : (q.headD 0).toNat < 256 := (q.headD 0).isLt
    have head (l : List Byte) : l.headD 0 = l.getD 0 0 := by cases l <;> rfl
    have tail (l : List Byte) (j : Nat) : l.tail.getD j 0 = l.getD (j + 1) 0 := by cases l <;> simp
    rw [leNat, leNat]
    constructor
    · intro h j hj
      have hhead : (p.headD 0).toNat = (q.headD 0).toNat := by omega
      have htail : leNat n p.tail = leNat n q.tail := by omega
      cases j with
      | zero => rw [← head, ← head]; exact BitVec.eq_of_toNat_eq hhead
      | succ j =>
        have := (leNat_inj n p.tail q.tail).mp htail j (by omega)
        rwa [tail, tail] at this
    · intro h
      have hhead : p.headD 0 = q.headD 0 := by rw [head, head]; exact h 0 (by omega)
      have htail : leNat n p.tail = leNat n q.tail :=
        (leNat_inj n p.tail q.tail).mpr fun j hj => by
          rw [tail, tail]; exact h (j + 1) (by omega)
      rw [hhead, htail]

/-- The `n` little-endian bytes of `x`. -/
def leBytes : Nat → Nat → List Byte
  | 0, _ => []
  | n + 1, x => BitVec.ofNat 8 x :: leBytes n (x / 256)

@[simp] theorem length_leBytes : ∀ n x : Nat, (leBytes n x).length = n
  | 0, _ => rfl
  | n + 1, x => by rw [leBytes, List.length_cons, length_leBytes n]

/-- Storing a word and loading it back reduces it to its width. -/
theorem leNat_leBytes : ∀ n x : Nat, leNat n (leBytes n x) = x % 256 ^ n
  | 0, x => by simp [leNat, Nat.mod_one]
  | n + 1, x => by
    have hsplit : x % 256 ^ (n + 1) = x % 256 + 256 * (x / 256 % 256 ^ n) := by
      rw [Nat.pow_succ', Nat.mod_mul]
    rw [leBytes, leNat, List.headD_cons, List.tail_cons, leNat_leBytes n, BitVec.toNat_ofNat,
      hsplit]

/-- A load looks at its own bytes only. -/
theorem leNat_append {n : Nat} {p : List Byte} (q : List Byte) (h : n ≤ p.length) :
    leNat n (p ++ q) = leNat n p := by
  refine (leNat_inj n _ _).mpr fun j hj => ?_
  rw [List.getD_eq_getElem?_getD, List.getD_eq_getElem?_getD, List.getElem?_append_left (by omega)]

theorem leNat_take (n : Nat) (p : List Byte) : leNat n (p.take n) = leNat n p := by
  refine (leNat_inj n _ _).mpr fun j hj => ?_
  rw [List.getD_eq_getElem?_getD, List.getD_eq_getElem?_getD, List.getElem?_take_of_lt hj]

/-- A word at the front of a stream. -/
theorem leNat_leBytes_append {n x : Nat} (hx : x < 256 ^ n) (t : List Byte) :
    leNat n (leBytes n x ++ t) = x := by
  rw [leNat_append _ (by rw [length_leBytes]), leNat_leBytes, Nat.mod_eq_of_lt hx]

theorem drop_leBytes (n x : Nat) (t : List Byte) : (leBytes n x ++ t).drop n = t :=
  List.drop_left' (length_leBytes n x)

theorem length_flatMap_leBytes (v : Nat) : ∀ ws : List Nat, (ws.flatMap (leBytes v)).length = ws.length * v
  | [] => by simp
  | w :: ws => by
    rw [List.flatMap_cons, List.length_append, length_leBytes, length_flatMap_leBytes v ws, List.length_cons]
    ring

/-- Words that are stored one after the other. -/
theorem slice_ofList_words (v : Nat) : ∀ (ws : List Nat) {x : Nat}, x < ws.length →
    slice (ofList (ws.flatMap (leBytes v))) (x * v) v = leBytes v (ws.getD x 0)
  | [], _, hx => absurd hx (Nat.not_lt_zero _)
  | w :: ws, 0, _ => by
    have hword := slice_ofList (leBytes v w)
    rw [length_leBytes] at hword
    rw [List.flatMap_cons, Nat.zero_mul, List.getD_cons_zero]
    refine (slice_eq_iff.mpr fun i hi => ?_).trans hword
    rw [Nat.zero_add, ofList, ofList, List.getD_eq_getElem?_getD,
      List.getElem?_append_left (by rw [length_leBytes]; exact hi), List.getD_eq_getElem?_getD]
  | w :: ws, x + 1, hx => by
    rw [List.flatMap_cons, List.getD_cons_succ, ← slice_ofList_words v ws (Nat.lt_of_succ_lt_succ hx)]
    refine slice_eq_iff.mpr fun i _ => ?_
    have hshift := ofList_append_add (leBytes v w) (ws.flatMap (leBytes v)) (x * v + i)
    rw [length_leBytes] at hshift
    rw [← hshift]
    congr 1
    ring

/-- Loading a word and storing it back gives its bytes. -/
theorem leBytes_leNat : ∀ (n : Nat) (p : List Byte), p.length = n → leBytes n (leNat n p) = p
  | 0, p, h => by rw [List.eq_nil_of_length_eq_zero h]; rfl
  | n + 1, [], h => by cases h
  | n + 1, b :: p, h => by
    have ih := leBytes_leNat n p (Nat.succ.inj h)
    have hb : b.toNat < 256 := b.isLt
    have hhead : BitVec.ofNat 8 (b.toNat + 256 * leNat n p) = b := by
      apply BitVec.eq_of_toNat_eq
      rw [BitVec.toNat_ofNat]
      omega
    have htail : (b.toNat + 256 * leNat n p) / 256 = leNat n p := by omega
    rw [leNat, leBytes, List.headD_cons, List.tail_cons, hhead, htail, ih]

/-! ## Unsigned arithmetic -/

/-- The wrap of a 64-bit unsigned result. -/
def u64 (n : Nat) : Nat := n % 2 ^ 64

/-- The wrap of a 32-bit unsigned result. -/
def u32 (n : Nat) : Nat := n % 2 ^ 32

/-- 64-bit unsigned subtraction. -/
def subU64 (a b : Nat) : Nat := (a + (2 ^ 64 - b)) % 2 ^ 64

theorem u64_of_lt {n : Nat} (h : n < 2 ^ 64) : u64 n = n := Nat.mod_eq_of_lt h

theorem u32_of_lt {n : Nat} (h : n < 2 ^ 32) : u32 n = n := Nat.mod_eq_of_lt h

theorem u64_lt (n : Nat) : u64 n < 2 ^ 64 := Nat.mod_lt _ (by decide)

/-- Without a borrow, subtraction is subtraction. -/
theorem subU64_of_le {a b : Nat} (hba : b ≤ a) (ha : a < 2 ^ 64) : subU64 a b = a - b := by
  rw [subU64]
  omega

/-- With a borrow, subtraction comes back from the top of the range. -/
theorem subU64_of_lt {a b : Nat} (hab : a < b) (hb : b ≤ 2 ^ 64) :
    subU64 a b = 2 ^ 64 - (b - a) := by
  rw [subU64]
  omega

end Lib

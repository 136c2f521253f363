import Ps5Debugger.Lib.Bytes

/-!
# Files read and written in parts

A read or a write of a file may move fewer bytes than it was asked for. How many is up to the system: a call
moves some of the bytes that it can move, and none only where there are none (`PartialIo`). A transfer that is
continued behind what was moved is one copy in the end (`blit_blit`).
-/

namespace Lib

/-- A file. Behind its end there are zeros, which is what a write further on leaves in between. -/
structure File where
  bytes : Buf
  size : Nat
  /-- behind the end -/
  beyond : ∀ x, size ≤ x → bytes x = 0

/-- How many bytes each call moves of those that it can move. -/
structure PartialIo where
  moved : Nat → Nat → Nat
  le : ∀ call n, moved call n ≤ n
  pos : ∀ call n, 0 < n → 0 < moved call n

variable {b src : Buf} {off m n : Nat}

theorem view_view (b : Buf) (m n : Nat) : view (view b m) n = view b (m + n) := by
  funext x
  rw [view_apply, view_apply, view_apply, Nat.add_assoc]

theorem view_zero (b : Buf) : view b 0 = b := by
  funext x
  rw [view_apply, Nat.zero_add]

/-- A copy that is continued. -/
theorem blit_blit : blit (blit b off src m) (off + m) (view src m) n = blit b off src (m + n) := by
  funext x
  rcases Nat.lt_or_ge x (off + m) with hlt | hge
  · rw [blit_outside (.inl hlt), blit, blit]
    exact if_congr (by omega) rfl rfl
  · obtain ⟨y, rfl⟩ := Nat.exists_eq_add_of_le hge
    by_cases hy : y < n
    · rw [blit_inside hy, view_apply, Nat.add_assoc, blit_inside (by omega)]
    · rw [blit_outside (.inr (by omega)), blit_outside (.inr (by omega)), blit_outside (.inr (by omega))]

theorem blit_zero (b : Buf) (off : Nat) (src : Buf) : blit b off src 0 = b := by
  funext x
  exact blit_outside (by omega)

namespace File

/-- Bytes put into a file. -/
def store (f : File) (off : Nat) (src : Buf) (n : Nat) : File where
  bytes := blit f.bytes off src n
  size := if n = 0 then f.size else max f.size (off + n)
  beyond := fun x hx => by
    split at hx
    · rename_i hzero
      rw [hzero, blit_zero]
      exact f.beyond x hx
    · rw [blit_outside (.inr (by omega))]
      exact f.beyond x (by omega)

/-- `pread`: how many bytes were read, and the buffer then. None are read at the end of the file. -/
def pread (io : PartialIo) (call : Nat) (f : File) (dst : Buf) (pos n off : Nat) : Nat × Buf :=
  let r := io.moved call (min n (f.size - off))
  (r, blit dst pos (view f.bytes off) r)

/-- `pwrite`: how many bytes were written, and the file then. -/
def pwrite (io : PartialIo) (call : Nat) (f : File) (src : Buf) (n off : Nat) : Nat × File :=
  let w := io.moved call n
  (w, f.store off src w)

theorem size_le_store (f : File) (off : Nat) (src : Buf) (n : Nat) : f.size ≤ (f.store off src n).size := by
  rw [store]
  dsimp only
  split
  · exact le_refl _
  · exact le_max_left _ _

theorem store_size_of_pos (f : File) (off : Nat) (src : Buf) (hn : 0 < n) : off + n ≤ (f.store off src n).size := by
  rw [store]
  dsimp only
  rw [if_neg (by omega)]
  exact le_max_right _ _

end File

end Lib

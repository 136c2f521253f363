import Ps5Debugger.Lib.PartialIo
import Ps5Debugger.Lib.SplitStore

/-!
# The store of a snapshot

The baseline of a snapshot lies in RAM up to `ram_bytes`, and in a file from there on (`scan_turbo.c`).
`snap_store_read` and `snap_store_write` move a range that lies on one side or across the boundary, and repeat
file calls that move a part of it.

`store_is_flat`: whatever was written before it is read comes back as from one array of bytes.
-/

namespace Ps5Debugger

open Lib

namespace SnapStore

variable {io : PartialIo} {f : File} {dst src : Buf} {call pos len foff off : Nat}

/-! ## The file -/

/-- `fs_pread_all` into `dst + pos`, from `off` on: the buffer and the number of the next call, if all is read. -/
def fsPreadAll (io : PartialIo) (f : File) (call : Nat) (dst : Buf) (pos len foff off : Nat) : Option (Buf × Nat) :=
  if off < len then
    match f.pread io call dst (pos + off) (len - off) (foff + off) with
    | (0, _) => none
    | (r + 1, dst) => fsPreadAll io f (call + 1) dst pos len foff (off + (r + 1))
  else some (dst, call)
termination_by len - off

/-- `fs_pwrite_all`, from `off` on. -/
def fsPwriteAll (io : PartialIo) (f : File) (call : Nat) (src : Buf) (len foff off : Nat) : Option (File × Nat) :=
  if off < len then
    match f.pwrite io call (view src off) (len - off) (foff + off) with
    | (0, _) => none
    | (w + 1, f) => fsPwriteAll io f (call + 1) src len foff (off + (w + 1))
  else some (f, call)
termination_by len - off

/-- What is inside the file is read, however the calls divide it. -/
theorem fsPreadAll_eq (hsize : off < len → foff + len ≤ f.size) (hoff : off ≤ len) :
    ∃ call', fsPreadAll io f call dst pos len foff off =
      some (blit dst (pos + off) (view f.bytes (foff + off)) (len - off), call') := by
  induction hn : len - off using Nat.strong_induction_on generalizing off dst call with
  | _ n ih =>
    rw [fsPreadAll]
    split
    · rename_i hlt
      have hend := hsize hlt
      have hmin : min (len - off) (f.size - (foff + off)) = len - off := min_eq_left (by omega)
      have hle := io.le call (len - off)
      obtain ⟨r, hr⟩ := Nat.exists_eq_add_of_lt (io.pos call (len - off) (by omega))
      rw [Nat.zero_add] at hr
      rw [File.pread, hmin, hr]
      obtain ⟨call', h⟩ := ih (len - (off + (r + 1))) (by omega) (fun _ => hend) (by omega) rfl
      refine ⟨call', h.trans ?_⟩
      have hnext : view f.bytes (foff + (off + (r + 1))) = view (view f.bytes (foff + off)) (r + 1) := by
        rw [view_view, Nat.add_assoc]
      have hsum : r + 1 + (len - (off + (r + 1))) = n := by omega
      rw [hnext, ← Nat.add_assoc pos, blit_blit, hsum]
    · rename_i hge
      have hzero : n = 0 := by omega
      exact ⟨call, by rw [hzero, blit_zero]⟩

theorem fsPreadAll_whole (io : PartialIo) (f : File) (call : Nat) (dst : Buf) (pos len foff : Nat)
    (hsize : 0 < len → foff + len ≤ f.size) :
    ∃ call', fsPreadAll io f call dst pos len foff 0 = some (blit dst pos (view f.bytes foff) len, call') :=
  fsPreadAll_eq hsize (Nat.zero_le len)

/-- Everything is written, however the calls divide it. -/
theorem fsPwriteAll_eq (io : PartialIo) (f : File) (call : Nat) (src : Buf) (foff : Nat) (hoff : off ≤ len) :
    ∃ f' call', fsPwriteAll io f call src len foff off = some (f', call') ∧
      f'.bytes = blit f.bytes (foff + off) (view src off) (len - off) ∧ f.size ≤ f'.size ∧
        (off < len → foff + len ≤ f'.size) := by
  induction hn : len - off using Nat.strong_induction_on generalizing off f call with
  | _ n ih =>
    rw [fsPwriteAll]
    split
    · rename_i hlt
      have hle := io.le call (len - off)
      obtain ⟨w, hw⟩ := Nat.exists_eq_add_of_lt (io.pos call (len - off) (by omega))
      rw [Nat.zero_add] at hw
      rw [File.pwrite, hw]
      obtain ⟨f', call', h, hbytes, hsize, hend⟩ := ih (len - (off + (w + 1))) (by omega) _ _ (by omega) rfl
      refine ⟨f', call', h, ?_, (f.size_le_store _ _ _).trans hsize, fun _ => ?_⟩
      · have hsum : w + 1 + (len - (off + (w + 1))) = n := by omega
        rw [hbytes, File.store, ← view_view, ← Nat.add_assoc foff, blit_blit, hsum]
      · -- the last call reached the end, or a later one does
        by_cases hlast : off + (w + 1) < len
        · exact hend hlast
        · have hstored := f.store_size_of_pos (foff + off) (view src off) (show 0 < w + 1 by omega)
          omega
    · rename_i hge
      have hzero : n = 0 := by omega
      exact ⟨f, call, rfl, by rw [hzero, blit_zero], le_refl _, fun h => absurd h hge⟩

theorem fsPwriteAll_whole (io : PartialIo) (f : File) (call : Nat) (src : Buf) (len foff : Nat) :
    ∃ f' call', fsPwriteAll io f call src len foff 0 = some (f', call') ∧
      f'.bytes = blit f.bytes foff src len ∧ f.size ≤ f'.size ∧ (0 < len → foff + len ≤ f'.size) := by
  obtain ⟨f', call', h, hbytes, hsize⟩ := fsPwriteAll_eq io f call src foff (Nat.zero_le len)
  rw [view_zero] at hbytes
  exact ⟨f', call', h, hbytes, hsize⟩

/-! ## The store -/

/-- The store, and how many file calls there were. -/
structure Store where
  ram : Buf
  ramBytes : Nat
  file : File
  call : Nat

/-- `snap_store_read`: the buffer and the store then; `none` is the answer 0. -/
def snapStoreRead (io : PartialIo) (s : Store) (dst : Buf) (off len : Nat) : Option (Buf × Store) :=
  if off ≥ s.ramBytes then
    (fsPreadAll io s.file s.call dst 0 len (off - s.ramBytes) 0).map fun r => (r.1, { s with call := r.2 })
  else if u64 (off + len) ≤ s.ramBytes then some (blit dst 0 (view s.ram off) len, s)
  else
    let a := s.ramBytes - off
    let dst := blit dst 0 (view s.ram off) a
    (fsPreadAll io s.file s.call dst a (len - a) 0 0).map fun r => (r.1, { s with call := r.2 })

/-- `snap_store_write` -/
def snapStoreWrite (io : PartialIo) (s : Store) (src : Buf) (off len : Nat) : Option Store :=
  if off ≥ s.ramBytes then
    (fsPwriteAll io s.file s.call src len (off - s.ramBytes) 0).map fun r => { s with file := r.1, call := r.2 }
  else if u64 (off + len) ≤ s.ramBytes then some { s with ram := blit s.ram off src len }
  else
    let a := s.ramBytes - off
    (fsPwriteAll io s.file s.call (view src a) (len - a) 0 0).map fun r =>
      { s with ram := blit s.ram off src a, file := r.1, call := r.2 }

/-- The halves of the store, without the sizes and calls. -/
def Store.split (s : Store) : SplitStore := { ram := s.ram, ramBytes := s.ramBytes, file := s.file.bytes }

/-- The store has a place of its own for the bytes of a range. -/
def Store.Reaches (s : Store) (x : Nat) : Prop := x < s.ramBytes ∨ x - s.ramBytes < s.file.size

variable {s : Store}

/-- A read is one of the split store, if all its bytes have a place. -/
theorem snapStoreRead_eq (io : PartialIo) (dst : Buf) (hwrap : off + len < 2 ^ 64)
    (h : ∀ x, off ≤ x → x < off + len → s.Reaches x) :
    ∃ call', snapStoreRead io s dst off len = some (s.split.read dst off len, { s with call := call' }) := by
  -- the last byte of what is read from the file is inside it
  have hlast : s.ramBytes < off + len → 0 < len → off + len - s.ramBytes ≤ s.file.size := by
    intro hlt hlen
    rcases h (off + len - 1) (by omega) (by omega) with hram | hfile
    · omega
    · omega
  have hbytes : s.split.ramBytes = s.ramBytes := rfl
  rw [snapStoreRead, SplitStore.read, u64_of_lt hwrap, hbytes]
  split
  · rename_i hfile
    obtain ⟨call', hread⟩ := fsPreadAll_whole io s.file s.call dst 0 len (off - s.ramBytes) fun hlen => by
      have hend := hlast (by omega) hlen
      omega
    exact ⟨call', by rw [hread]; rfl⟩
  · split
    · exact ⟨s.call, rfl⟩
    · -- across the boundary
      obtain ⟨call', hread⟩ := fsPreadAll_whole io s.file s.call (blit dst 0 (view s.ram off) (s.ramBytes - off))
        (s.ramBytes - off) (len - (s.ramBytes - off)) 0 fun _ => by
          have hend := hlast (by omega) (by omega)
          omega
      rw [view_zero] at hread
      exact ⟨call', by simp only [hread]; rfl⟩

/-- A write is one of the split store, and gives its bytes a place. -/
theorem snapStoreWrite_eq (io : PartialIo) (src : Buf) (hwrap : off + len < 2 ^ 64) :
    ∃ s', snapStoreWrite io s src off len = some s' ∧ s'.split = s.split.write src off len ∧ s'.ramBytes = s.ramBytes ∧
      (∀ x, s.Reaches x → s'.Reaches x) ∧ ∀ x, off ≤ x → x < off + len → s'.Reaches x := by
  have hbytes : s.split.ramBytes = s.ramBytes := rfl
  rw [snapStoreWrite, SplitStore.write, u64_of_lt hwrap, hbytes]
  split
  · obtain ⟨f', call', hwrite, hbytes, hsize, hend⟩ := fsPwriteAll_whole io s.file s.call src len (off - s.ramBytes)
    refine ⟨{ s with file := f', call := call' }, by rw [hwrite, Option.map_some], ?_, rfl, fun x hx => ?_,
      fun x hlo hhi => ?_⟩
    · rw [Store.split, hbytes]
      rfl
    · exact hx.imp_right fun hx => hx.trans_le hsize
    · have hend := hend (by omega)
      exact .inr (by dsimp only; omega)
  · split
    · rename_i hram
      exact ⟨_, rfl, rfl, rfl, fun x hx => hx, fun x _ hhi => .inl (lt_of_lt_of_le hhi hram)⟩
    · -- across the boundary
      obtain ⟨f', call', hwrite, hbytes, hsize, hend⟩ := fsPwriteAll_whole io s.file s.call
        (view src (s.ramBytes - off)) (len - (s.ramBytes - off)) 0
      refine ⟨{ s with ram := blit s.ram off src (s.ramBytes - off), file := f', call := call' },
        by simp only [hwrite, Option.map_some], ?_, rfl, fun x hx => ?_, fun x hlo hhi => ?_⟩
      · rw [Store.split, hbytes]
        rfl
      · exact hx.imp_right fun hx => hx.trans_le hsize
      · have hend := hend (by omega)
        rw [Store.Reaches]
        dsimp only
        omega

/-! ## Runs -/

/-- A call on the store: a write of bytes, or a read into a buffer. -/
inductive StoreOp where
  | write (off : Nat) (src : List Byte)
  | read (dst : Buf) (off len : Nat)

/-- The end of the range of a call. -/
def StoreOp.stop : StoreOp → Nat
  | .write off src => off + src.length
  | .read _ off len => off + len

/-- The calls one after the other: what the reads gave, unless one of the calls answered 0. -/
def run (io : PartialIo) (s : Store) : List StoreOp → Option (List (List Byte))
  | [] => some []
  | .write off src :: ops =>
    match snapStoreWrite io s (ofList src) off src.length with
    | none => none
    | some s => run io s ops
  | .read dst off len :: ops =>
    match snapStoreRead io s dst off len with
    | none => none
    | some (dst, s) => (run io s ops).map fun rs => slice dst 0 len :: rs

/-- What the reads give on one array of bytes. -/
def flatRun (flat : Buf) : List StoreOp → List (List Byte)
  | [] => []
  | .write off src :: ops => flatRun (blit flat off (ofList src) src.length) ops
  | .read _ off len :: ops => slice flat off len :: flatRun flat ops

/-- Only bytes are read that were written: by a call before, or already (`written`). -/
def ReadsWritten (written : Nat → Prop) : List StoreOp → Prop
  | [] => True
  | .write off src :: ops => ReadsWritten (fun x => written x ∨ off ≤ x ∧ x < off + src.length) ops
  | .read _ off len :: ops => (∀ x, off ≤ x → x < off + len → written x) ∧ ReadsWritten written ops

/-- The store holds what the array has, of the bytes that were written. -/
def Holds (written : Nat → Prop) (s : Store) (flat : Buf) : Prop :=
  ∀ x, written x → s.Reaches x ∧ s.split.flat x = flat x

variable {written : Nat → Prop} {flat : Buf}

/-- A write is a copy into the array. -/
theorem Holds.write (h : Holds written s flat) (io : PartialIo) (src : Buf) (hwrap : off + len < 2 ^ 64) :
    ∃ s', snapStoreWrite io s src off len = some s' ∧
      Holds (fun x => written x ∨ off ≤ x ∧ x < off + len) s' (blit flat off src len) := by
  obtain ⟨s', hwrite, hsplit, -, hkept, hnew⟩ := snapStoreWrite_eq io src hwrap
  refine ⟨s', hwrite, ?_⟩
  rintro x hx
  rw [hsplit, SplitStore.flat_write]
  by_cases hin : off ≤ x ∧ x < off + len
  · refine ⟨hnew x hin.1 hin.2, ?_⟩
    rw [blit, blit, if_pos hin, if_pos hin]
  · -- a byte that the call leaves alone was written before
    have hbefore := hx.resolve_right hin
    refine ⟨hkept x (h x hbefore).1, ?_⟩
    rw [blit, blit, if_neg hin, if_neg hin]
    exact (h x hbefore).2

/-- A read gives the bytes of the array, and changes none. -/
theorem Holds.read (h : Holds written s flat) (io : PartialIo) (dst : Buf) (hwrap : off + len < 2 ^ 64)
    (hread : ∀ x, off ≤ x → x < off + len → written x) :
    ∃ dst' s', snapStoreRead io s dst off len = some (dst', s') ∧ slice dst' 0 len = slice flat off len ∧
      Holds written s' flat := by
  obtain ⟨call', heq⟩ := snapStoreRead_eq io dst hwrap fun x hlo hhi => (h x (hread x hlo hhi)).1
  refine ⟨_, _, heq, ?_, h⟩
  apply slice_eq_iff.mpr
  intro i hi
  rw [Nat.zero_add, SplitStore.read_apply _ _ hi]
  exact (h _ (hread _ (by omega) (by omega))).2

/-- A run from a store that holds what the array has. -/
theorem Holds.run (h : Holds written s flat) :
    ∀ ops : List StoreOp, (∀ op ∈ ops, op.stop < 2 ^ 64) → ReadsWritten written ops →
      run io s ops = some (flatRun flat ops) := by
  intro ops hwrap hops
  induction ops generalizing s flat written with
  | nil => rfl
  | cons op ops ih =>
    have hrest := fun op hop => hwrap op (List.mem_cons_of_mem _ hop)
    have hstop := hwrap op List.mem_cons_self
    cases op with
    | write off src =>
      obtain ⟨s', hwrite, h'⟩ := h.write io (ofList src) hstop
      rw [SnapStore.run, hwrite, flatRun]
      exact ih h' hrest hops
    | read dst off len =>
      obtain ⟨dst', s', hread, hslice, h'⟩ := h.read io dst hstop hops.1
      simp only [SnapStore.run, hread, flatRun, ih h' hrest hops.2, hslice, Option.map_some]

/-- The store is one array of bytes, wherever it is divided, and however its file calls move the bytes. -/
theorem store_is_flat (io : PartialIo) (s : Store) (flat : Buf) (ops : List StoreOp)
    (hwrap : ∀ op ∈ ops, op.stop < 2 ^ 64) (hread : ReadsWritten (fun _ => False) ops) :
    run io s ops = some (flatRun flat ops) := by
  have hnone : Holds (fun _ => False) s flat := fun _ hx => hx.elim
  exact hnone.run ops hwrap hread

/-- Calls that move one byte each, on a store of two bytes of RAM: ranges across the boundary. -/
theorem store_is_flat_across :
    run { moved := fun _ n => min n 1, le := fun _ n => min_le_left n 1, pos := fun _ _ h => lt_min h Nat.one_pos }
        { ram := fun _ => 0, ramBytes := 2, file := { bytes := fun _ => 0, size := 0, beyond := fun _ _ => rfl },
          call := 0 }
        [.write 0 [1, 2, 3, 4, 5], .write 3 [9, 8], .read (fun _ => 0) 1 4] = some [[2, 3, 9, 8]] := by
  refine (store_is_flat _ _ (fun _ => 0) _ (by decide) ?_).trans (by decide)
  refine ⟨fun x hlo hhi => ?_, trivial⟩
  -- the two writes cover the read
  simp only [List.length_cons, List.length_nil]
  omega

end SnapStore

end Ps5Debugger

import Ps5Debugger.Lib.Bytes

/-!
# The target process and the server's buffers

What the scanner reads: the memory of a process, and the aliasing engine, which hands out
a pointer to the same bytes instead of copying them. A read that fails leaves the buffer as
it was (`ProcRead`): where the buffer was cleared before, an unreadable byte is a zero byte
(`readInto`); `proc_scan_handle` and `disasm_iterate` do not clear theirs.

What it reads into: heap buffers. `net_alloc_buffer` clears one byte per page and the
last one; every other byte of a fresh buffer is whatever the heap held before, and the
models keep it that way.
-/

namespace Ps5Debugger

open Lib

/-- The memory of a process: the byte at each 64-bit address, zero where unreadable. -/
abbrev Memory : Type := Buf

/-- The bytes from address `addr` on; addresses wrap at 64 bits. -/
def readMem (mem : Memory) (addr : Nat) : Buf := fun i => mem (u64 (addr + i))

theorem readMem_add (mem : Memory) (addr i : Nat) :
    readMem mem (u64 (addr + i)) = view (readMem mem addr) i := by
  funext j
  simp only [readMem, view_apply, u64, Nat.mod_add_mod, Nat.add_assoc]

theorem slice_readMem_add (mem : Memory) (addr i n : Nat) :
    slice (readMem mem (u64 (addr + i))) 0 n = slice (readMem mem addr) i n := by
  rw [readMem_add, slice_view, Nat.add_zero]

/-- The aliasing engine over a target: `scan_alias_map` fails, or returns a pointer
through which the mapped range reads as the target's memory. What lies behind the range
is unspecified. -/
structure AliasEngine (mem : Memory) where
  /-- `scan_alias_map(ctx, addr, len)` -/
  map : Nat → Nat → Option Buf
  /-- an alias shows the target's own bytes -/
  map_eq : ∀ {addr len : Nat} {b : Buf}, map addr len = some b →
    ∀ i < len, b i = readMem mem addr i

/-- `net_alloc_buffer(size)` on a heap that held `raw`. -/
def netAllocBuffer (raw : Buf) (size : Nat) : Buf :=
  fun i => if (i < size ∧ i % 0x1000 = 0) ∨ i + 1 = size then 0 else raw i

/-- `net_alloc_buffer` touches a page at a time with a 32-bit index: above this size the index wraps
and the loop does not end. -/
def allocEnds (size : UInt32) : Bool := decide (size ≤ 0xFFFFF000)

/-- A read of `len` bytes of the process into a buffer: the buffer afterwards. What is not read stays as it was. -/
abbrev ProcRead : Type := Nat → Nat → Buf → Buf

/-- `memset(buf, 0, len); proc_read_mem(pid, addr, len, buf)`: the first `len` bytes are
the target's, the rest of the buffer is what it was. -/
def readInto (mem : Memory) (buf : Buf) (addr len : Nat) : Buf := blit buf 0 (readMem mem addr) len

theorem readInto_of_lt {mem : Memory} {buf : Buf} {addr len i : Nat} (hi : i < len) :
    readInto mem buf addr len i = readMem mem addr i := blit_zero_of_lt hi

theorem readInto_of_le {mem : Memory} {buf : Buf} {addr len i : Nat} (hi : len ≤ i) :
    readInto mem buf addr len i = buf i := blit_outside (by omega)

end Ps5Debugger

import Ps5Debugger.Lib.AddressSpace
import Ps5Debugger.Lib.Stateful

/-!
# The ELF loader

`proc_load_elf_inject` (`proc_elf.c`), which maps an ELF file into a stopped process: a range is reserved for
the image, then the loadable segments are mapped and filled, the relocations applied and the protections set.
A segment that is executed is a shared object of the JIT compiler, which is filled through a second mapping
that can be written.

Every call runs in the target, and what its kernel answers is a parameter: any call can fail at any time.
What is kept of a call's effect is the memory that is mapped, so protections are left out, and so is
`kern_init_dbgctx_at_addr_kern`, which hides the mapping at the entry point from the kernel's list.

Addresses are 64 bits wide. `eb` is memory from the start of the file on.
-/

namespace Ps5Debugger

open Lib

namespace ElfInject

/-! ## The file -/

/-- `*(T *)(elf_buf + off)` -/
def load (eb : Buf) (off size : Nat) : Nat := leNat size (slice eb (u64 off) size)

/-- `PAGE_TRUNC` -/
def pageTrunc (x : Nat) : Nat := x / 0x4000 * 0x4000

/-- `PAGE_ROUND_UP` -/
def pageRoundUp (x : Nat) : Nat := pageTrunc (u64 (x + 0x3FFF))

/-- `e_type` -/
def e_type (eb : Buf) : Nat := load eb 0x10 2
def e_entry (eb : Buf) : Nat := load eb 0x18 8
def e_phoff (eb : Buf) : Nat := load eb 0x20 8
def e_shoff (eb : Buf) : Nat := load eb 0x28 8
def e_phnum (eb : Buf) : Nat := load eb 0x38 2
def e_shnum (eb : Buf) : Nat := load eb 0x3C 2

/-- The fields of a program header. The loader does not look at `p_filesz`. -/
structure Phdr where
  p_type : Nat
  p_flags : Nat
  p_offset : Nat
  p_vaddr : Nat
  p_filesz : Nat
  p_memsz : Nat

/-- The header at `ph`. -/
def readPhdr (eb : Buf) (ph : Nat) : Phdr where
  p_type := load eb (ph + 0) 4
  p_flags := load eb (ph + 4) 4
  p_offset := load eb (ph + 8) 8
  p_vaddr := load eb (ph + 16) 8
  p_filesz := load eb (ph + 32) 8
  p_memsz := load eb (ph + 40) 8

/-- The segments that are loaded: each pass goes over the program headers and skips the others. -/
def segments (eb : Buf) : List Phdr :=
  ((List.range (e_phnum eb)).map fun i => readPhdr eb (e_phoff eb + i * 56)).filter fun ph =>
    ph.p_type = 1 ∧ ph.p_memsz ≠ 0

def Phdr.alignedMemsz (ph : Phdr) : Nat := pageRoundUp ph.p_memsz

/-- `elf_pflags_to_prot` -/
def elfPflagsToProt (p_flags : Nat) : Nat :=
  (if p_flags.testBit 0 then 4 else 0) ||| (if p_flags.testBit 1 then 2 else 0) ||| (if p_flags.testBit 2 then 1 else 0)

/-- `min_vaddr` -/
def minVaddr (eb : Buf) : Nat := (segments eb).foldl (fun m ph => if ph.p_vaddr < m then ph.p_vaddr else m) (2 ^ 64 - 1)

/-- `max_endaddr` -/
def maxEndaddr (eb : Buf) : Nat :=
  (segments eb).foldl (fun m ph => if u64 (ph.p_vaddr + ph.p_memsz) > m then u64 (ph.p_vaddr + ph.p_memsz) else m) 0

/-- `min_vaddr`, at a page. -/
def minAligned (eb : Buf) : Nat := pageTrunc (minVaddr eb)

/-- `total_size` -/
def totalSize (eb : Buf) : Nat := subU64 (pageRoundUp (maxEndaddr eb)) (minAligned eb)

/-- A relocation entry. -/
structure Rela where
  r_offset : Nat
  r_addend : Nat

/-- The `R_X86_64_RELATIVE` entries of the relocation section with the header at `sh`. -/
def sectionRelas (eb : Buf) (sh : Nat) : List Rela :=
  let sh_size := load eb (sh + 0x20) 8
  let sh_offset := load eb (sh + 0x18) 8
  if load eb (sh + 4) 4 ≠ 4 ∨ sh_size < 24 then []
  else ((List.range (sh_size / 24)).filter fun j => load eb (sh_offset + j * 24 + 8) 4 = 8).map fun j =>
    ⟨load eb (sh_offset + j * 24) 8, load eb (sh_offset + j * 24 + 16) 8⟩

/-- The entries that are applied, in the order in which they are. -/
def relas (eb : Buf) : List Rela := (List.range (e_shnum eb)).flatMap fun i => sectionRelas eb (e_shoff eb + i * 64)

/-! ## The target -/

/-- The arguments of `mmap`; no descriptor is -1, and the offset is always 0. -/
structure MmapArgs where
  addr : Nat
  len : Nat
  prot : Nat
  flags : Nat
  fd : Option Nat

/-- `MAP_FIXED` -/
def MmapArgs.fixed (r : MmapArgs) : Bool := r.flags.testBit 4

/-- What the kernel of the target answers, by the number of the call and the memory at that time. A mapping
is made of whole pages and does not wrap, where it is asked for if that is fixed and where nothing is mapped
if not. -/
structure Kernel where
  mmap : Nat → Space → MmapArgs → Option Nat
  /-- whether the range is unmapped -/
  munmap : Nat → Space → Nat → Nat → Bool
  mprotect : Nat → Space → Nat → Nat → Nat → Bool
  jitshmCreate : Nat → Space → Nat → Nat → Nat → Option Nat
  jitshmAlias : Nat → Space → Nat → Nat → Option Nat
  close : Nat → Space → Nat → Bool
  /-- a write to the memory is complete, or ends with an error after some bytes -/
  ioWrite : Nat → Space → Nat → Nat → Option Nat
  /-- the call was made, and then `proc_call_remote_sys` fails to wait for it or to read or restore the registers -/
  lost : Nat → Bool
  mmap_range : ∀ {n s r a}, mmap n s r = some a → 0 < r.len ∧ a % 0x4000 = 0 ∧ a + r.len ≤ 2 ^ 64
  mmap_fixed : ∀ {n s r a}, mmap n s r = some a → r.fixed = true → a = r.addr
  mmap_free : ∀ {n s r a}, mmap n s r = some a → r.fixed = false → ∀ i < r.len, s.cells (a + i) = none

/-- A call that reports an error had no effect, and what is mapped can be unmapped. -/
structure Kernel.Clean (k : Kernel) : Prop where
  lost : ∀ n, k.lost n = false
  munmap : ∀ {n s a len}, 0 < len → a % 0x4000 = 0 → a + len ≤ 2 ^ 64 → k.munmap n s a len = true

/-- A range that was mapped or written, and whether as the second mapping of a shared object. -/
structure Access where
  addr : Nat
  len : Nat
  viaAlias : Bool

/-- The target: its memory, the number of calls made in it, the ranges they mapped or wrote, and whether one of
them failed. -/
structure Target where
  space : Space
  calls : Nat
  log : List Access
  failed : Bool

/-- A target before the first call. -/
def Target.start (s : Space) : Target := ⟨s, 0, [], false⟩

/-- A call that left the memory alone, or changed it. -/
def Target.call (t : Target) (s : Space) : Target := ⟨s, t.calls + 1, t.log, t.failed⟩

/-- A call that mapped or wrote a range. -/
def Target.access (t : Target) (s : Space) (x : Access) : Target := ⟨s, t.calls + 1, x :: t.log, t.failed⟩

/-- A call that failed. -/
def Target.fail (t : Target) : Target := { t with failed := true }

/-- What comes back from a call that was made: its result, unless that is lost. -/
def Kernel.reply (k : Kernel) (n result : Nat) (t : Target) : Option Nat × Target :=
  if k.lost n then (none, t.fail) else (some result, t)

/-- `freebsd_mmap` -/
def freebsdMmap (k : Kernel) (r : MmapArgs) (viaAlias : Bool) : StateM Target (Option Nat) := fun t =>
  match k.mmap t.calls t.space r with
  | none => (none, (t.call t.space).fail)
  | some a =>
    match r.fd with
    | none => k.reply t.calls a (t.access (t.space.mapNew a r.len) ⟨a, r.len, viaAlias⟩)
    | some fd =>
      match t.space.fdObj fd with
      | none => (none, (t.call t.space).fail)
      | some ⟨obj, hobj⟩ => k.reply t.calls a (t.access (t.space.map a r.len obj hobj) ⟨a, r.len, viaAlias⟩)

/-- `freebsd_munmap`, whose result nobody looks at -/
def freebsdMunmap (k : Kernel) (addr len : Nat) : StateM Target Unit := fun t =>
  ((), if k.munmap t.calls t.space addr len then t.call (t.space.unmap addr len) else (t.call t.space).fail)

/-- `sys_mprotect`: whether it succeeded -/
def sysMprotect (k : Kernel) (addr length prot : Nat) : StateM Target Bool := fun t =>
  if k.mprotect t.calls t.space addr length prot then (true, t.call t.space) else (false, (t.call t.space).fail)

/-- `kern_jitshm_create` -/
def kernJitshmCreate (k : Kernel) (a b c : Nat) : StateM Target (Option Nat) := fun t =>
  match k.jitshmCreate t.calls t.space a b c with
  | none => (none, (t.call t.space).fail)
  | some fd => k.reply t.calls fd (t.call (t.space.create.openFd fd t.space.next (Nat.lt_succ_self _)))

/-- `kern_jitshm_alias` -/
def kernJitshmAlias (k : Kernel) (fd prot : Nat) : StateM Target (Option Nat) := fun t =>
  match k.jitshmAlias t.calls t.space fd prot with
  | none => (none, (t.call t.space).fail)
  | some fd' =>
    match t.space.fdObj fd with
    | none => (none, (t.call t.space).fail)
    | some ⟨obj, hobj⟩ => k.reply t.calls fd' (t.call (t.space.openFd fd' obj hobj))

/-- `kern_close_thunk` -/
def kernCloseThunk (k : Kernel) (fd : Nat) : StateM Target Unit := fun t =>
  ((), if k.close t.calls t.space fd then t.call (t.space.closeFd fd) else (t.call t.space).fail)

/-- `ptrace_io_write_d`: whether all was written -/
def ptraceIoWriteD (k : Kernel) (src : Buf) (dst len : Nat) (viaAlias : Bool) : StateM Target Bool := fun t =>
  match k.ioWrite t.calls t.space dst len with
  | none => (true, t.access (t.space.write dst src len) ⟨dst, len, viaAlias⟩)
  | some n => (false, (t.access (t.space.write dst src (min n len)) ⟨dst, len, viaAlias⟩).fail)

/-! ## The loader -/

/-- Maps and fills a segment that is executed: a shared object at its address, and a second mapping to fill
it. -/
def placeShared (k : Kernel) (eb : Buf) (ph : Phdr) (target_addr : Nat) : StateM Target Bool := do
  match ← kernJitshmCreate k 0 ph.alignedMemsz ((if ph.p_flags.testBit 2 then 1 else 0) ||| 6) with
  | none => return false
  | some shm_fd =>
    match ← freebsdMmap k ⟨target_addr, ph.alignedMemsz, elfPflagsToProt ph.p_flags, 0x11, some shm_fd⟩ false with
    | none =>
      kernCloseThunk k shm_fd
      return false
    | some _ =>
      match ← kernJitshmAlias k shm_fd 3 with
      | none =>
        kernCloseThunk k shm_fd
        return false
      | some alias_fd =>
        match ← freebsdMmap k ⟨0, ph.alignedMemsz, 3, 1, some alias_fd⟩ true with
        | none =>
          kernCloseThunk k alias_fd
          kernCloseThunk k shm_fd
          return false
        | some rw_addr =>
          -- what follows the write is the same whether it failed or not
          let written ← ptraceIoWriteD k (view eb ph.p_offset) rw_addr ph.p_memsz true
          freebsdMunmap k rw_addr ph.alignedMemsz
          kernCloseThunk k alias_fd
          kernCloseThunk k shm_fd
          return written

/-- Maps and fills any other segment. -/
def placePrivate (k : Kernel) (eb : Buf) (ph : Phdr) (target_addr : Nat) : StateM Target Bool := do
  match ← freebsdMmap k ⟨target_addr, ph.alignedMemsz, 2, 0x1012, none⟩ false with
  | none => return false
  | some seg_addr => ptraceIoWriteD k (view eb ph.p_offset) seg_addr ph.p_memsz false

/-- A pass of the first loop. -/
def place (k : Kernel) (eb : Buf) (base_addr : Nat) (ph : Phdr) : StateM Target Bool :=
  if ph.p_flags.testBit 0 then placeShared k eb ph (u64 (base_addr + ph.p_vaddr))
  else placePrivate k eb ph (u64 (base_addr + ph.p_vaddr))

/-- A relocation: the value is 8 bytes. -/
def relocate (k : Kernel) (base_addr : Nat) (r : Rela) : StateM Target Bool :=
  ptraceIoWriteD k (ofList (leBytes 8 (u64 (base_addr + r.r_addend)))) (u64 (base_addr + r.r_offset)) 8 false

/-- A pass of the last loop. -/
def protect (k : Kernel) (base_addr : Nat) (ph : Phdr) : StateM Target Bool :=
  sysMprotect k (u64 (base_addr + ph.p_vaddr)) ph.alignedMemsz (elfPflagsToProt ph.p_flags)

/-- The three loops; each leaves for `cleanup_base`. -/
def fill (k : Kernel) (eb : Buf) (base_addr : Nat) : StateM Target Bool := do
  if ← allOf (place k eb base_addr) (segments eb) then
    (do if ← allOf (relocate k base_addr) (relas eb) then allOf (protect k base_addr) (segments eb) else return false)
  else return false

/-- The magic number at the front. -/
def IsElf (eb : Buf) : Prop := eb 0 = 0x7F ∧ eb 1 = 0x45 ∧ eb 2 = 0x4C ∧ eb 3 = 0x46

instance (eb : Buf) : Decidable (IsElf eb) := inferInstanceAs (Decidable (_ ∧ _))

/-- `mmap_flags` and `base_request`, by the type of the file. -/
def mmapRequest (eb : Buf) : Option (Nat × Nat) :=
  if e_type eb = 2 then some (0x1012, minAligned eb)
  else if e_type eb = 3 then some (0x1002, 0)
  else none

/-- `proc_load_elf_inject`. Of the thread's name only what `kernel_get_vmem_entry_by_name` finds for it
matters. The result is the entry point, or -1 or 0. -/
def procLoadElfInject (k : Kernel) (eb : Buf) (thread_name : Option (Option Nat)) : StateM Target (Except Int Nat) :=
  if IsElf eb then
    match mmapRequest eb, thread_name with
    | none, _ => return .error 0
    | _, some none => return .error (-1)
    | some (mmap_flags, base_request), name => do
      match ← freebsdMmap k ⟨(name.bind id).getD base_request, totalSize eb, 0, mmap_flags, none⟩ false with
      | none => return .error 0
      | some base_addr =>
        if ← fill k eb base_addr then
          return .ok (u64 (base_addr + e_entry eb))
        else
          freebsdMunmap k base_addr (totalSize eb)
          return .error 0
  else return .error (-1)

end ElfInject

end Ps5Debugger

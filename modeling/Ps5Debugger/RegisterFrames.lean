import Ps5Debugger.KernLookups
import Ps5Debugger.Lib.Moves

/-!
# Register frames of kernel threads

`kern_get_proc_info_by_pid`, `kern_apply_thread_dbgctx` and `kern_get_lwp_full_state` (`kern_dbreg.c`) move the
registers of a thread between its trap frame in the kernel and the blob of the protocol. Each writes out its own
moves, and each looks the thread up and follows it to the frame.

`frames_round_trip`: what is applied is read back, nothing else of the frame changes, and both reads agree.
-/

namespace Ps5Debugger

open Lib KernCache

namespace RegisterFrames

/-! ## Kernel memory -/

/-- `kernel_copyout_fast(kaddr, buf, len)`, seen from `buf`. -/
def copyout (mem : Addr → Byte) (kaddr : Addr) : Buf := fun i => mem (kaddr + BitVec.ofNat 64 i)

/-- `kernel_copyin_fast(buf, kaddr, len)` -/
def copyin (mem : Addr → Byte) (buf : Buf) (kaddr : Addr) (len : Nat) : Addr → Byte :=
  fun a => if (a - kaddr).toNat < len then buf (a - kaddr).toNat else mem a

/-- The memory of the kernel, and the caches of the lookups. -/
structure Kern where
  mem : Addr → Byte
  caches : Caches

/-- The caches that lookups and flushes lead to, whatever the memory is each time. -/
inductive Reached (allproc : Addr) : Caches → Prop
  | start : Reached allproc Caches.empty
  | threadAddr {s s' : Caches} (mem : Addr → Byte) {pid lwpid : Id} {kthread : Addr} : Reached allproc s →
      kernThreadAddr allproc mem s pid lwpid = some (kthread, s') → Reached allproc s'
  | flushThreads {s : Caches} : Reached allproc s → Reached allproc { s with thr := s.thr.flush }
  | procs {s : Caches} (proc : SlotCache Id Addr 8) : Reached allproc s → Reached allproc { s with proc }

/-! ## Moves -/

/-- `*(uint64_t *)(dst + d) = *(uint64_t *)(src + s)` -/
def move64 (d s : Nat) : Move := ⟨d, 8, s, 8⟩

/-- `*(uint32_t *)(dst + d) = *(uint32_t *)(src + s)` -/
def move32 (d s : Nat) : Move := ⟨d, 4, s, 4⟩

/-- The moves of `kern_get_proc_info_by_pid`, from the frame. -/
def procInfoMoves : List Move :=
  [move64 0x00 0x70, move64 0x08 0x68, move64 0x10 0x60, move64 0x18 0x58, move64 0x20 0x50, move64 0x28 0x48,
    move64 0x30 0x28, move64 0x38 0x20, move64 0x40 0x00, move64 0x48 0x08, move64 0x50 0x40, move64 0x58 0x38,
    move64 0x60 0x10, move64 0x68 0x18, move64 0x70 0x30, move64 0x78 0x78, move64 0x88 0xe8, move64 0x90 0xf0,
    move64 0x98 0xf8, move64 0xa0 0x100, move64 0xa8 0x108, move32 0x84 0x8c,
    -- `(uint32_t)` of the error word
    ⟨0x80, 4, 0xe0, 8⟩]

/-- The moves of `kern_apply_thread_dbgctx`, to the frame. -/
def dbgctxMoves : List Move :=
  [move64 0x70 0x00, move64 0x68 0x08, move64 0x60 0x10, move64 0x58 0x18, move64 0x50 0x20, move64 0x48 0x28,
    move64 0x28 0x30, move64 0x20 0x38, move64 0x00 0x40, move64 0x08 0x48, move64 0x40 0x50, move64 0x38 0x58,
    move64 0x10 0x60, move64 0x18 0x68, move64 0x30 0x70, move64 0x78 0x78, move64 0xe8 0x88, move64 0xf0 0x90,
    move64 0xf8 0x98, move64 0x100 0xa0, move64 0x108 0xa8, move32 0x8c 0x84,
    -- `(uint64_t)` of the error code
    ⟨0xe0, 8, 0x80, 4⟩]

/-- The moves of `kern_get_lwp_full_state`, from the frame. -/
def fullStateMoves : List Move :=
  [move64 0x00 0x70, move64 0x08 0x68, move64 0x10 0x60, move64 0x18 0x58, move64 0x20 0x50, move64 0x28 0x48,
    move64 0x30 0x28, move64 0x38 0x20, move64 0x40 0x00, move64 0x48 0x08, move64 0x50 0x40, move64 0x58 0x38,
    move64 0x60 0x10, move64 0x68 0x18, move64 0x70 0x30, move64 0x78 0x78, move64 0x88 0xe8, move64 0x90 0xf0,
    move64 0x98 0xf8, move64 0xa0 0x100, move64 0xa8 0x108, move32 0x84 0x8c, ⟨0x80, 4, 0xe0, 8⟩]

/-- Its moves of the debug registers, from the control block. -/
def dbregMoves : List Move :=
  [move64 0x00 0x78, move64 0x08 0x80, move64 0x10 0x88, move64 0x18 0x90, move64 0x30 0x98, move64 0x38 0xa0]

/-! ## The functions -/

/-- The length of a frame, and that of a blob. -/
def frameBytes : Nat := 0x110
def blobBytes : Nat := 0xb0

/-- A buffer on the stack after `kernel_copyout_fast`. -/
def stackBuf (mem : Addr → Byte) (kaddr : Addr) (len : Nat) : Buf := blit (fun _ => 0) 0 (copyout mem kaddr) len

/-- What the three functions begin with: the thread, the address of its frame and `fbuf`, unless one of the checks fails
or one of the first two copies does. `io` tells which copies of the call succeed. -/
def fetchFrame (allproc : Addr) (io : Nat → Bool) (k : Kern) (pid lwpid : Id) :
    Option (Option (Addr × Addr × Buf) × Caches) :=
  if pid = 0 then some (none, k.caches)
  else
    (kernThreadAddr allproc k.mem k.caches pid lwpid).map fun (kthread, caches) =>
      if kthread = 0 ∨ !io 0 then (none, caches)
      else
        let frameAddr := read64 k.mem (kthread + 0x460)
        if !io 1 then (none, caches) else (some (kthread, frameAddr, stackBuf k.mem frameAddr frameBytes), caches)

/-- `kern_get_proc_info_by_pid`: the code that is returned, `regs_buf` then, and the kernel. -/
def kernGetProcInfoByPid (allproc : Addr) (io : Nat → Bool) (k : Kern) (pid lwpid : Id) :
    Option Buf → Option (Nat × Option Buf × Kern)
  | none => some (1, none, k)
  | some dst =>
    (fetchFrame allproc io k pid lwpid).map fun
      | (none, caches) => (1, some dst, { k with caches })
      | (some (_, _, fbuf), caches) => (0, some (runMoves procInfoMoves dst fbuf), { k with caches })

/-- `kern_apply_thread_dbgctx` -/
def kernApplyThreadDbgctx (allproc : Addr) (io : Nat → Bool) (k : Kern) (pid lwpid : Id) :
    Option Buf → Option (Nat × Kern)
  | none => some (1, k)
  | some src =>
    (fetchFrame allproc io k pid lwpid).map fun
      | (none, caches) => (1, { k with caches })
      | (some (_, frameAddr, fbuf), caches) =>
        if io 2 then (0, { mem := copyin k.mem (runMoves dbgctxMoves fbuf src) frameAddr frameBytes, caches })
        else (1, { k with caches })

/-- The rest of `kern_get_lwp_full_state`: the code, `dbreg_buf` and `fpu_buf`. -/
def debugAndFpu (io : Nat → Bool) (mem : Addr → Byte) (kthread : Addr) (dbreg fpu : Option Buf) :
    Nat × Option Buf × Option Buf :=
  if dbreg.isNone ∧ fpu.isNone then (0, dbreg, fpu)
  else if !io 2 ∨ !io 3 then (1, dbreg, fpu)
  else
    let pcb := stackBuf mem (read64 mem (kthread + 0x3f8)) 0x178
    let dbreg := dbreg.map fun db => runMoves dbregMoves db pcb
    let kfpuAddr := BitVec.ofNat 64 (leNat 8 (slice pcb 0x148 8))
    if fpu.isNone ∨ kfpuAddr = 0 then (0, dbreg, fpu)
    else if io 4 then (0, dbreg, fpu.map fun buf => blit buf 0 (copyout mem kfpuAddr) 0x340)
    else (1, dbreg, fpu)

/-- `kern_get_lwp_full_state` -/
def kernGetLwpFullState (allproc : Addr) (io : Nat → Bool) (k : Kern) (pid lwpid : Id) (regs dbreg fpu : Option Buf) :
    Option (Nat × Option Buf × Option Buf × Option Buf × Kern) :=
  match regs with
  | none => some (1, none, dbreg, fpu, k)
  | some dst =>
    (fetchFrame allproc io k pid lwpid).map fun
      | (none, caches) => (1, some dst, dbreg, fpu, { k with caches })
      | (some (kthread, _, fbuf), caches) =>
        let rest := debugAndFpu io k.mem kthread dbreg fpu
        (rest.1, some (runMoves fullStateMoves dst fbuf), rest.2.1, rest.2.2, { k with caches })

/-! ## The thread is found again -/

section Threads

variable {allproc kthread : Addr} {mem mem' : Addr → Byte} {s s' : Caches} {pid lwpid : Id}

/-- A process lookup leaves the cache of the threads alone. -/
theorem kernelGetProcFast_thr {kproc : Addr} (h : kernelGetProcFast allproc mem s pid = some (kproc, s')) :
    s'.thr = s.thr := by
  rw [kernelGetProcFast] at h
  split at h
  · obtain ⟨-, rfl⟩ := Prod.mk.inj (Option.some_inj.mp h)
    rfl
  · obtain ⟨kp, -, h⟩ := Option.bind_eq_some_iff.mp h
    split at h
    · obtain ⟨-, rfl⟩ := Prod.mk.inj (Option.some_inj.mp h)
      rfl
    · obtain ⟨-, rfl⟩ := Prod.mk.inj (Option.some_inj.mp h)
      rfl

theorem walkThreads_found {kproc : Addr} (h : walkThreads mem kproc lwpid = some kthread) (hne : kthread ≠ 0) :
    lwpidOf mem kthread = lwpid := by
  rw [walkThreads] at h
  have hfound := follow_found h hne
  exact of_decide_eq_true hfound

/-- What a thread lookup found has the lwpid, and is in the only slot of its ids. -/
theorem kernThreadAddr_found (hs : s.thr.Single) (h : kernThreadAddr allproc mem s pid lwpid = some (kthread, s')) :
    s'.thr.Single ∧ (kthread ≠ 0 → lwpidOf mem kthread = lwpid ∧
      ∃ i, s'.thr.find (pid, lwpid) = some i ∧ (s'.thr.slots i).2 = kthread) := by
  have hsingle : (s.thr.check (pid, lwpid) fun t => decide (lwpidOf mem t = lwpid)).2.Single := hs.check
  rw [kernThreadAddr] at h
  cases hcheck : s.thr.check (pid, lwpid) fun t => decide (lwpidOf mem t = lwpid) with
  | mk hit thr =>
    rw [hcheck] at h hsingle
    cases hit with
    | some t =>
      obtain ⟨rfl, rfl⟩ := Prod.mk.inj (Option.some_inj.mp h)
      have hhit := congrArg Prod.fst hcheck
      obtain ⟨hkeep, i, hfind, hslot⟩ := SlotCache.find_of_check hhit
      obtain rfl : thr = s.thr := (congrArg Prod.snd hcheck).symm.trans hkeep
      have hvalid := of_decide_eq_true (SlotCache.check_spec hhit).2
      exact ⟨hsingle, fun _ => ⟨hvalid, i, hfind, hslot⟩⟩
    | none =>
      have hfree := hs.not_holds_check (congrArg Prod.fst hcheck)
      rw [hcheck] at hfree
      obtain ⟨⟨kproc, s₁⟩, hproc, h⟩ := Option.bind_eq_some_iff.mp h
      have hthr : s₁.thr = thr := kernelGetProcFast_thr hproc
      dsimp only at h
      split at h
      · obtain ⟨rfl, rfl⟩ := Prod.mk.inj (Option.some_inj.mp h)
        rw [hthr]
        exact ⟨hsingle, fun hne => absurd rfl hne⟩
      · obtain ⟨t, hwalk, h⟩ := Option.bind_eq_some_iff.mp h
        split at h
        · rename_i hne
          obtain ⟨rfl, rfl⟩ := Prod.mk.inj (Option.some_inj.mp h)
          -- the slot that was filled
          dsimp only
          rw [hthr]
          obtain ⟨hfind, hslot⟩ := SlotCache.find_put hfree hne
          exact ⟨hsingle.put hfree, fun _ => ⟨walkThreads_found hwalk hne, _, hfind, hslot⟩⟩
        · obtain ⟨rfl, rfl⟩ := Prod.mk.inj (Option.some_inj.mp h)
          rw [hthr]
          exact ⟨hsingle, fun hne => absurd rfl hne⟩

/-- No ids have threads in two slots, wherever lookups led. -/
theorem Reached.single (h : Reached allproc s) : s.thr.Single := by
  induction h with
  | start => exact fun _ _ _ hne => absurd rfl hne
  | threadAddr mem _ hrun ih => exact (kernThreadAddr_found ih hrun).1
  | flushThreads _ _ => exact SlotCache.single_flush
  | procs proc _ ih => exact ih

/-- The same thread is found again in memory in which it still has its lwpid. -/
theorem kernThreadAddr_again (hs : s.thr.Single) (h : kernThreadAddr allproc mem s pid lwpid = some (kthread, s'))
    (hne : kthread ≠ 0) (hid : lwpidOf mem' kthread = lwpidOf mem kthread) :
    kernThreadAddr allproc mem' s' pid lwpid = some (kthread, s') := by
  obtain ⟨hlwpid, i, hfind, hslot⟩ := (kernThreadAddr_found hs h).2 hne
  have hvalid : decide (lwpidOf mem' (s'.thr.slots i).2 = lwpid) = true := by
    rw [hslot, hid, hlwpid]
    exact decide_eq_true rfl
  have hcheck : (s'.thr.check (pid, lwpid) fun t => decide (lwpidOf mem' t = lwpid)) =
      (some (s'.thr.slots i).2, s'.thr) := by
    apply SlotCache.check_of_find hfind
    exact hvalid
  rw [kernThreadAddr, hcheck, hslot]

end Threads

/-! ## The frame in memory -/

section Memory

variable {mem : Addr → Byte} {buf : Buf} {kaddr a : Addr} {len i : Nat}

theorem offset_sub (kaddr : Addr) (hi : i < 2 ^ 64) : (kaddr + BitVec.ofNat 64 i - kaddr).toNat = i := by
  rw [BitVec.add_comm, BitVec.add_sub_cancel, BitVec.toNat_ofNat, Nat.mod_eq_of_lt hi]

/-- What was copied in is copied out. -/
theorem copyout_copyin (hi : i < len) (hlen : len ≤ 2 ^ 64) : copyout (copyin mem buf kaddr len) kaddr i = buf i := by
  rw [copyout, copyin, offset_sub kaddr (hi.trans_le hlen), if_pos hi]

theorem copyin_outside (h : len ≤ (a - kaddr).toNat) : copyin mem buf kaddr len a = mem a := if_neg (Nat.not_lt.mpr h)

theorem stackBuf_apply (hi : i < len) : stackBuf mem kaddr len i = copyout mem kaddr i := blit_zero_of_lt hi

/-- The bytes at an address are not bytes of the frame. -/
def OutsideFrame (frameAddr a : Addr) (n : Nat) : Prop :=
  ∀ i < n, frameBytes ≤ (a + BitVec.ofNat 64 i - frameAddr).toNat

variable {frameAddr : Addr} {n : Nat}

theorem OutsideFrame.copyin_eq (h : OutsideFrame frameAddr a n) (hi : i < n) :
    copyin mem buf frameAddr frameBytes (a + BitVec.ofNat 64 i) = mem (a + BitVec.ofNat 64 i) :=
  copyin_outside (h i hi)

theorem OutsideFrame.read32_eq (h : OutsideFrame frameAddr a 4) :
    read32 (copyin mem buf frameAddr frameBytes) a = read32 mem a := by
  have h₀ := @OutsideFrame.copyin_eq mem buf a 0 frameAddr 4 h (by decide)
  have h₁ := @OutsideFrame.copyin_eq mem buf a 1 frameAddr 4 h (by decide)
  have h₂ := @OutsideFrame.copyin_eq mem buf a 2 frameAddr 4 h (by decide)
  have h₃ := @OutsideFrame.copyin_eq mem buf a 3 frameAddr 4 h (by decide)
  rw [BitVec.add_zero] at h₀
  rw [read32, read32, h₀]
  exact congrArg₂ HAppend.hAppend (congrArg₂ HAppend.hAppend (congrArg₂ HAppend.hAppend h₃ h₂) h₁) rfl

theorem OutsideFrame.read64_eq (h : OutsideFrame frameAddr a 8) :
    read64 (copyin mem buf frameAddr frameBytes) a = read64 mem a := by
  have hlow : OutsideFrame frameAddr a 4 := fun i hi => h i (hi.trans (by decide))
  have hhigh : OutsideFrame frameAddr (a + 4) 4 := by
    intro i hi
    have hsum : a + 4 + BitVec.ofNat 64 i = a + BitVec.ofNat 64 (4 + i) := by
      rw [BitVec.add_assoc, BitVec.ofNat_add]
      rfl
    rw [hsum]
    exact h (4 + i) (by omega)
  rw [read64, read64, hlow.read32_eq, hhigh.read32_eq]

end Memory

/-! ## The moves of the registers -/

section Registers

variable {dst blob frame : Buf} {i x : Nat}

/-- Both reads move the same fields. -/
theorem fullStateMoves_eq : fullStateMoves = procInfoMoves := rfl

/-- What is applied is what is read, the other way. -/
theorem dbgctxMoves_eq : dbgctxMoves = procInfoMoves.map Move.back := rfl

theorem procInfoMoves_apart : procInfoMoves.Pairwise Move.Apart := by decide

theorem dbgctxMoves_apart : dbgctxMoves.Pairwise Move.Apart := by decide

/-- The moves fill the blob, and no word is wider there than in the frame. -/
theorem procInfoMoves_cover : ∀ x < blobBytes, ∃ m ∈ procInfoMoves, m.Covers x := by decide +kernel

theorem procInfoMoves_width : ∀ m ∈ procInfoMoves, m.width ≤ m.srcWidth ∧ m.dst + m.width ≤ blobBytes := by decide

/-- Only the error word is wider in the frame. -/
theorem procInfoMoves_error : ∀ m ∈ procInfoMoves, m.width = m.srcWidth ∨ m = ⟨0x80, 4, 0xe0, 8⟩ := by decide

theorem dbgctxMoves_inside : ∀ m ∈ dbgctxMoves, m.dst + m.width ≤ frameBytes := by decide

/-- The blob that was applied is read from the frame. -/
theorem procInfo_dbgctx : runMoves procInfoMoves dst (runMoves dbgctxMoves frame blob) = blit dst 0 blob blobBytes := by
  funext x
  by_cases hx : x < blobBytes
  · obtain ⟨m, hm, hlo, hhi⟩ := procInfoMoves_cover x hx
    obtain ⟨j, rfl⟩ := Nat.exists_eq_add_of_le hlo
    have hj : j < m.width := Nat.lt_of_add_lt_add_left hhi
    rw [blit_zero_of_lt hx, dbgctxMoves_eq]
    exact runMoves_back procInfoMoves_apart (dbgctxMoves_eq ▸ dbgctxMoves_apart) hm hj (procInfoMoves_width m hm).1 dst
  · rw [blit_outside (.inr (by omega))]
    apply runMoves_outside
    intro m hm hcovers
    have hend := (procInfoMoves_width m hm).2
    rw [Move.Covers] at hcovers
    omega

/-- Applying what was read leaves the frame as it is, but for the upper half of the error word. -/
theorem dbgctx_procInfo (hi : ¬ (0xe4 ≤ i ∧ i < 0xe8)) :
    runMoves dbgctxMoves frame (runMoves procInfoMoves dst frame) i = frame i := by
  by_cases hcover : ∃ m ∈ procInfoMoves, m.back.Covers i
  · obtain ⟨m, hm, hlo, hhi⟩ := hcover
    obtain ⟨j, rfl⟩ := Nat.exists_eq_add_of_le hlo
    have hj : j < m.srcWidth := Nat.lt_of_add_lt_add_left hhi
    have hroom : j < m.width := by
      rcases procInfoMoves_error m hm with hwidth | rfl
      · exact hwidth ▸ hj
      · -- the lower half of the error word
        have hlower : j < 8 := hj
        change ¬ (0xe4 ≤ 0xe0 + j ∧ 0xe0 + j < 0xe8) at hi
        change j < 4
        omega
    have hput := @runMoves_back_self _ _ frame _ procInfoMoves_apart (dbgctxMoves_eq ▸ dbgctxMoves_apart) hm hj dst
    rw [dbgctxMoves_eq]
    exact hput.trans (if_pos hroom)
  · apply runMoves_outside
    rw [dbgctxMoves_eq]
    intro m hm hcovers
    obtain ⟨m', hm', rfl⟩ := List.mem_map.mp hm
    exact hcover ⟨m', hm', hcovers⟩

end Registers

/-! ## The functions -/

/-- The ids are those of a thread with a frame, and what the functions follow to the frame is not in the frame. -/
structure Located (allproc : Addr) (k : Kern) (pid lwpid : Id) (kthread frameAddr : Addr) : Prop where
  pid_ne : pid ≠ 0
  thread_ne : kthread ≠ 0
  found : ∃ s, kernThreadAddr allproc k.mem k.caches pid lwpid = some (kthread, s)
  frame : read64 k.mem (kthread + 0x460) = frameAddr
  lwpid_outside : OutsideFrame frameAddr (kthread + 0x9c) 4
  frame_outside : OutsideFrame frameAddr (kthread + 0x460) 8

section Functions

variable {allproc kthread frameAddr : Addr} {k : Kern} {pid lwpid : Id}

/-- A thread on the lists is located, if it is not used out of a stale slot. -/
theorem located_of_fresh (kernel : Kernel allproc) {s : Caches} (hfresh : FreshThread kernel s pid lwpid)
    (hpid : pid ≠ 0) (hthread : kernel.threadNow pid lwpid = kthread) (hne : kthread ≠ 0)
    (hframe : read64 kernel.mem (kthread + 0x460) = frameAddr) (hlwpid : OutsideFrame frameAddr (kthread + 0x9c) 4)
    (hpointer : OutsideFrame frameAddr (kthread + 0x460) 8) :
    Located allproc ⟨kernel.mem, s⟩ pid lwpid kthread frameAddr := by
  obtain ⟨s', hrun, -, -⟩ := kernThreadAddr_spec hfresh
  rw [hthread] at hrun
  exact ⟨hpid, hne, ⟨s', hrun⟩, hframe, hlwpid, hpointer⟩

/-- The frame is fetched, if the copies succeed. -/
theorem Located.fetch (h : Located allproc k pid lwpid kthread frameAddr) :
    ∃ s, kernThreadAddr allproc k.mem k.caches pid lwpid = some (kthread, s) ∧
      fetchFrame allproc (fun _ => true) k pid lwpid =
        some (some (kthread, frameAddr, stackBuf k.mem frameAddr frameBytes), s) := by
  obtain ⟨s, hfound⟩ := h.found
  refine ⟨s, hfound, ?_⟩
  rw [fetchFrame, if_neg h.pid_ne, hfound, Option.map_some]
  simp only [h.thread_ne, h.frame, Bool.not_true, Bool.false_eq_true, or_self, if_false]

/-- The thread is where it was after the frame was written, and after a read. -/
theorem Located.next (h : Located allproc k pid lwpid kthread frameAddr) (hk : Reached allproc k.caches) {s : Caches}
    (hfound : kernThreadAddr allproc k.mem k.caches pid lwpid = some (kthread, s)) (buf : Buf) :
    Located allproc ⟨copyin k.mem buf frameAddr frameBytes, s⟩ pid lwpid kthread frameAddr ∧
      Located allproc ⟨k.mem, s⟩ pid lwpid kthread frameAddr := by
  have hwritten : lwpidOf (copyin k.mem buf frameAddr frameBytes) kthread = lwpidOf k.mem kthread :=
    h.lwpid_outside.read32_eq
  constructor
  · refine { h with
      found := ⟨s, kernThreadAddr_again hk.single hfound h.thread_ne hwritten⟩
      frame := ?_ }
    exact h.frame_outside.read64_eq.trans h.frame
  · exact { h with found := ⟨s, kernThreadAddr_again hk.single hfound h.thread_ne rfl⟩ }

/-- What is written to the frame is fetched the next time. -/
theorem stackBuf_copyin (buf : Buf) : stackBuf (copyin k.mem buf frameAddr frameBytes) frameAddr frameBytes =
    blit (fun _ => 0) 0 buf frameBytes := by
  funext i
  by_cases hi : i < frameBytes
  · rw [stackBuf_apply hi, copyout_copyin hi (by decide), blit_zero_of_lt hi]
  · rw [stackBuf, blit_outside (.inr (by omega)), blit_outside (.inr (by omega))]

/-- Where the moves to the frame do not reach, a written frame has what it had. -/
theorem stackBuf_written (blob : Buf) :
    stackBuf (copyin k.mem (runMoves dbgctxMoves (stackBuf k.mem frameAddr frameBytes) blob) frameAddr frameBytes)
        frameAddr frameBytes = runMoves dbgctxMoves (stackBuf k.mem frameAddr frameBytes) blob := by
  rw [stackBuf_copyin]
  funext i
  by_cases hi : i < frameBytes
  · exact blit_zero_of_lt hi
  · have houtside : ∀ m ∈ dbgctxMoves, ¬ m.Covers i := by
      intro m hm hcovers
      have hend := dbgctxMoves_inside m hm
      rw [Move.Covers] at hcovers
      omega
    rw [blit_outside (.inr (by omega)), runMoves_outside houtside, stackBuf, blit_outside (.inr (by omega))]

/-- What a read returns. -/
theorem Located.get (h : Located allproc k pid lwpid kthread frameAddr) (dst : Buf) :
    ∃ s, kernThreadAddr allproc k.mem k.caches pid lwpid = some (kthread, s) ∧
      kernGetProcInfoByPid allproc (fun _ => true) k pid lwpid (some dst) =
        some (0, some (runMoves procInfoMoves dst (stackBuf k.mem frameAddr frameBytes)), ⟨k.mem, s⟩) := by
  obtain ⟨s, hfound, hfetch⟩ := h.fetch
  exact ⟨s, hfound, by rw [kernGetProcInfoByPid, hfetch, Option.map_some]⟩

/-- What an application writes. -/
theorem Located.apply (h : Located allproc k pid lwpid kthread frameAddr) (blob : Buf) :
    ∃ s, kernThreadAddr allproc k.mem k.caches pid lwpid = some (kthread, s) ∧
      kernApplyThreadDbgctx allproc (fun _ => true) k pid lwpid (some blob) =
        some (0, ⟨copyin k.mem (runMoves dbgctxMoves (stackBuf k.mem frameAddr frameBytes) blob) frameAddr
          frameBytes, s⟩) := by
  obtain ⟨s, hfound, hfetch⟩ := h.fetch
  exact ⟨s, hfound, by rw [kernApplyThreadDbgctx, hfetch, Option.map_some]; rfl⟩

/-- A byte of memory after the frame was written, by its offset in the frame. -/
theorem copyin_eq_of {buf : Buf} {a : Addr}
    (h : (a - frameAddr).toNat < frameBytes → buf (a - frameAddr).toNat = stackBuf k.mem frameAddr frameBytes
      (a - frameAddr).toNat) : copyin k.mem buf frameAddr frameBytes a = k.mem a := by
  by_cases hi : (a - frameAddr).toNat < frameBytes
  · have haddr : frameAddr + (a - frameAddr) = a := by rw [BitVec.add_comm, BitVec.sub_add_cancel]
    rw [copyin, if_pos hi, h hi, stackBuf_apply hi, copyout, BitVec.ofNat_toNat, BitVec.setWidth_eq, haddr]
  · exact copyin_outside (Nat.le_of_not_lt hi)

end Functions

/-- A blob that is applied is read back, and changes no byte but those that the moves map. A blob that was just read
changes nothing but the upper half of the error word. The full state has the same blob, whatever succeeds. -/
theorem frames_round_trip (allproc : Addr) :
    (∀ (k : Kern) (pid lwpid : Id) (kthread frameAddr : Addr) (blob dst : Buf), Reached allproc k.caches →
      Located allproc k pid lwpid kthread frameAddr →
        (∃ k₁ k₂, kernApplyThreadDbgctx allproc (fun _ => true) k pid lwpid (some blob) = some (0, k₁) ∧
          kernGetProcInfoByPid allproc (fun _ => true) k₁ pid lwpid (some dst) =
            some (0, some (blit dst 0 blob blobBytes), k₂) ∧
          ∀ a, (∀ m ∈ dbgctxMoves, ¬ m.Covers (a - frameAddr).toNat) → k₁.mem a = k.mem a) ∧
        ∃ regs k₁ k₂, kernGetProcInfoByPid allproc (fun _ => true) k pid lwpid (some dst) = some (0, some regs, k₁) ∧
          kernApplyThreadDbgctx allproc (fun _ => true) k₁ pid lwpid (some regs) = some (0, k₂) ∧
          ∀ a, ¬ (0xe4 ≤ (a - frameAddr).toNat ∧ (a - frameAddr).toNat < 0xe8) → k₂.mem a = k.mem a) ∧
    ∀ (io : Nat → Bool) (k : Kern) (pid lwpid : Id) (regs dbreg fpu : Option Buf),
      (kernGetLwpFullState allproc io k pid lwpid regs dbreg fpu).map (fun r => r.2.1) =
        (kernGetProcInfoByPid allproc io k pid lwpid regs).map (fun r => r.2.1) := by
  refine ⟨fun k pid lwpid kthread frameAddr blob dst hk h => ⟨?_, ?_⟩, ?_⟩
  · obtain ⟨s, hfound, happly⟩ := h.apply blob
    obtain ⟨s', -, hget⟩ := (h.next hk hfound _).1.get dst
    dsimp only at hget
    rw [stackBuf_written, procInfo_dbgctx] at hget
    exact ⟨_, _, happly, hget, fun a ha => copyin_eq_of fun _ => runMoves_outside ha⟩
  · obtain ⟨s, hfound, hget⟩ := h.get dst
    obtain ⟨s', -, happly⟩ := (h.next hk hfound dst).2.apply _
    exact ⟨_, _, _, hget, happly, fun a ha => copyin_eq_of fun _ => dbgctx_procInfo ha⟩
  · intro io k pid lwpid regs dbreg fpu
    cases regs with
    | none => rfl
    | some dst =>
      rw [kernGetLwpFullState, kernGetProcInfoByPid, Option.map_map, Option.map_map, fullStateMoves_eq]
      refine congrFun (congrArg Option.map ?_) _
      funext ⟨fetched, caches⟩
      cases fetched with
      | none => rfl
      | some frame => rfl

/-- A process at `0x2000` with the pid 5, and its thread at `0x3000` with the lwpid 7 and the frame at `0x4000`. -/
def paused : Kernel 0x1000 where
  mem := fun a =>
    if a = 0x1001 then 0x20 else if a = 0x20BC then 5 else if a = 0x2011 then 0x30
    else if a = 0x309C then 7 else if a = 0x3461 then 0x40 else 0
  procs := [0x2000]
  threads := fun _ => [0x3000]
  procs_linked := ⟨by decide, by decide, by decide⟩
  threads_linked := List.forall_mem_singleton.mpr ⟨by decide, by decide, by decide⟩
  pids_distinct := List.pairwise_singleton _ _
  lwpids_distinct := fun _ _ => List.pairwise_singleton _ _

theorem frames_round_trip_paused : ∃ k₁ k₂,
    kernApplyThreadDbgctx 0x1000 (fun _ => true) ⟨paused.mem, Caches.empty⟩ 5 7 (some fun x => BitVec.ofNat 8 x) =
      some (0, k₁) ∧
    kernGetProcInfoByPid 0x1000 (fun _ => true) k₁ 5 7 (some fun _ => 0) =
      some (0, some (blit (fun _ => 0) 0 (fun x => BitVec.ofNat 8 x) blobBytes), k₂) := by
  have hfresh : FreshThread paused Caches.empty 5 7 := fresh_empty paused (.threadAddr 5 7)
  have hlocated : Located 0x1000 ⟨paused.mem, Caches.empty⟩ 5 7 0x3000 0x4000 := by
    refine located_of_fresh paused hfresh (by decide) (by decide) (by decide) (by decide) ?_ ?_
    · unfold OutsideFrame
      decide
    · unfold OutsideFrame
      decide
  obtain ⟨k₁, k₂, happly, hget, -⟩ := ((frames_round_trip 0x1000).1 ⟨paused.mem, Caches.empty⟩ 5 7 0x3000 0x4000
    (fun x => BitVec.ofNat 8 x) (fun _ => 0) .start hlocated).1
  exact ⟨k₁, k₂, happly, hget⟩

end RegisterFrames

end Ps5Debugger

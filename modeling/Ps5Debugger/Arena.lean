import Ps5Debugger.Lib.Bytes
import Ps5Debugger.Lib.Machine
import Ps5Debugger.Lib.Mask
import Ps5Debugger.Lib.Ranges
import Mathlib.Data.List.FinRange
import Mathlib.Logic.Function.Basic

/-!
# The allocation arena of the target

`proc_remote_alloc` and `proc_remote_free` (`proc_remote.c`) hand out memory of a target process.
A plain allocation comes out of an arena: a few large mappings (segments), a cursor in each, and a
first-fit list of freed blocks. There are four arenas; the fifth process takes the arena of the
first one, whose bookkeeping is dropped while its memory stays mapped.

What the operating system and `malloc` answer is an input of every call. Two things are part of the
state for the theorems only: the memory of each process that allocations mapped and that is still
mapped, and the allocations that are live. What else is mapped in a process plays no part.
-/

namespace Ps5Debugger

open Lib

/-! ## The arenas -/

/-- `ARENA_ALIGN` -/
def arenaAlign : Nat := 0x4000

/-- `ARENA_CHUNK` -/
def arenaChunk : Nat := 16 * 1024 * 1024

/-- `arena_round(n)` -/
def arenaRound (n : Nat) : Nat := andNot (u64 (n + (arenaAlign - 1))) (arenaAlign - 1)

/-- `arena_round(length ? length : ARENA_ALIGN)` -/
def blockSize (length : Nat) : Nat := arenaRound (if length = 0 then arenaAlign else length)

/-- `struct arena_seg` -/
structure ArenaSeg where
  base : Nat
  size : Nat
  used : Nat
deriving DecidableEq, Repr

/-- `struct arena_blk` -/
structure ArenaBlk where
  addr : Nat
  size : Nat
deriving DecidableEq, Repr

/-- `struct arena_pid`, in use. -/
structure ArenaPid where
  pid : Nat
  segs : List ArenaSeg
  freelist : List ArenaBlk
deriving DecidableEq, Repr

/-- `g_arenas`; `none` is a slot that is not in use. -/
abbrev Arenas : Type := Fin 4 → Option ArenaPid

/-- `arena_find(pid)` -/
def arenaFind (g : Arenas) (pid : Nat) : Option (Fin 4 × ArenaPid) :=
  (List.finRange 4).findSome? fun i =>
    match g i with
    | none => none
    | some ap => if ap.pid = pid then some (i, ap) else none

/-- `arena_get(pid)`: the slot and what it then holds. A new arena takes the first slot that is not
in use, or slot 0. -/
def arenaGet (g : Arenas) (pid : Nat) : Fin 4 × ArenaPid :=
  match arenaFind g pid with
  | some r => r
  | none => (((List.finRange 4).find? fun i => (g i).isNone).getD 0, ⟨pid, [], []⟩)

/-- The search in the free list: the address, and the list without the block or with what is left
of it. -/
def takeFree (size : Nat) : List ArenaBlk → Option (Nat × List ArenaBlk)
  | [] => none
  | b :: bs =>
    if size ≤ b.size then
      if size + arenaAlign ≤ b.size then some (b.addr, ⟨b.addr + size, b.size - size⟩ :: bs)
      else some (b.addr, bs)
    else (takeFree size bs).map fun r => (r.1, b :: r.2)

/-- The search in the segments: the address, and the segments with one cursor moved. -/
def takeSeg (size : Nat) : List ArenaSeg → Option (Nat × List ArenaSeg)
  | [] => none
  | s :: ss =>
    if size ≤ s.size - s.used then some (s.base + s.used, { s with used := s.used + size } :: ss)
    else (takeSeg size ss).map fun r => (r.1, s :: r.2)

/-! ## The operating system -/

/-- One `sys_proc_alloc`. -/
inductive MmapTry where
  /-- nothing is mapped, and the call fails -/
  | refused
  /-- the memory is mapped, but the call fails after that -/
  | leaked (base : Nat)
  /-- the memory is mapped -/
  | done (base : Nat)
deriving DecidableEq, Repr

/-- The retries of `do_real_alloc`. -/
def doRealAllocLoop (size : Nat) : (Nat → Bool) → List MmapTry → Option Nat × (Nat → Bool)
  | mapped, [] => (none, mapped)
  | mapped, .refused :: tries => doRealAllocLoop size mapped tries
  | mapped, .leaked base :: tries => doRealAllocLoop size (mapRange mapped ⟨base, size⟩) tries
  | mapped, .done base :: _ => (some base, mapRange mapped ⟨base, size⟩)

/-- `do_real_alloc(pid, &out, length, hint)`: one try and five retries of `sys_proc_alloc`, which
rounds the length. -/
def doRealAlloc (mapped : Nat → Bool) (length : Nat) (tries : List MmapTry) : Option Nat × (Nat → Bool) :=
  doRealAllocLoop (arenaRound length) mapped (tries.take 6)

/-- `do_real_free(pid, addr, length)`: `sys_proc_free` refuses address 0, rounds the length and calls
`munmap`, which takes effect or not. -/
def doRealFree (mapped : Nat → Bool) (addr length : Nat) (unmaps : Bool) : Nat → Bool :=
  if addr = 0 then mapped
  else if unmaps then unmapRange mapped ⟨addr, arenaRound length⟩
  else mapped

/-! ## Allocating and freeing -/

/-- What an allocation finds. -/
structure AllocEnv where
  /-- the outcomes of the calls of `sys_proc_alloc`; past the end they are refused -/
  tries : List MmapTry
  /-- whether `malloc` gives the segment's node -/
  mallocOk : Bool

/-- What freeing finds. -/
structure FreeEnv where
  /-- whether `malloc` gives the block's node -/
  mallocOk : Bool
  /-- whether `munmap` takes effect -/
  unmaps : Bool

/-- How much `arena_alloc` asks the operating system for: `(size > ARENA_CHUNK) ? size : ARENA_CHUNK`. -/
def segmentSize (length : Nat) : Nat := if blockSize length > arenaChunk then blockSize length else arenaChunk

/-- `arena_alloc(pid, length, &out)` -/
def arenaAlloc (g : Arenas) (mapped : Nat → Bool) (pid length : Nat) (env : AllocEnv) :
    Option Nat × Arenas × (Nat → Bool) :=
  let size := blockSize length
  let slot := (arenaGet g pid).1
  let ap := (arenaGet g pid).2
  match takeFree size ap.freelist with
  | some (addr, freelist) =>
    (some addr, Function.update g slot (some { ap with freelist := freelist }), mapped)
  | none =>
    match takeSeg size ap.segs with
    | some (addr, segs) => (some addr, Function.update g slot (some { ap with segs := segs }), mapped)
    | none =>
      let segSize := segmentSize length
      match doRealAlloc mapped segSize env.tries with
      | (none, mapped) => (none, Function.update g slot (some ap), mapped)
      | (some base, mapped) =>
        if !env.mallocOk then (some base, Function.update g slot (some ap), mapped)
        else
          (some base, Function.update g slot (some { ap with segs := ⟨base, segSize, size⟩ :: ap.segs }),
            mapped)

/-- The ownership test of `arena_free`. -/
def arenaOwns (ap : ArenaPid) (addr : Nat) : Bool :=
  ap.segs.any fun s => decide (s.base ≤ addr) && decide (addr < s.base + s.size)

/-- `arena_free(pid, addr, length)`; `none` is the error return. -/
def arenaFree (g : Arenas) (pid addr length : Nat) (mallocOk : Bool) : Option Arenas :=
  match arenaFind g pid with
  | none => none
  | some (slot, ap) =>
    if !arenaOwns ap addr then none
    else if !mallocOk then some g
    else
      some (Function.update g slot
        (some { ap with freelist := ⟨addr, blockSize length⟩ :: ap.freelist }))

/-! ## The entry points -/

/-- An allocation that was not freed: what the caller knows of it, and how much memory is behind it. -/
structure LiveAlloc where
  pid : Nat
  addr : Nat
  length : Nat
  size : Nat
deriving DecidableEq, Repr

/-- The state of the arenas, of the processes and of their users. -/
structure Remote where
  /-- `g_arena_enabled` -/
  enabled : Bool
  arenas : Arenas
  /-- the memory that allocations mapped, in each process -/
  mapped : Nat → Nat → Bool
  live : List LiveAlloc

/-- `proc_remote_alloc(pid, &out, length, hint)`: the block, and the state after it. -/
def procRemoteAlloc (s : Remote) (pid length hint : Nat) (env : AllocEnv) : Option LiveAlloc × Remote :=
  if s.enabled && hint == 0x4000 then
    let r := arenaAlloc s.arenas (s.mapped pid) pid length env
    let block := r.1.map fun addr => ⟨pid, addr, length, blockSize length⟩
    (block, { s with
      arenas := r.2.1, mapped := Function.update s.mapped pid r.2.2, live := block.toList ++ s.live })
  else
    let r := doRealAlloc (s.mapped pid) length env.tries
    let block := r.1.map fun addr => ⟨pid, addr, length, arenaRound length⟩
    (block, { s with mapped := Function.update s.mapped pid r.2, live := block.toList ++ s.live })

/-- The live allocations after one with this address and length was given back, if there is one. -/
def dropLive (live : List LiveAlloc) (pid addr length : Nat) : List LiveAlloc :=
  live.eraseP fun a => a.pid == pid && a.addr == addr && a.length == length

/-- `proc_remote_free(pid, addr, length)` -/
def procRemoteFree (s : Remote) (pid addr length : Nat) (env : FreeEnv) : Remote :=
  let live := dropLive s.live pid addr length
  match if s.enabled then arenaFree s.arenas pid addr length env.mallocOk else none with
  | some arenas => { s with arenas := arenas, live := live }
  | none =>
    { s with
      mapped := Function.update s.mapped pid (doRealFree (s.mapped pid) addr length env.unmaps)
      live := live }

end Ps5Debugger

import Ps5Debugger.Target
import Ps5Debugger.Lib.Table

/-!
# Searching arrays of bytes

`CMD_PROC_SCAN_AOB_MULTI` looks for several masked byte patterns at once. The region is split
into spans, one per worker; each worker walks its span once, tests at every position only the
patterns whose first byte fits, and keeps the first `target_count + 1` addresses of each
pattern. `aob_merge` then picks the occurrence the client asked for. All of `aob_scan.h`, and
the search of `proc_scan_aob_multi_handle` (`scan.c`) behind the parsing of the patterns.

The workers share read-only data and write to arrays of their own, so that a model of one
worker says what it does on any schedule.
-/

namespace Ps5Debugger

open Lib

/-! ## Patterns -/

/-- `struct aob_pat`. `pat` and `msk` point into what the client sent. -/
structure AobPat where
  pat : Buf
  /-- 1 where the byte must match -/
  msk : Buf
  plen : Nat
  targetCount : UInt8
  deriving Inhabited

/-- `first_fixed`, as the handler sets it: `pat[0]`, or -1 (here `none`) for a wildcard. -/
def AobPat.firstFixed (p : AobPat) : Option Byte := if p.msk 0 = 1 then some (p.pat 0) else none

/-- `cap`: how many addresses a worker keeps. -/
def AobPat.cap (p : AobPat) : Nat := p.targetCount.toNat + 1

/-- `aob_match_at`. -/
def aobMatchAt (buf : Buf) (pos : Nat) (p : AobPat) : Bool :=
  (List.range p.plen).all fun k => !(buf (pos + k) != p.pat k && p.msk k == 1)

/-! ## `aob_build_dispatch` -/

/-- `struct aob_dispatch`: bucket `b` is `bidx[boff[b]] .. bidx[boff[b + 1] - 1]`. -/
structure AobDispatch where
  boff : Nat → Nat
  bidx : Nat → Nat
  widx : Nat → Nat
  wildCount : Nat

/-- `bcount[b]++`. -/
def bump (c : Nat → Nat) (b : Byte) : Nat → Nat := Function.update c b.toNat (c b.toNat + 1)

/-- `bcount`: how many patterns start with each byte. -/
def aobBcount (pats : List AobPat) : Nat → Nat :=
  pats.foldl (fun c p => match p.firstFixed with
    | some b => bump c b
    | none => c) fun _ => 0

/-- What the loop over the patterns writes. -/
structure DispatchFill where
  cursor : Nat → Nat
  bidx : Nat → Nat
  widx : Nat → Nat
  wildCount : Nat

/-- One turn of the loop, for pattern number `pi`. -/
def dispatchPat (st : DispatchFill) (x : AobPat × Nat) : DispatchFill :=
  match x.1.firstFixed with
  | some b =>
    { st with
      bidx := Function.update st.bidx (st.cursor b.toNat) x.2
      cursor := bump st.cursor b }
  | none =>
    { st with widx := Function.update st.widx st.wildCount x.2, wildCount := st.wildCount + 1 }

/-- `aob_build_dispatch`, into the storage given. -/
def aobBuildDispatch (pats : List AobPat) (bidxStorage widxStorage : Nat → Nat) : AobDispatch :=
  let boff := prefixSum (aobBcount pats)
  let st := pats.zipIdx.foldl dispatchPat ⟨boff, bidxStorage, widxStorage, 0⟩
  ⟨boff, st.bidx, st.widx, st.wildCount⟩

/-! ## `aob_scan_range` -/

/-- What is fixed of a `struct aob_worker`. -/
structure AobWorker where
  pats : List AobPat
  disp : AobDispatch
  baseAddr : Nat
  length : Nat
  maxPlen : Nat
  chunkSize : Nat
  slotOff : Nat → Nat
  start : Nat
  stop : Nat

/-- What a worker writes: the addresses of each pattern from its slot offset on, how many
there are, and whether that is all it keeps. -/
structure AobFound where
  addrs : Nat → Nat
  counts : Nat → Nat
  done : Nat → Bool

/-- `aob_try`: test pattern `pi` at position `jj` of the buffer. The number returned is 1 when
the pattern reached its cap. -/
def aobTry (w : AobWorker) (readBuf : Buf) (readLen jj goff absAddr : Nat) (st : AobFound) (pi : Nat) :
    AobFound × Nat :=
  let p := w.pats.getD pi default
  if st.done pi then (st, 0)
  else if u64 (goff + p.plen) > w.length then (st, 0)
  else if u32 (jj + p.plen) > readLen then (st, 0)
  else if !aobMatchAt readBuf jj p then (st, 0)
  else
    let c := st.counts pi
    if c < p.cap then
      let st :=
        { st with
          addrs := Function.update st.addrs (u32 (w.slotOff pi + c)) absAddr
          counts := Function.update st.counts pi (c + 1) }
      if c + 1 = p.cap then ({ st with done := Function.update st.done pi true }, 1) else (st, 0)
    else (st, 0)

/-- `active -= aob_try(...)`. -/
def aobTryActive (w : AobWorker) (readBuf : Buf) (readLen jj goff absAddr : Nat) (sa : AobFound × Nat)
    (pi : Nat) : AobFound × Nat :=
  let r := aobTry w readBuf readLen jj goff absAddr sa.1 pi
  (r.1, sa.2 - r.2)

/-- One position: the patterns that start with its byte, then those that start with a
wildcard. -/
def aobPosition (w : AobWorker) (readBuf : Buf) (off readLen jj : Nat) (sa : AobFound × Nat) :
    AobFound × Nat :=
  let b := (readBuf jj).toNat
  let goff := off + jj
  let test := aobTryActive w readBuf readLen jj goff (u64 (w.baseAddr + goff))
  let sa := (List.range' (w.disp.boff b) (w.disp.boff (b + 1) - w.disp.boff b)).foldl
    (fun sa t => test sa (w.disp.bidx t)) sa
  (List.range w.disp.wildCount).foldl (fun sa t => test sa (w.disp.widx t)) sa

/-- The positions of a chunk, from `jj` on, until no pattern is active. -/
def aobPositions (w : AobWorker) (readBuf : Buf) (off own readLen : Nat) :
    Nat → Nat → AobFound × Nat → AobFound × Nat
  | 0, _, sa => sa
  | fuel + 1, jj, sa =>
    if jj < own then
      let sa := aobPosition w readBuf off readLen jj sa
      if sa.2 = 0 then sa else aobPositions w readBuf off own readLen fuel (jj + 1) sa
    else sa

/-- The positions a chunk at `off` owns. -/
def AobWorker.own (w : AobWorker) (off : Nat) : Nat :=
  if w.stop - off < w.chunkSize then w.stop - off else w.chunkSize

/-- The bytes it reads: up to the end of a pattern that starts at its last position, within
the region. -/
def AobWorker.readLen (w : AobWorker) (off : Nat) : Nat :=
  let readLen := u32 (w.own off + w.maxPlen - 1)
  if readLen > w.length - off then w.length - off else readLen

/-- The chunks of a worker, from `off` on. A chunk advances, so `fuel = stop - start` is
enough. -/
def aobChunks (mem : Memory) (w : AobWorker) : Nat → Nat → Buf → AobFound × Nat → AobFound × Nat
  | 0, _, _, sa => sa
  | fuel + 1, off, readBuf, sa =>
    if off < w.stop ∧ sa.2 > 0 then
      let readBuf := readInto mem readBuf (u64 (w.baseAddr + off)) (w.readLen off)
      aobChunks mem w fuel (off + w.own off) readBuf
        (aobPositions w readBuf off (w.own off) (w.readLen off) (w.own off) 0 sa)
    else sa

/-- `aob_scan_range`, on arrays with whatever content. -/
def aobScanRange (mem : Memory) (w : AobWorker) (readBuf : Buf) (st : AobFound) : AobFound :=
  let st :=
    { st with
      counts := fun pi => if pi < w.pats.length then 0 else st.counts pi
      done := fun pi => if pi < w.pats.length then false else st.done pi }
  (aobChunks mem w (w.stop - w.start) w.start readBuf (st, w.pats.length)).1

/-! ## `aob_merge` -/

/-- What the merge of one pattern keeps. -/
structure MergeState where
  total : Nat
  result : Nat
  found : Bool

/-- One worker's part of pattern `pi`. -/
def mergeWorker (p : AobPat) (slotOff pi : Nat) (m : MergeState) (st : AobFound) : MergeState :=
  let tc := p.targetCount.toNat
  let c := st.counts pi
  let m :=
    if !m.found && decide (tc ≥ 1) && decide (m.total < tc) && decide (m.total + c ≥ tc) then
      { m with result := st.addrs (u32 (slotOff + (tc - m.total - 1))), found := true }
    else m
  { m with total := if m.total + c > p.cap then p.cap else m.total + c }

/-- `output[pi]`. -/
def mergePat (p : AobPat) (stopUnique : Bool) (slotOff pi : Nat) (workers : List AobFound) : Nat :=
  let m := workers.foldl (mergeWorker p slotOff pi) ⟨0, 0, false⟩
  if !m.found then 0
  else if stopUnique && decide (m.total ≥ p.cap) then 0
  else m.result

/-- `aob_merge`. -/
def aobMerge (pats : List AobPat) (stopUnique : Bool) (slotOff : Nat → Nat) (workers : List AobFound) :
    List Nat :=
  pats.zipIdx.map fun x => mergePat x.1 stopUnique (slotOff x.2) x.2 workers

/-! ## `proc_scan_aob_multi_handle` -/

/-- `max_plen`. -/
def aobMaxPlen (pats : List AobPat) : Nat := pats.foldl (fun m p => if p.plen > m then p.plen else m) 1

/-- `slot_off`. -/
def aobSlotOff (pats : List AobPat) : Nat → Nat
  | 0 => 0
  | pi + 1 => u32 (aobSlotOff pats pi + (pats.getD pi default).cap)

/-- `AOB_SCAN_THREADS_MAX`. -/
def aobScanThreadsMax : Nat := 16

/-- `span`, from `g_aob_scan_threads`. -/
def aobSpan (threads length : Nat) : Nat :=
  let n := if threads < 1 then 1 else threads
  let n := if n > aobScanThreadsMax then aobScanThreadsMax else n
  let n := if n > length then (if length > 0 then length else 1) else n
  let span := (length + n - 1) / n
  if span = 0 then 1 else span

/-- `num_workers`, once `span` is known. -/
def aobNumWorkers (span length : Nat) : Nat :=
  let n := (length + span - 1) / span
  let n := if n < 1 then 1 else n
  if n > aobScanThreadsMax then aobScanThreadsMax else n

/-- What a search is asked for. -/
structure AobRequest where
  address : UInt64
  length : UInt32
  stopUnique : Bool
  pats : List AobPat

/-- What it finds: the two tuning globals, and what the allocations hold before. -/
structure AobEnv where
  /-- `g_aob_scan_threads` -/
  threads : Nat
  /-- `g_aob_chunk_size` -/
  chunk : Nat
  bidx : Nat → Nat
  widx : Nat → Nat
  readBufs : Nat → Buf
  found : Nat → AobFound

/-- `chunkSize`: never below the longest pattern. -/
def AobEnv.chunkSize (env : AobEnv) (pats : List AobPat) : Nat :=
  if env.chunk < aobMaxPlen pats then aobMaxPlen pats else env.chunk

/-- `workers[w]`. -/
def aobWorker (r : AobRequest) (env : AobEnv) (w : Nat) : AobWorker :=
  let length := r.length.toNat
  let span := aobSpan env.threads length
  let s := w * span
  let e := s + span
  { pats := r.pats
    disp := aobBuildDispatch r.pats env.bidx env.widx
    baseAddr := r.address.toNat
    length
    maxPlen := aobMaxPlen r.pats
    chunkSize := env.chunkSize r.pats
    slotOff := aobSlotOff r.pats
    start := if s > length then length else s
    stop := if e > length then length else e }

/-- The search of `proc_scan_aob_multi_handle`: the addresses sent. -/
def aobSearch (mem : Memory) (r : AobRequest) (env : AobEnv) : List Nat :=
  let length := r.length.toNat
  let workers := (List.range (aobNumWorkers (aobSpan env.threads length) length)).map fun w =>
    aobScanRange mem (aobWorker r env w) (env.readBufs w) (env.found w)
  aobMerge r.pats r.stopUnique (aobSlotOff r.pats) workers

end Ps5Debugger

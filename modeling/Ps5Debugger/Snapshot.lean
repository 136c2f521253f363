import Ps5Debugger.ListSession
import Ps5Debugger.Lib.Bitset
import Ps5Debugger.Lib.SplitStore

/-!
# Snapshot sessions

A first scan for an unknown value keeps every slot of its segments: a bitmap of the slots
still alive and a baseline with the last stored value of each, the front of it in RAM and the
rest in a spill file. `fs_snapshot_create` fills them, `fs_snapshot_rescan` narrows them,
`fs_snapshot_get` sends the survivors, and `fs_snapshot_materialize` turns a session with few
survivors left into a LIST session. All of `scan_turbo.c`.

File reads and writes succeed (`snapMaterialize` models the failure of its reads); the
progress values sent on the way are left out.
-/

namespace Ps5Debugger

open Lib

/-! ## Segments and slots -/

/-- `struct fs_segment`. -/
structure FsSegment where
  addr : Nat
  slotStart : Nat
  nslots : Nat
  deriving DecidableEq, Inhabited

/-- The slots of a segment of `len` bytes. -/
def segSlots (v step len : Nat) : Nat := if len ≥ v then (len - v) / step + 1 else 0

/-- The segment table, from a running slot count on. -/
def buildSegments (v step : Nat) : Nat → List SnapSegment → List FsSegment
  | _, [] => []
  | slotCount, g :: gs =>
    let ns := segSlots v step g.length.toNat
    ⟨g.address.toNat, slotCount, ns⟩ :: buildSegments v step (u64 (slotCount + ns)) gs

/-- `slot_count` after all segments. -/
def slotTotal (v step : Nat) : Nat → List SnapSegment → Nat
  | slotCount, [] => slotCount
  | slotCount, g :: gs => slotTotal v step (u64 (slotCount + segSlots v step g.length.toNat)) gs

/-- A snapshot session. -/
structure SnapSession where
  bitmap : Buf
  slotCount : Nat
  survivorCount : Nat
  stride : Nat
  store : SplitStore
  firstFile : Buf
  hasFirst : Bool
  prevFile : Buf
  hasPrev : Bool
  seg : List FsSegment
  valueLength : Nat

/-- The binary search of `fs_slot_addr`: `while (lo + 1 < hi)`. -/
def searchSegment (seg : List FsSegment) (i : Nat) : Nat → Nat → Nat → Nat
  | 0, lo, _ => lo
  | fuel + 1, lo, hi =>
    if lo + 1 < hi then
      let mid := (lo + hi) / 2
      if (seg.getD mid default).slotStart ≤ i then searchSegment seg i fuel mid hi
      else searchSegment seg i fuel lo mid
    else lo

/-- `fs_slot_addr`. -/
def slotAddr (seg : List FsSegment) (stride i : Nat) : Nat :=
  let g := seg.getD (searchSegment seg i seg.length 0 seg.length) default
  u64 (g.addr + (i - g.slotStart) * stride)

/-- The address of slot `i` of a session. -/
def SnapSession.addr (s : SnapSession) (i : Nat) : Nat := slotAddr s.seg s.stride i

/-! ## `fs_snapshot_create` -/

/-- What a snapshot START is asked for. -/
structure SnapReq where
  valueLength : Nat
  step : Nat
  segs : List SnapSegment
  includeZeros : Bool
  keepFirst : Bool
  keepPrev : Bool

/-- What it finds: the buffers, the RAM threshold, and which allocations and opens succeed. -/
structure SnapEnv where
  chunkSize : Nat
  /-- `pack_buf != NULL` -/
  packBuf : Bool
  ramThresh : Nat
  segAlloc : Bool
  bitmapAlloc : Bool
  ramAlloc : Bool
  snapOpen : Bool
  firstOpen : Bool
  prevOpen : Bool
  /-- what `read_buf`, `pack_buf` and the three stores hold before -/
  readBuf : Buf
  packInit : Buf
  ramInit : Buf
  fileInit : Buf
  firstInit : Buf
  prevInit : Buf

/-- `TS_SNAP_BITMAP_MAX`. -/
def snapBitmapMax : Nat := 448 * 2 ^ 20

/-- How the slots of a snapshot are stored. -/
structure SnapPlan where
  useFile : Bool
  ramBytes : Nat
  keepFirst : Bool
  keepPrev : Bool

/-- The allocations of `fs_snapshot_create`: `none` is `ok = 0`. -/
def snapPlan (r : SnapReq) (env : SnapEnv) (slotCount : Nat) : Option SnapPlan :=
  let v := r.valueLength
  if slotCount = 0 then some ⟨false, 0, r.keepFirst, r.keepPrev⟩
  else if (slotCount + 7) / 8 > snapBitmapMax ∨ !env.bitmapAlloc then none
  else
    let snapBytes := u64 (slotCount * v)
    let canPack := r.step == v || env.packBuf
    let keepFirst := r.keepFirst && canPack && env.firstOpen
    let keepPrev := r.keepPrev && canPack && env.prevOpen
    if snapBytes ≤ env.ramThresh ∧ env.ramAlloc then some ⟨false, snapBytes, keepFirst, keepPrev⟩
    else if !canPack || !env.snapOpen then none
    else
      -- the front of a baseline over the threshold is cached in RAM
      let ramBytes :=
        if snapBytes > env.ramThresh ∧ env.ramThresh ≥ v ∧ env.ramAlloc then env.ramThresh / v * v
        else 0
      some ⟨true, ramBytes, keepFirst, keepPrev⟩

/-- One window of the filling loop: its first slot, its address and its slots. -/
structure FillWindow where
  gslot : Nat
  waddr : Nat
  winSlots : Nat

/-- The windows `(s0, win_slots)` of a segment of `ns` slots. -/
def segWindows (chunkSize step ns : Nat) : Nat → Nat → List (Nat × Nat)
  | 0, _ => []
  | fuel + 1, s0 =>
    if s0 < ns then
      let w := chunkSize / step
      let w := if w = 0 then 1 else w
      let w := if s0 + w > ns then ns - s0 else w
      (s0, w) :: segWindows chunkSize step ns fuel (s0 + w)
    else []

/-- The windows of all segments, in order. -/
def fillWindows (chunkSize step : Nat) (seg : List FsSegment) : List FillWindow :=
  seg.flatMap fun g => (segWindows chunkSize step g.nslots g.nslots 0).map fun w =>
    ⟨g.slotStart + w.1, u64 (g.addr + w.1 * step), w.2⟩

/-- `wbytes`. -/
def FillWindow.wbytes (w : FillWindow) (v step : Nat) : Nat := (w.winSlots - 1) * step + v

/-- Everything the filling loop writes. -/
structure FillState where
  readBuf : Buf
  packBuf : Buf
  store : SplitStore
  first : Buf
  prev : Buf
  bitmap : Buf
  survivors : Nat

/-- `for (k = 0; k < win_slots; k++) memcpy(dst + (base + k) * v, read_buf + k * step, v)`. -/
def packSlots (v step base : Nat) (readBuf : Buf) (winSlots : Nat) (dst : Buf) : Buf :=
  (List.range winSlots).foldl (fun b k => blit b ((base + k) * v) (view readBuf (k * step)) v) dst

/-- The zero check of a window: clear the bit of every slot that holds zero. -/
def dropZeros (v step gslot : Nat) (readBuf : Buf) (winSlots : Nat) (bitmap : Buf) (survivors : Nat) :
    Buf × Nat :=
  (List.range winSlots).foldl (fun (st : Buf × Nat) k =>
    if (slice readBuf (k * step) v).all (· == 0) then (clearBit st.1 (gslot + k), st.2 - 1) else st)
    (bitmap, survivors)

/-- One window of the filling loop. -/
def fillWindow (mem : Memory) (r : SnapReq) (plan : SnapPlan) (st : FillState) (w : FillWindow) :
    FillState :=
  let v := r.valueLength
  let readBuf := readInto mem st.readBuf w.waddr (w.wbytes v r.step)
  let pbytes := w.winSlots * v
  let packs := (plan.useFile || plan.keepFirst || plan.keepPrev) && r.step != v
  let packBuf := if packs then packSlots v r.step 0 readBuf w.winSlots st.packBuf else st.packBuf
  let psrc := if r.step = v then readBuf else packBuf
  let store :=
    if plan.useFile then st.store.write psrc (w.gslot * v) pbytes
    else if r.step = v then { st.store with ram := blit st.store.ram (w.gslot * v) readBuf pbytes }
    else { st.store with ram := packSlots v r.step w.gslot readBuf w.winSlots st.store.ram }
  let first := if plan.keepFirst then blit st.first (w.gslot * v) psrc pbytes else st.first
  let prev := if plan.keepPrev then blit st.prev (w.gslot * v) psrc pbytes else st.prev
  let live :=
    if r.includeZeros then (st.bitmap, st.survivors)
    else dropZeros v r.step w.gslot readBuf w.winSlots st.bitmap st.survivors
  ⟨readBuf, packBuf, store, first, prev, live.1, live.2⟩

/-- `fs_snapshot_create`: `none` when the scan is declined. -/
def snapCreate (mem : Memory) (r : SnapReq) (env : SnapEnv) : Option SnapSession :=
  if !env.segAlloc then none
  else
    let seg := buildSegments r.valueLength r.step 0 r.segs
    let slotCount := slotTotal r.valueLength r.step 0 r.segs
    match snapPlan r env slotCount with
    | none => none
    | some plan =>
      let st := (fillWindows env.chunkSize r.step seg).foldl (fillWindow mem r plan)
        ⟨env.readBuf, env.packInit, ⟨env.ramInit, plan.ramBytes, env.fileInit⟩, env.firstInit,
          env.prevInit, fun _ => 0xFF, slotCount⟩
      some
        { bitmap := st.bitmap, slotCount, survivorCount := st.survivors, stride := r.step
          store := st.store, firstFile := st.first, hasFirst := plan.keepFirst
          prevFile := st.prev, hasPrev := plan.keepPrev, seg, valueLength := r.valueLength }

/-! ## `fs_snapshot_rescan` -/

/-- The test of the extension loop: whether a window that starts at `windowStart` and covers
up to `coveredEnd` takes in the slot at `na`. -/
def windowExtends (v windowStart coveredEnd na : Nat) : Bool :=
  let gap := if na > coveredEnd then na - coveredEnd else 0
  if gap > rescanGapMax then false
  else !(decide (subU64 (u64 (na + v)) windowStart > rescanWinCap))

/-- The extension loop, from slot `j` on: `covered_end` and `last`. -/
def snapGrow (s : SnapSession) (windowStart : Nat) : Nat → Nat → Nat → Nat → Nat × Nat
  | 0, _, coveredEnd, last => (coveredEnd, last)
  | fuel + 1, j, coveredEnd, last =>
    if j < s.slotCount then
      if windowExtends s.valueLength windowStart coveredEnd (s.addr j) then
        snapGrow s windowStart fuel (nextSet s.bitmap (j + 1) s.slotCount)
          (u64 (s.addr j + s.valueLength)) j
      else (coveredEnd, last)
    else (coveredEnd, last)

/-- What the comparison loop changes. -/
structure GroupState where
  bitmap : Buf
  bl : Buf
  dirty : Bool
  survivors : Nat

/-- One turn of the comparison loop, for slot `k`. -/
def snapCompare (s : SnapSession) (cmp : List Byte → List Byte → Bool) (win : Buf) (windowStart i : Nat)
    (st : GroupState) (k : Nat) : GroupState :=
  let v := s.valueLength
  let memPtr := view win (subU64 (s.addr k) windowStart)
  let off := (k - i) * v
  if cmp (slice memPtr 0 v) (slice st.bl off v) then
    { st with bl := blit st.bl off memPtr v, dirty := true, survivors := st.survivors + 1 }
  else { st with bitmap := clearBit st.bitmap k }

/-- The comparison loop: `for (k = i; k <= last; k = fs_next_set(bitmap, k + 1, n))`. -/
def snapGroup (s : SnapSession) (cmp : List Byte → List Byte → Bool) (win : Buf)
    (windowStart i last : Nat) : Nat → Nat → GroupState → GroupState
  | 0, _, st => st
  | fuel + 1, k, st =>
    if k ≤ last then
      let st := snapCompare s cmp win windowStart i st k
      snapGroup s cmp win windowStart i last fuel (nextSet st.bitmap (k + 1) s.slotCount) st
    else st

/-- One window of a rescan, as the bounds are about: where it reads, which slots it is for,
and its part of the baseline. -/
structure RescanWindow where
  start : Nat
  readSize : Nat
  i : Nat
  last : Nat
  blLen : Nat
  buffered : Bool

/-- The state of a rescan between windows. -/
structure SnapScan where
  sess : SnapSession
  memBuf : Buf
  blBuf : Buf
  survivors : Nat
  windows : List RescanWindow

/-- The window for slot `i`: `covered_end` and `last`. -/
def SnapSession.windowAt (s : SnapSession) (i : Nat) : Nat × Nat :=
  snapGrow s (s.addr i) s.slotCount (nextSet s.bitmap (i + 1) s.slotCount)
    (u64 (s.addr i + s.valueLength)) i

/-- Read a window and compare its slots. A baseline that is all in RAM is worked on in place,
any other through `bl_buf`. -/
def snapWindow {mem : Memory} (actx : Option (AliasEngine mem))
    (cmp : List Byte → List Byte → Bool) (sc : SnapScan) (i : Nat) : SnapScan :=
  let s := sc.sess
  let v := s.valueLength
  let windowStart := s.addr i
  let g := s.windowAt i
  let last := g.2
  let readSize := subU64 g.1 windowStart
  let win := rescanWindowRead actx windowStart readSize sc.memBuf
  let blOff := i * v
  let blLen := (last - i + 1) * v
  let buffered := decide (blOff + blLen > s.store.ramBytes)
  let bl := if buffered then s.store.read sc.blBuf blOff blLen else view s.store.ram blOff
  let prevFile := if s.hasPrev then blit s.prevFile blOff bl blLen else s.prevFile
  let st := snapGroup s cmp win.1 windowStart i last (s.slotCount + 1) i ⟨s.bitmap, bl, false, sc.survivors⟩
  let store :=
    if buffered then if st.dirty then s.store.write st.bl blOff blLen else s.store
    else { s.store with ram := blit s.store.ram blOff st.bl blLen }
  { sess := { s with bitmap := st.bitmap, store, prevFile }
    memBuf := win.2
    blBuf := if buffered then st.bl else sc.blBuf
    survivors := st.survivors
    windows := sc.windows ++ [⟨windowStart, readSize, i, last, blLen, buffered⟩] }

/-- The loop over the windows. -/
def snapLoop {mem : Memory} (actx : Option (AliasEngine mem)) (cmp : List Byte → List Byte → Bool) :
    Nat → Nat → SnapScan → SnapScan
  | 0, _, sc => sc
  | fuel + 1, i, sc =>
    if i < sc.sess.slotCount then
      let last := (sc.sess.windowAt i).2
      let sc' := snapWindow actx cmp sc i
      snapLoop actx cmp fuel (nextSet sc'.sess.bitmap (last + 1) sc.sess.slotCount) sc'
    else sc

/-- All windows of a rescan. -/
def snapScan {mem : Memory} (actx : Option (AliasEngine mem)) (cmp : List Byte → List Byte → Bool)
    (s : SnapSession) (memBuf blBuf : Buf) : SnapScan :=
  snapLoop actx cmp (s.slotCount + 1) (nextSet s.bitmap 0 s.slotCount) ⟨s, memBuf, blBuf, 0, []⟩

/-- `fs_snapshot_rescan`. -/
def snapRescan {mem : Memory} (actx : Option (AliasEngine mem)) (cmp : List Byte → List Byte → Bool)
    (s : SnapSession) (memBuf blBuf : Buf) : SnapSession :=
  if s.slotCount = 0 then { s with survivorCount := 0 }
  else
    let sc := snapScan actx cmp s memBuf blBuf
    { sc.sess with survivorCount := sc.survivors }

/-! ## `fs_snapshot_get` -/

/-- The entry of slot `i` in a GET reply, built in `out_buf`. -/
def SnapSession.entryAt (s : SnapSession) (i : Nat) : List Byte :=
  let v := s.valueLength
  let cur := slice (s.store.read (fun _ => 0) (i * v) v) 0 v
  leBytes 8 (s.addr i) ++ cur ++ (if s.hasPrev then slice s.prevFile (i * v) v else cur) ++
    if s.hasFirst then slice s.firstFile (i * v) v else []

/-- The loop of `fs_snapshot_get`, from slot `i` on: the entries it emits. -/
def snapGetLoop (s : SnapSession) (start actual : Nat) : Nat → Nat → Nat → Nat → List (List Byte)
  | 0, _, _, _ => []
  | fuel + 1, i, seen, emitted =>
    if i < s.slotCount ∧ emitted < actual then
      let next := nextSet s.bitmap (i + 1) s.slotCount
      if seen < start then snapGetLoop s start actual fuel next (seen + 1) emitted
      else s.entryAt i :: snapGetLoop s start actual fuel next (seen + 1) (emitted + 1)
    else []

/-- The reply of a GET on a snapshot session: the header, then the blocks. -/
def snapGet (s : SnapSession) (start count : Nat) : List (List Byte) :=
  let actual :=
    if start < s.survivorCount then
      let avail := s.survivorCount - start
      if count < avail then count else avail % 2 ^ 32
    else 0
  getHeader actual s.hasFirst ::
    if actual = 0 then []
    else packEntries getOutCap
      (snapGetLoop s start actual (s.slotCount + 1) (nextSet s.bitmap 0 s.slotCount) 0 0)

/-! ## `fs_snapshot_materialize` -/

/-- `TS_RESIDENT_CAP`. -/
def residentCap : Nat := 256 * 2 ^ 20

/-- The layout of the records of a session. -/
def SnapSession.layout (s : SnapSession) : Layout := ⟨s.valueLength, s.hasPrev, s.hasFirst⟩

/-- The record of slot `i`, written at index `out`. -/
def SnapSession.writeRec (s : SnapSession) (recs : Buf) (i out : Nat) : Buf :=
  let v := s.valueLength
  let l := s.layout
  let voff := i * v
  let val := if voff ≥ s.store.ramBytes then view s.store.file (voff - s.store.ramBytes)
    else view s.store.ram voff
  let o := out * l.recSize
  let b := blit recs o (ofList (leBytes 8 (s.addr i))) 8
  let b := blit b (o + 8) val v
  let b := if s.hasPrev then blit b (o + (8 + v)) (view s.prevFile voff) v else b
  if s.hasFirst then blit b (o + l.firstOff) (view s.firstFile voff) v else b

/-- The loop of `fs_snapshot_materialize`; `none` when a file read fails. -/
def materializeLoop (s : SnapSession) (readOk : Nat → Bool) (records : Nat) :
    Nat → Nat → Nat → Buf → Option (Buf × Nat)
  | 0, _, out, recs => some (recs, out)
  | fuel + 1, i, out, recs =>
    if i < s.slotCount ∧ out < records then
      let reads := s.store.ramBytes ≤ i * s.valueLength || s.hasPrev || s.hasFirst
      if reads && !readOk i then none
      else materializeLoop s readOk records fuel (nextSet s.bitmap (i + 1) s.slotCount) (out + 1)
        (s.writeRec recs i out)
    else some (recs, out)

/-- `fs_snapshot_materialize`: the LIST session, or `none` when it returns 0 and leaves the
session alone. `readOk i` is the outcome of the file reads for slot `i`. -/
def snapMaterialize (s : SnapSession) (mmapOk : Bool) (readOk : Nat → Bool) : Option ListSession :=
  let recSize := s.layout.recSize
  let records := s.survivorCount
  if records = 0 ∨ u64 (records * recSize) > residentCap ∨ !mmapOk then none
  else
    (materializeLoop s readOk records (s.slotCount + 1) (nextSet s.bitmap 0 s.slotCount) 0
      (fun _ => 0)).map fun r => ⟨s.layout, r.1, r.2⟩

/-! ## Sessions -/

/-- A resident session of a client. -/
inductive Session : Type where
  | snapshot (s : SnapSession)
  | list (s : ListSession)

/-- What a resident COUNT finds: the alias engine, the buffers (`bl_buf` may be refused), and what
materialisation needs. -/
structure CountEnv (mem : Memory) where
  actx : Option (AliasEngine mem)
  memBuf : Buf
  blBuf : Option Buf
  materializeMax : Nat
  mmapOk : Bool
  readOk : Nat → Bool

/-- `TS_MATERIALIZE_DENSITY`. -/
def materializeDensity : Nat := 32

/-- The snapshot branch of a resident COUNT, without the materialisation. A command of
another value length does nothing, nor does one without `bl_buf`. -/
def snapCount {mem : Memory} (env : CountEnv mem) (p : CountPass) (s : SnapSession) : SnapSession :=
  match env.blBuf with
  | none => s
  | some blBuf =>
    if s.valueLength = p.valueLength then snapRescan env.actx p.residentCompare s env.memBuf blBuf
    else s

/-- When a rescan that left `nc` survivors tries to materialise. -/
def wantsMaterialize {mem : Memory} (env : CountEnv mem) (s : SnapSession) (nc : Nat) : Bool :=
  nc > 0 && nc ≤ env.materializeMax && nc * materializeDensity ≤ s.slotCount &&
    nc * s.layout.recSize ≤ residentCap

/-- The resident branch of `proc_turboscan_count_handle`: the session, and the survivor count
sent back. -/
def residentCount {mem : Memory} (env : CountEnv mem) (p : CountPass) (sess : Session) :
    Session × Nat :=
  match sess with
  | .list s =>
    let s' := listCount env.actx p s env.memBuf
    (.list s', s'.count)
  | .snapshot s =>
    let s' := snapCount env p s
    let sess' : Session :=
      if (s.valueLength = p.valueLength ∧ env.blBuf.isSome) ∧ wantsMaterialize env s' s'.survivorCount then
        match snapMaterialize s' env.mmapOk env.readOk with
        | some l => .list l
        | none => .snapshot s'
      else .snapshot s'
    (sess', s'.survivorCount)

/-- The reply of `proc_turboscan_get_handle`: the header, then the blocks. -/
def Session.get (sess : Session) (start count : Nat) : List (List Byte) :=
  match sess with
  | .snapshot s => snapGet s start count
  | .list s => listGet s start count

end Ps5Debugger

import Ps5Debugger.Target
import Ps5Debugger.Wire

/-!
# The first scans

`proc_scan_start_handle` (`scan.c`) and the non-snapshot half of
`proc_turboscan_start_handle` (`scan_turbo.c`). Both walk a region chunk by chunk: read
up to a megabyte, compare at every step, advance. The turbo pass differs in where the
bytes come from (an alias instead of a copy) and, for exact scans on the element grid,
in how a chunk is searched (`scan_simd_find_exact`); its hits may go to a resident
session or to worker threads instead of straight to the client.

The walk over the region does not depend on what the bytes are, so the chunks it visits
are a list of their own (`scanChunks`); `chunkReads` adds what each chunk's pointer shows,
stale bytes included; a pass is a `flatMap` over the two.
-/

namespace Ps5Debugger

open Lib

/-! ## The parameters of a pass -/

/-- What both START handlers compute before they scan. -/
structure Pass where
  ct : CmpType
  vt : ValType
  valueLength : Nat
  step : Nat
  chunkSize : Nat
  pattern : Option (List Byte)
  mask : Option (List Byte)
  prevForBetween : Option (List Byte)

/-- `chunk_size`: a megabyte, cut down to a multiple of the value length. -/
def chunkSizeFor (valueLength : Nat) : Nat :=
  if 0x100000 % valueLength ≠ 0 then 0x100000 / valueLength * valueLength else 0x100000

/-- `step`: the alignment byte, or the value length when it is zero. -/
def stepFor (alignment : UInt8) (valueLength : Nat) : Nat :=
  if alignment ≠ 0 then alignment.toNat else valueLength

/-- `value_length` of a START request. -/
def ScanStartPacket.valueLength (sp : ScanStartPacket) : Nat :=
  Ps5Debugger.valueLength (ValType.ofByte sp.valueType) sp.lenData.toNat

/-- The prologue of a (non-snapshot) START: `none` is a rejected request. `data` and
`maskData` are the bytes the client sends for the pattern and the mask. -/
def preparePass (sp : ScanStartPacket) (data maskData : List Byte) : Option Pass :=
  match CmpType.ofByte sp.compareType with
  | none => none
  | some ct =>
    if sp.lenData = 0 then none
    else
      let vt := ValType.ofByte sp.valueType
      let v := sp.valueLength
      -- a read buffer of size zero is not allocated
      if chunkSizeFor v = 0 then none
      else
        let pattern := if ct.needsValue then some data else none
        some
          { ct, vt
            valueLength := v
            step := stepFor sp.alignment v
            chunkSize := chunkSizeFor v
            pattern
            mask := if vt = .arrBytes then some maskData else none
            prevForBetween := if ct = .valueBetween then some (data.drop v) else none }

/-- The comparison of a first scan on a window of memory. -/
def Pass.compare (p : Pass) (window : List Byte) : Bool :=
  compareValues p.ct p.vt p.valueLength (p.pattern.getD []) window p.prevForBetween p.mask

/-! ## The chunk loop -/

/-- `advance`: a chunk's length, less the overlap of windows wider than the step. -/
def chunkAdvance (v step toRead : Nat) : Nat :=
  let advance := subU64 (u64 (toRead + step)) v
  if advance = 0 ∨ advance > toRead then toRead else advance

/-- The chunks `(offset, to_read)` of `while (remaining > 0)`, from offset `off` on. Every
chunk advances, so `fuel = remaining` is enough (`scanChunks_fuel`). -/
def scanChunks (chunkSize v step : Nat) : Nat → Nat → Nat → List (Nat × Nat)
  | 0, _, _ => []
  | fuel + 1, off, remaining =>
    if remaining = 0 then []
    else
      let toRead := if remaining > chunkSize then chunkSize else remaining
      let advance := chunkAdvance v step toRead
      (off, toRead) :: scanChunks chunkSize v step fuel (off + advance)
        (if remaining > advance then remaining - advance else 0)

/-- The chunks of a region of `length` bytes. -/
def regionChunks (chunkSize v step length : Nat) : List (Nat × Nat) :=
  scanChunks chunkSize v step length 0 length

/-- One chunk as the comparison sees it: its offset, the bytes read, and the pointer. -/
structure ChunkRead where
  off : Nat
  len : Nat
  src : Buf

/-- Read one chunk through the alias engine if it maps, else into `read_buf`. The second
component is `read_buf` afterwards. -/
def readChunk {mem : Memory} (actx : Option (AliasEngine mem)) (scanAddr : Nat)
    (chunk : Nat × Nat) (readBuf : Buf) : ChunkRead × Buf :=
  match actx.bind fun a => a.map (u64 (scanAddr + chunk.1)) chunk.2 with
  | some aptr => (⟨chunk.1, chunk.2, aptr⟩, readBuf)
  | none =>
    let b := readInto mem readBuf (u64 (scanAddr + chunk.1)) chunk.2
    (⟨chunk.1, chunk.2, b⟩, b)

/-- The reads of a list of chunks; `read_buf` keeps its bytes from chunk to chunk. -/
def chunkReads {mem : Memory} (actx : Option (AliasEngine mem)) (scanAddr : Nat) :
    List (Nat × Nat) → Buf → List ChunkRead
  | [], _ => []
  | c :: cs, readBuf =>
    let r := readChunk actx scanAddr c readBuf
    r.1 :: chunkReads actx scanAddr cs r.2

/-! ## Searching a chunk -/

/-- One comparison of a pass, or one hit: the offset from the start of the scanned range,
and the `value_length` bytes looked at. -/
structure Probe where
  off : Nat
  window : List Byte
  deriving DecidableEq

/-- The windows the scalar loop hands to the comparator. When the chunk is shorter than a
value, `limit` is 0 and one window is still compared. -/
def scalarProbes (p : Pass) (r : ChunkRead) : List Probe :=
  let limit := if r.len ≥ p.valueLength then r.len - p.valueLength else 0
  (strideUpTo p.step limit).map fun j => ⟨r.off + j, slice r.src j p.valueLength⟩

/-- The hits of `scan_simd_find_exact` in a chunk. -/
def simdHits (p : Pass) (r : ChunkRead) : List Probe :=
  let found := simdFindExact p.vt r.src r.len (p.pattern.getD []) p.valueLength
    (p.chunkSize / p.valueLength)
  (List.range found.count).map fun k =>
    let coff := found.off.getD k 0
    ⟨r.off + coff, slice r.src coff p.valueLength⟩

/-- The hits in a chunk, by either search. -/
def chunkHits (p : Pass) (simdOk : Bool) (r : ChunkRead) : List Probe :=
  if simdOk then simdHits p r else (scalarProbes p r).filter fun q => p.compare q.window

/-- Every comparison the scalar pass makes over a range. -/
def scalarPassProbes {mem : Memory} (p : Pass) (actx : Option (AliasEngine mem))
    (scanAddr scanLen : Nat) (readBuf : Buf) : List Probe :=
  (chunkReads actx scanAddr (regionChunks p.chunkSize p.valueLength p.step scanLen)
    readBuf).flatMap (scalarProbes p)

/-- `turboscan_scan_pass_range`: the hits of a pass over a range, in the order found. -/
def passHits {mem : Memory} (p : Pass) (simdOk : Bool) (actx : Option (AliasEngine mem))
    (scanAddr scanLen : Nat) (readBuf : Buf) : List Probe :=
  (chunkReads actx scanAddr (regionChunks p.chunkSize p.valueLength p.step scanLen)
    readBuf).flatMap (chunkHits p simdOk)

/-- `offset = (uint32_t)((addr + j) - sp->address)`. -/
def wireRecord (address scanAddr : Nat) (q : Probe) : ScanRecord :=
  ⟨subU64 (u64 (scanAddr + q.off)) address % 2 ^ 32, q.window⟩

/-- `flush_thresh` of the first scans. -/
def flushThresh (v : Nat) : Nat := subU64 0x3FFE8 v

/-! ## SCAN_START -/

/-- The records `proc_scan_start_handle` streams: the scalar pass over copied chunks. -/
def scanStartRecords (mem : Memory) (sp : ScanStartPacket) (p : Pass) (raw : Buf) :
    List ScanRecord :=
  (passHits p false (none : Option (AliasEngine mem)) sp.address.toNat sp.length.toNat
    (netAllocBuffer raw p.chunkSize)).map (wireRecord sp.address.toNat sp.address.toNat)

/-- The sends of `proc_scan_start_handle` between its second acknowledgement and the
closing one. -/
def scanStartStream (mem : Memory) (sp : ScanStartPacket) (p : Pass) (raw : Buf) :
    List (List Byte) :=
  sendRecords (flushThresh p.valueLength) (scanStartRecords mem sp p raw)

/-! ## Turbo START -/

/-- What a turbo START finds around it: the outcome of its allocations, the alias contexts
it gets, and the segment list the client sends (`none`: a bad count, or no memory). -/
structure TurboEnv (mem : Memory) where
  raw : Buf
  simdOffAlloc : Bool
  aliasCtx : Option (AliasEngine mem)
  segs : Option (List SnapSegment)
  sessionAlloc : Bool
  sessionCap : Nat
  workersAlloc : Bool
  blkAlloc : Bool
  workerAlias : Nat → Option (AliasEngine mem)
  workerRaw : Nat → Buf

/-- `simd_ok`. -/
def simdOk (p : Pass) (simdOffAlloc : Bool) : Bool :=
  p.ct = .exactValue && p.vt != .arrBytes && p.step == p.valueLength && p.pattern.isSome &&
    simdOffAlloc

/-- A survivor of a resident session: its absolute address and value. -/
structure Stored where
  addr : Nat
  value : List Byte

/-- `turboscan_scan_pass_range` into a session: append each hit while it fits in
`buf_cap`, stop at the first that does not. Returns success, the records, and `read_buf`. -/
def storeChunks {mem : Memory} (p : Pass) (simdOk : Bool) (actx : Option (AliasEngine mem))
    (scanAddr cap : Nat) : List (Nat × Nat) → Buf → List Stored → Bool × List Stored × Buf
  | [], readBuf, recs => (true, recs, readBuf)
  | c :: cs, readBuf, recs =>
    let r := readChunk actx scanAddr c readBuf
    let room := cap / (8 + p.valueLength) - recs.length
    let hits := (chunkHits p simdOk r.1).map fun q => (⟨u64 (scanAddr + q.off), q.window⟩ : Stored)
    if hits.length ≤ room then storeChunks p simdOk actx scanAddr cap cs r.2 (recs ++ hits)
    else (false, recs ++ hits.take room, r.2)

/-- The resident passes over a list of ranges, stopping at the first that overflows. -/
def storeRanges {mem : Memory} (p : Pass) (simdOk : Bool) (actx : Option (AliasEngine mem))
    (cap : Nat) : List (Nat × Nat) → Buf → List Stored → Bool × List Stored × Buf
  | [], readBuf, recs => (true, recs, readBuf)
  | (a, n) :: rs, readBuf, recs =>
    let s := storeChunks p simdOk actx a cap (regionChunks p.chunkSize p.valueLength p.step n)
      readBuf recs
    if s.1 then storeRanges p simdOk actx cap rs s.2.2 s.2.1 else s

/-- `TS_PAR_RESULT_CAP`. -/
def parResultCap : Nat := 8 * 2 ^ 20

/-- `turboscan_parallel_stream`: `none` when it leaves the request to the sequential pass,
else the records it streams. Two workers, each over its own span, each with its own
buffers and alias context. -/
def parallelStream {mem : Memory} (sp : TurboStartPacket) (p : Pass) (simd : Bool)
    (actx : Option (AliasEngine mem)) (env : TurboEnv mem) : Option (List ScanRecord) :=
  let length := sp.length.toNat
  let v := p.valueLength
  if !hasFlag sp.flags TS_PARALLEL_COMPARE || !simd || actx.isNone || length < v * 2 then none
  else
    -- the sum is taken in 32 bits
    let span₀ := u32 (length + 2 - 1) / 2
    let span := (span₀ + v - 1) / v * v
    if span = 0 then none
    else
      let nw := (length + span - 1) / span
      if nw ≤ 1 ∨ nw > 2 then none
      else if !env.workersAlloc || (List.range nw).any fun i => (env.workerAlias i).isNone then none
      else
        let worker (i : Nat) : Bool × List Stored × Buf :=
          let sOff := i * span
          let sLen := if sOff + span ≤ length then span else length - sOff
          storeChunks p simd (env.workerAlias i) (u64 (sp.address.toNat + sOff)) parResultCap
            (regionChunks p.chunkSize v p.step sLen) (env.workerRaw i) []
        if (List.range nw).all (fun i => (worker i).1) && env.blkAlloc then
          some ((List.range nw).flatMap fun i => (worker i).2.1.map fun s =>
            ⟨subU64 s.addr sp.address.toNat % 2 ^ 32, s.value⟩)
        else none

/-- The resident half of a non-snapshot START: `none` when the flag is off, else whether
the survivors were stored, the survivors, and `read_buf` afterwards. -/
def residentPass {mem : Memory} (sp : TurboStartPacket) (p : Pass) (simd : Bool)
    (actx : Option (AliasEngine mem)) (env : TurboEnv mem) : Option (Bool × List Stored × Buf) :=
  let readBuf := netAllocBuffer env.raw p.chunkSize
  if !hasFlag sp.flags TS_SERVER_RESIDENT then none
  else
    let useSegments := hasFlag sp.flags TS_SNAPSHOT_SEGMENTS
    if p.valueLength ≤ 0x1000 ∧ (useSegments = true → env.segs.isSome) ∧ env.sessionAlloc then
      let ranges :=
        if useSegments then (env.segs.getD []).map fun s => (s.address.toNat, s.length.toNat)
        else [(sp.address.toNat, sp.length.toNat)]
      some (storeRanges p simd actx env.sessionCap ranges readBuf [])
    else some (false, [], readBuf)

/-- The records a non-snapshot turbo START streams. A stored resident scan streams none, a
declined one none for a segment list and everything for a single range. -/
def turboStartRecords {mem : Memory} (sp : TurboStartPacket) (p : Pass) (env : TurboEnv mem) :
    List ScanRecord :=
  let simd := simdOk p env.simdOffAlloc
  let actx := if hasFlag sp.flags TS_USE_ALIASING then env.aliasCtx else none
  let stream (readBuf : Buf) : List ScanRecord :=
    (parallelStream sp p simd actx env).getD
      ((passHits p simd actx sp.address.toNat sp.length.toNat readBuf).map
        (wireRecord sp.address.toNat sp.address.toNat))
  match residentPass sp p simd actx env with
  | none => stream (netAllocBuffer env.raw p.chunkSize)
  | some (stored, _, readBuf) =>
    if stored || hasFlag sp.flags TS_SNAPSHOT_SEGMENTS then [] else stream readBuf

/-- The result stream of a non-snapshot turbo START: blocks and sentinel. -/
def turboStartStream {mem : Memory} (sp : TurboStartPacket) (p : Pass) (env : TurboEnv mem) :
    List (List Byte) :=
  sendRecords (flushThresh p.valueLength) (turboStartRecords sp p env)

end Ps5Debugger

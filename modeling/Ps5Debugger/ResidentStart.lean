import Ps5Debugger.FirstScanParallel
import Ps5Debugger.SnapshotSession

/-!
# Resident first scans

A START with `TS_SERVER_RESIDENT` stores its survivors in a session instead of streaming them.
When the session cannot be had, or runs full, a scan of one range falls back to the stream and
a scan of a segment list declines. Whatever happens, the client should end up with the records
the non-resident START of the same ranges streams.

It does as far as the hits of a range depend on nothing but the memory (`RangeSettled`). The
finder's always do; the scalar loop compares one window of a chunk shorter than a value, and what
lies behind such a chunk is the heap's, an earlier range's or the alias engine's. Ranges where
that shows are in `ResidentAgree`.
-/

namespace Ps5Debugger

open Lib

/-! ## The session a START fills -/

/-- `fs_session_alloc`: an empty LIST session. -/
def fsSessionAlloc (v : Nat) (raw : Buf) : ListSession := ⟨⟨v, false, false⟩, raw, 0⟩

/-- Append one hit: the address and the value, and one more record. -/
def ListSession.append (s : ListSession) (r : Stored) : ListSession :=
  let rec_ := s.count * s.layout.recSize
  { s with
    buf := blit (blit s.buf rec_ (ofList (leBytes 8 r.addr)) 8) (rec_ + 8) (ofList r.value)
      s.layout.valueLength
    count := s.count + 1 }

/-- The hits of a chunk into a session: stop at the first that does not fit in `buf_cap`. -/
def appendHits (cap : Nat) : List Stored → ListSession → Bool × ListSession
  | [], s => (true, s)
  | r :: rs, s =>
    if (s.count + 1) * s.layout.recSize > cap then (false, s) else appendHits cap rs (s.append r)

/-- The session that holds these records. -/
def residentSession (v : Nat) (raw : Buf) (recs : List Stored) : ListSession :=
  recs.foldl ListSession.append (fsSessionAlloc v raw)

/-- The client's session after a resident START: freed unless the scan was stored. -/
def startSession (v : Nat) (raw : Buf) (stored : Bool) (recs : List Stored) : Option ListSession :=
  if stored then some (residentSession v raw recs) else none

/-- `proc_turboscan_get_handle` on the client's LIST session, if there is one. -/
def turboscanGet (s : Option ListSession) (startIndex count : Nat) : List (List Byte) :=
  match s with
  | none => [leBytes 4 0]
  | some s => listGet s startIndex count

@[simp] theorem append_layout (s : ListSession) (r : Stored) : (s.append r).layout = s.layout := rfl

@[simp] theorem append_count (s : ListSession) (r : Stored) : (s.append r).count = s.count + 1 := rfl

/-- Appending a record appends it to the survivors. -/
theorem records_append (s : ListSession) (r : Stored) (hprev : s.layout.hasPrev = false)
    (hfirst : s.layout.hasFirst = false) (haddr : r.addr < 2 ^ 64)
    (hval : r.value.length = s.layout.valueLength) :
    (s.append r).records = s.records ++ [⟨r.addr, r.value, [], []⟩] := by
  have hbuf : (s.append r).buf =
      s.layout.fields s.buf s.count r.addr (ofList r.value) s.buf s.buf := by
    simp [ListSession.append, Layout.fields, hprev, hfirst]
  have hfront : (List.range s.count).map (s.layout.recAt (s.append r).buf) =
      (List.range s.count).map (s.layout.recAt s.buf) := by
    apply List.map_congr_left
    intro i hi
    rw [hbuf]
    exact s.layout.recAt_fields_before (List.mem_range.mp hi)
  have hval' : slice (ofList r.value) 0 s.layout.valueLength = r.value := by
    rw [← hval]
    exact slice_ofList r.value
  rw [ListSession.records, append_count, append_layout, List.range_succ, List.map_append, hfront,
    List.map_singleton, hbuf, s.layout.recAt_fields _ _ _ _ haddr, hval', hprev, hfirst]
  rfl

section Session

variable (v : Nat) (raw : Buf)

theorem residentSession_concat (recs : List Stored) (r : Stored) :
    residentSession v raw (recs ++ [r]) = (residentSession v raw recs).append r := by
  rw [residentSession, List.foldl_append]
  rfl

theorem residentSession_layout (recs : List Stored) :
    (residentSession v raw recs).layout = ⟨v, false, false⟩ := by
  induction recs using List.reverseRecOn with
  | nil => rfl
  | append_singleton recs r ih => rw [residentSession_concat, append_layout, ih]

theorem residentSession_count (recs : List Stored) : (residentSession v raw recs).count = recs.length := by
  induction recs using List.reverseRecOn with
  | nil => rfl
  | append_singleton recs r ih =>
    rw [residentSession_concat, append_count, ih, List.length_append, List.length_singleton]

/-- The survivors of the session are the records put into it. -/
theorem records_residentSession (recs : List Stored)
    (h : ∀ r ∈ recs, r.addr < 2 ^ 64 ∧ r.value.length = v) :
    (residentSession v raw recs).records = recs.map fun r => ⟨r.addr, r.value, [], []⟩ := by
  induction recs using List.reverseRecOn with
  | nil => rfl
  | append_singleton recs r ih =>
    have hlayout := residentSession_layout v raw recs
    obtain ⟨haddr, hval⟩ := h r (by simp)
    rw [residentSession_concat, records_append _ r (by rw [hlayout]) (by rw [hlayout]) haddr
      (by rw [hlayout]; exact hval), ih fun r' hr' => h r' (by simp [hr']), List.map_append]
    rfl

/-- The record loop over the hits of a chunk appends as many as there is room for: what
`storeChunks` says a chunk at a time. -/
theorem appendHits_eq {cap : Nat} (hits : List Stored) : ∀ recs : List Stored,
    recs.length ≤ cap / (8 + v) →
    appendHits cap hits (residentSession v raw recs) =
      (decide (hits.length ≤ cap / (8 + v) - recs.length),
        residentSession v raw (recs ++ hits.take (cap / (8 + v) - recs.length))) := by
  induction hits with
  | nil => intro recs _; simp [appendHits]
  | cons r hits ih =>
    intro recs hle
    have hguard : (recs.length + 1) * (8 + v) > cap ↔ ¬ recs.length + 1 ≤ cap / (8 + v) := by
      rw [Nat.le_div_iff_mul_le (by omega)]
      omega
    have hsize : (residentSession v raw recs).layout.recSize = 8 + v := by
      rw [residentSession_layout]
      simp [Layout.recSize]
    rw [appendHits, residentSession_count, hsize]
    by_cases hroom : recs.length + 1 ≤ cap / (8 + v)
    · have hlen : (recs ++ [r]).length = recs.length + 1 := by simp
      obtain ⟨room, hr⟩ : ∃ room, cap / (8 + v) - recs.length = room + 1 :=
        ⟨cap / (8 + v) - recs.length - 1, by omega⟩
      have hr' : cap / (8 + v) - (recs ++ [r]).length = room := by omega
      rw [if_neg (by rw [hguard]; simpa using hroom), ← residentSession_concat,
        ih _ (by omega), hr', hr, List.take_succ_cons, List.append_assoc]
      simp
    · have hfull : cap / (8 + v) - recs.length = 0 := by omega
      rw [if_pos (hguard.mpr hroom), hfull]
      simp

end Session

/-! ## Hits that depend on the memory alone -/

/-- The ranges of `n` bytes in which the scalar loop sees nothing but the target's bytes: the
first chunk holds a value, so the bytes behind a later copied chunk are those of the range; an
aliased chunk must be whole. -/
def RangeSettled (req : FirstScanReq) (aliasing : Bool) (n : Nat) : Prop :=
  n = 0 ∨ (req.g.v ≤ n ∧
    (aliasing = false ∨ (req.g.v ≤ req.g.step ∧ (n % req.g.c = 0 ∨ req.g.v ≤ n % req.g.c))))

/-- The hits of a pass that copies its chunks into a cleared buffer. -/
def clearedHits (mem : Memory) (p : Pass) (simd : Bool) (scanAddr n : Nat) : List Probe :=
  passHits p simd (none : Option (AliasEngine mem)) scanAddr n fun _ => 0

section Settled

variable (req : FirstScanReq) (data maskData : List Byte)

/-- Without short chunks, the scalar loop compares the memory at the offsets of the walk. -/
theorem scalarPassProbes_noShort {mem : Memory} (actx : Option (AliasEngine mem)) (scanAddr n : Nat)
    (buf : Buf) (hns : req.g.NoShort n 0 n) :
    scalarPassProbes (req.pass data maskData) actx scanAddr n buf =
      (req.g.compared (regionChunks req.g.c req.g.v req.g.step n)).map
        (memProbe mem scanAddr req.g.v) := by
  rw [← scalarPassProbes_off req data maskData actx scanAddr n buf, List.map_map]
  conv_lhs => rw [← List.map_id (scalarPassProbes _ _ _ _ _)]
  apply List.map_congr_left
  intro q hq
  refine scalarPassProbes_fresh req data maskData hq ?_
  -- a comparison in a whole chunk stays in the range
  obtain ⟨r, hr, hq⟩ := List.mem_flatMap.mp hq
  obtain ⟨-, hend, -, hmem⟩ := mem_reads req hr
  have hlong : req.g.v ≤ r.len := hns _ hmem
  obtain ⟨j, hj, rfl⟩ := List.mem_map.mp hq
  rw [req.pass_valueLength, if_pos (show r.len ≥ req.g.v from hlong)] at hj
  have hjle := le_of_mem_strideUpTo hj
  simp only [Geometry.inRegion, decide_eq_true_eq, id_eq]
  omega

/-- A copied range that holds a value is compared alike from any buffer. -/
theorem scalarPassProbes_copied (mem : Memory) (scanAddr n : Nat) (buf buf' : Buf)
    (hv : req.g.v ≤ n) :
    scalarPassProbes (req.pass data maskData) (none : Option (AliasEngine mem)) scanAddr n buf =
      scalarPassProbes (req.pass data maskData) (none : Option (AliasEngine mem)) scanAddr n buf' := by
  refine chunkProbes_agree _ mem scanAddr _ _ _ fun i hi => .inl ?_
  have hpos := req.g.v_pos
  have hc := req.g.le_c
  obtain ⟨fuel, rfl⟩ : ∃ fuel, n = fuel + 1 := ⟨n - 1, by omega⟩
  rw [req.pass_valueLength] at hi
  simp only [FirstScanReq.pass_chunkSize, FirstScanReq.pass_valueLength, FirstScanReq.pass_step,
    regionChunks, req.g.scanChunks_succ (show 0 < fuel + 1 by omega)]
  split
  · exact ⟨_, rfl, by simp only; omega⟩
  · exact ⟨_, rfl, by simp only; omega⟩

/-- **The hits of a pass are settled by the memory** when the finder searches, when nothing can
be reported, or when the range is settled. -/
theorem passHits_settled {mem : Memory} {simd aliasing : Bool} {n : Nat}
    (hsimd : simd = true → ∃ alloc, simdOk (req.pass data maskData) alloc = true)
    (h : firstScanReports req.ct req.vt = false ∨ simd = true ∨ RangeSettled req aliasing n)
    (actx : Option (AliasEngine mem)) (hactx : aliasing = false → actx = none) (scanAddr : Nat)
    (buf : Buf) :
    passHits (req.pass data maskData) simd actx scanAddr n buf =
      clearedHits mem (req.pass data maskData) simd scanAddr n := by
  rw [clearedHits]
  cases simd with
  | true =>
    obtain ⟨alloc, hok⟩ := hsimd rfl
    obtain ⟨hct, -, hstep, -⟩ := (simdOk_pass req data maskData alloc).mp hok
    rcases req.isInteger_or_unsized with hvt | hvt
    · rw [passHits_finder req data maskData hct hvt hstep, passHits_finder req data maskData hct hvt hstep]
    · have hvt' : sizeOfValueType (req.pass data maskData).vt = 0 := hvt
      rw [passHits_unsized hvt', passHits_unsized hvt']
  | false =>
    rw [passHits_scalar, passHits_scalar]
    rcases h with hrep | hfalse | rfl | ⟨hv, halias | hwhole⟩
    · simp only [compare_of_not_reports req data maskData hrep, List.filter_false]
    · cases hfalse
    · rfl
    · rw [hactx halias, scalarPassProbes_copied req data maskData mem scanAddr n buf (fun _ => 0) hv]
    · have hns : req.g.NoShort n 0 n := (req.g.noShort_iff n).mpr (.inr hwhole)
      rw [scalarPassProbes_noShort req data maskData actx scanAddr n buf hns,
        scalarPassProbes_noShort req data maskData none scanAddr n _ hns]

/-- A hit starts inside its range, and carries one value. -/
theorem passHits_inside {mem : Memory} {simd : Bool} {actx : Option (AliasEngine mem)}
    {scanAddr n : Nat} {buf : Buf} {q : Probe}
    (hq : q ∈ passHits (req.pass data maskData) simd actx scanAddr n buf)
    (hsimd : simd = true → ∃ alloc, simdOk (req.pass data maskData) alloc = true) :
    q.off < n ∧ q.window.length = req.g.v := by
  have hv := req.g.v_pos
  cases simd with
  | true =>
    obtain ⟨alloc, hok⟩ := hsimd rfl
    obtain ⟨hct, -, hstep, -⟩ := (simdOk_pass req data maskData alloc).mp hok
    rcases req.isInteger_or_unsized with hvt | hvt
    · rw [passHits_finder req data maskData hct hvt hstep] at hq
      obtain ⟨o, ho, rfl⟩ := List.mem_map.mp (List.mem_filter.mp hq).1
      obtain ⟨-, hle⟩ := req.g.mem_grid.mp ho
      exact ⟨by simp only [memProbe]; omega, length_slice ..⟩
    · rw [passHits_unsized (show sizeOfValueType (req.pass data maskData).vt = 0 from hvt)] at hq
      cases hq
  | false =>
    rw [passHits_scalar] at hq
    obtain ⟨r, hr, hq⟩ := List.mem_flatMap.mp (List.mem_filter.mp hq).1
    obtain ⟨-, hend, -, hmem⟩ := mem_reads req hr
    obtain ⟨hpos, -, -, -⟩ := req.g.scanChunks_bounds n 0 n _ hmem
    obtain ⟨j, hj, rfl⟩ := List.mem_map.mp hq
    have hjle : j ≤ req.g.limit r.len := le_of_mem_strideUpTo hj
    refine ⟨?_, length_slice ..⟩
    simp only [Geometry.limit] at hjle ⊢
    split at hjle <;> omega

end Settled

/-! ## Resident and streaming requests -/

/-- A START with `TS_SERVER_RESIDENT` and without a snapshot, whose values fit a session. -/
structure ResidentReq where
  req : FirstScanReq
  flags : UInt32
  resident : hasFlag flags TS_SERVER_RESIDENT = true
  noSnapshot : hasFlag flags TS_SNAPSHOT = false
  v_le : req.g.v ≤ 0x1000

/-- The same request over another range. -/
def FirstScanReq.onRange (req : FirstScanReq) (s : SnapSegment) : FirstScanReq where
  sp := { req.sp with address := s.address, length := s.length }
  ct := req.ct
  ct_eq := req.ct_eq
  lenData_ne := req.lenData_ne
  v_le := req.v_le
  notFloat := req.notFloat

/-- A streamed record as a session would keep it. -/
def ScanRecord.absolute (s : SnapSegment) (rec : ScanRecord) : Rec :=
  ⟨u64 (s.address.toNat + rec.offset), rec.value, [], []⟩

namespace ResidentReq

variable (r : ResidentReq)

/-- The packet. -/
def packet : TurboStartPacket := ⟨r.req.sp, r.flags⟩

/-- Whether a segment list follows the packet. -/
def segmented : Bool := hasFlag r.flags TS_SNAPSHOT_SEGMENTS

def aliasing : Bool := hasFlag r.flags TS_USE_ALIASING

/-- The packet's own range. -/
def whole : SnapSegment := ⟨r.req.sp.address, r.req.sp.length⟩

/-- The ranges the request scans, when the client sends `segs`. -/
def ranges (segs : List SnapSegment) : List SnapSegment := if r.segmented then segs else [r.whole]

/-- The non-resident START of one range. -/
def streaming (s : SnapSegment) : TurboStartPacket :=
  ⟨(r.req.onRange s).sp, r.flags &&& ~~~TS_SERVER_RESIDENT⟩

/-- What the non-resident START of a range can stream, the finder's table allocated or not. -/
def Streams (alloc : Bool) (p : Pass) (mem : Memory) (s : SnapSegment) (rs : List ScanRecord) : Prop :=
  ∃ env : TurboEnv mem, env.simdOffAlloc = alloc ∧ rs = turboStartRecords (r.streaming s) p env

/-- The resident half of the request: stored or not, the records, and `read_buf`. -/
def resultOf {mem : Memory} (p : Pass) (env : TurboEnv mem) : Option (Bool × List Stored × Buf) :=
  residentPass r.packet p (simdOk p env.simdOffAlloc)
    (if hasFlag r.flags TS_USE_ALIASING then env.aliasCtx else none) env

/-- **Resident and streaming first scans agree.** A stored scan answers a full GET with the
records the ranges stream; one that is not stored leaves no session, and is followed by the
non-resident stream of its range, or by an empty stream for a segment list; the session never
outgrows its buffer. For all scan data, memories, heaps, alias outcomes and capacities. -/
def Agrees (segs : List SnapSegment) (alloc : Bool) : Prop :=
  ∀ (data maskData : List Byte) (mem : Memory) (env : TurboEnv mem) (spawn : SpawnOutcome),
    env.simdOffAlloc = alloc → env.segs = none ∨ env.segs = some segs →
    ∀ (stored : Bool) (recs : List Stored) (buf : Buf),
      r.resultOf (r.req.pass data maskData) env = some (stored, recs, buf) →
      (stored = true →
        turboStartReply r.packet (r.req.pass data maskData) env spawn =
          [residentSummary 1 recs.length] ∧
        ∀ (results : List (List ScanRecord)) (n : Nat), recs.length ≤ n →
          List.Forall₂ (r.Streams alloc (r.req.pass data maskData) mem) (r.ranges segs) results →
          turboscanGet (startSession r.req.g.v (fun _ => 0) stored recs) 0 n =
            getReply false false (List.zipWith (fun s rs => rs.map (ScanRecord.absolute s))
              (r.ranges segs) results).flatten 0 n) ∧
      (stored = false →
        (∀ start n, turboscanGet (startSession r.req.g.v (fun _ => 0) stored recs) start n =
          [leBytes 4 0]) ∧
        ∀ (env' : TurboEnv mem) (spawn' : SpawnOutcome), env'.simdOffAlloc = alloc →
          turboStartReply r.packet (r.req.pass data maskData) env spawn =
            residentSummary 0 0 ::
              if r.segmented then [sentinel]
              else turboStartReply (r.streaming r.whole) (r.req.pass data maskData) env' spawn') ∧
      ∀ k ≤ recs.length, (residentSession r.req.g.v (fun _ => 0) (recs.take k)).count *
        (residentSession r.req.g.v (fun _ => 0) (recs.take k)).layout.recSize ≤ env.sessionCap

/-! ### The stream of a range -/

theorem streaming_not_resident (s : SnapSegment) :
    hasFlag (r.streaming s).flags TS_SERVER_RESIDENT = false := by
  have hclear : ~~~TS_SERVER_RESIDENT &&& TS_SERVER_RESIDENT = 0 := by decide
  change hasFlag (r.flags &&& ~~~TS_SERVER_RESIDENT) TS_SERVER_RESIDENT = false
  rw [hasFlag, UInt32.and_assoc, hclear]
  simp

theorem streaming_aliasing (s : SnapSegment) :
    hasFlag (r.streaming s).flags TS_USE_ALIASING = r.aliasing := by
  have hkeep : ~~~TS_SERVER_RESIDENT &&& TS_USE_ALIASING = TS_USE_ALIASING := by decide
  change hasFlag (r.flags &&& ~~~TS_SERVER_RESIDENT) TS_USE_ALIASING = _
  rw [hasFlag, UInt32.and_assoc, hkeep]
  rfl

theorem residentPass_streaming (s : SnapSegment) (p : Pass) {mem : Memory} (simd : Bool)
    (actx : Option (AliasEngine mem)) (env : TurboEnv mem) :
    residentPass (r.streaming s) p simd actx env = none := by
  rw [residentPass, r.streaming_not_resident s]
  rfl

/-- A non-resident START makes one streaming pass. -/
theorem turboStartRecords_streaming (s : SnapSegment) (p : Pass) {mem : Memory} (env : TurboEnv mem) :
    turboStartRecords (r.streaming s) p env =
      (parallelStream (r.streaming s) p (simdOk p env.simdOffAlloc)
        (if r.aliasing then env.aliasCtx else none) env).getD
      ((passHits p (simdOk p env.simdOffAlloc) (if r.aliasing then env.aliasCtx else none)
        s.address.toNat s.length.toNat (netAllocBuffer env.raw p.chunkSize)).map
          (wireRecord s.address.toNat s.address.toNat)) := by
  rw [turboStartRecords, residentPass_streaming]
  simp only [r.streaming_aliasing]
  rfl

theorem turboStartReply_streaming (s : SnapSegment) (p : Pass) {mem : Memory} (env : TurboEnv mem)
    (spawn : SpawnOutcome) : turboStartReply (r.streaming s) p env spawn =
      sendRecords (flushThresh p.valueLength) (turboStartRecords (r.streaming s) p env) := by
  rw [turboStartReply, residentPass_streaming, turboStartRecords_streaming, turboStartSends_eq]
  simp only [r.streaming_aliasing]
  rfl

section Stream

variable (data maskData : List Byte)

/-- The condition under which a range of `n` bytes is scanned the same by everyone. -/
def Settled (alloc : Bool) (n : Nat) : Prop :=
  firstScanReports r.req.ct r.req.vt = false ∨ simdOk (r.req.pass [] []) alloc = true ∨
    RangeSettled r.req r.aliasing n

theorem simdOk_data (alloc : Bool) :
    simdOk (r.req.pass data maskData) alloc = simdOk (r.req.pass [] []) alloc := by
  rw [Bool.eq_iff_iff, simdOk_pass, simdOk_pass]

/-- Any pass of the request over a settled range. -/
theorem passHits_of_settled {alloc : Bool} {n : Nat} (h : r.Settled alloc n) {mem : Memory}
    (ctx : Option (AliasEngine mem)) (scanAddr : Nat) (buf : Buf) :
    passHits (r.req.pass data maskData) (simdOk (r.req.pass data maskData) alloc)
        (if r.aliasing then ctx else none) scanAddr n buf =
      clearedHits mem (r.req.pass data maskData) (simdOk (r.req.pass data maskData) alloc) scanAddr n := by
  have hcond : firstScanReports r.req.ct r.req.vt = false ∨
      simdOk (r.req.pass data maskData) alloc = true ∨ RangeSettled r.req r.aliasing n := by
    rw [r.simdOk_data data maskData]
    exact h
  refine passHits_settled r.req data maskData (fun hs => ⟨_, hs⟩) hcond _ ?_ scanAddr buf
  intro halias
  rw [halias]
  rfl

/-- The records streamed for a settled range, by whichever path. -/
theorem streamRecords_of_settled {alloc : Bool} {s : SnapSegment} (h : r.Settled alloc s.length.toNat)
    {mem : Memory} (env : TurboEnv mem) (flags : UInt32) (ctx : Option (AliasEngine mem)) (buf : Buf) :
    (parallelStream ⟨(r.req.onRange s).sp, flags⟩ (r.req.pass data maskData)
      (simdOk (r.req.pass data maskData) alloc) (if r.aliasing then ctx else none) env).getD
      ((passHits (r.req.pass data maskData) (simdOk (r.req.pass data maskData) alloc)
        (if r.aliasing then ctx else none) s.address.toNat s.length.toNat buf).map
          (wireRecord s.address.toNat s.address.toNat)) =
    (clearedHits mem (r.req.pass data maskData) (simdOk (r.req.pass data maskData) alloc)
      s.address.toNat s.length.toNat).map (wireRecord s.address.toNat s.address.toNat) := by
  have hpass := r.passHits_of_settled data maskData h ctx s.address.toNat
  cases hpar : parallelStream ⟨(r.req.onRange s).sp, flags⟩ (r.req.pass data maskData)
      (simdOk (r.req.pass data maskData) alloc) (if r.aliasing then ctx else none) env with
  | none => rw [Option.getD_none, hpass]
  | some rs =>
    have heq := parallelRecords_eq (r.req.onRange s) data maskData (fun hs => ⟨_, hs⟩) hpar
      (if r.aliasing then ctx else none) (fun _ => 0)
    rw [Option.getD_some, heq, ← hpass]
    rfl

/-- The stream of a settled range. -/
theorem streams_of_settled {alloc : Bool} {s : SnapSegment} (h : r.Settled alloc s.length.toNat)
    {mem : Memory} {rs : List ScanRecord} (hrs : r.Streams alloc (r.req.pass data maskData) mem s rs) :
    rs = (clearedHits mem (r.req.pass data maskData) (simdOk (r.req.pass data maskData) alloc)
      s.address.toNat s.length.toNat).map (wireRecord s.address.toNat s.address.toNat) := by
  obtain ⟨env, rfl, rfl⟩ := hrs
  rw [turboStartRecords_streaming]
  exact r.streamRecords_of_settled data maskData h env _ env.aliasCtx _

end Stream

end ResidentReq

/-! ## What a resident scan stores -/

section Store

variable {mem : Memory} (p : Pass) (simd : Bool) (actx : Option (AliasEngine mem)) (cap : Nat)

/-- A session never holds more records than fit. -/
theorem storeChunks_fits (scanAddr : Nat) (chunks : List (Nat × Nat)) :
    ∀ (buf : Buf) (recs : List Stored), recs.length ≤ cap / (8 + p.valueLength) →
      (storeChunks p simd actx scanAddr cap chunks buf recs).2.1.length ≤
        cap / (8 + p.valueLength) := by
  induction chunks with
  | nil => intro buf recs h; exact h
  | cons ch chunks ih =>
    intro buf recs h
    rw [storeChunks]
    split
    · next hroom =>
      refine ih _ _ ?_
      rw [List.length_append]
      omega
    · rw [List.length_append, List.length_take]
      omega

theorem storeRanges_fits (ranges : List (Nat × Nat)) :
    ∀ (buf : Buf) (recs : List Stored), recs.length ≤ cap / (8 + p.valueLength) →
      (storeRanges p simd actx cap ranges buf recs).2.1.length ≤ cap / (8 + p.valueLength) := by
  induction ranges with
  | nil => intro buf recs h; exact h
  | cons rg ranges ih =>
    intro buf recs h
    have hchunks := storeChunks_fits p simd actx cap rg.1
      (regionChunks p.chunkSize p.valueLength p.step rg.2) buf recs h
    rw [storeRanges]
    split
    · exact ih _ _ hchunks
    · exact hchunks

/-- Over ranges whose hits do not depend on the buffer, a stored scan keeps the hits of all of
them, in order. -/
theorem storeRanges_all (hits : Nat × Nat → List Probe) (ranges : List (Nat × Nat))
    (hhits : ∀ rg ∈ ranges, ∀ buf, passHits p simd actx rg.1 rg.2 buf = hits rg) :
    ∀ (buf : Buf) (recs : List Stored), (storeRanges p simd actx cap ranges buf recs).1 = true →
      (storeRanges p simd actx cap ranges buf recs).2.1 =
        recs ++ ranges.flatMap fun rg => (hits rg).map fun q => ⟨u64 (rg.1 + q.off), q.window⟩ := by
  induction ranges with
  | nil => intro buf recs _; simp [storeRanges]
  | cons rg ranges ih =>
    intro buf recs hok
    rw [storeRanges] at hok ⊢
    split at hok
    · next hstored =>
      have hall := storeChunks_all p simd actx rg.1 cap _ buf recs hstored
      have hrg := hhits rg (List.mem_cons_self ..) buf
      rw [passHits] at hrg
      rw [hrg] at hall
      rw [if_pos hstored, ih (fun rg' h => hhits rg' (List.mem_cons_of_mem _ h)) _ _ hok, hall,
        List.flatMap_cons, List.append_assoc]
    · next hfull => exact absurd hok hfull

/-- With room enough, a scan is stored. -/
theorem exists_storeChunks (scanAddr : Nat) (chunks : List (Nat × Nat)) :
    ∀ (buf : Buf) (recs : List Stored), ∃ (m : Nat) (recs' : List Stored) (buf' : Buf),
      ∀ cap, m ≤ cap / (8 + p.valueLength) →
        storeChunks p simd actx scanAddr cap chunks buf recs = (true, recs', buf') := by
  induction chunks with
  | nil => intro buf recs; exact ⟨0, recs, buf, fun _ _ => rfl⟩
  | cons ch chunks ih =>
    intro buf recs
    obtain ⟨m, recs', buf', hm⟩ := ih (readChunk actx scanAddr ch buf).2
      (recs ++ (chunkHits p simd (readChunk actx scanAddr ch buf).1).map
        fun q => (⟨u64 (scanAddr + q.off), q.window⟩ : Stored))
    refine ⟨max m (recs.length + (chunkHits p simd (readChunk actx scanAddr ch buf).1).length),
      recs', buf', fun cap hcap => ?_⟩
    rw [storeChunks]
    simp only [List.length_map]
    rw [if_pos (by omega), hm cap (by omega)]

theorem exists_storeRanges (ranges : List (Nat × Nat)) :
    ∀ (buf : Buf) (recs : List Stored), ∃ m, ∀ cap, m ≤ cap / (8 + p.valueLength) →
      (storeRanges p simd actx cap ranges buf recs).1 = true := by
  induction ranges with
  | nil => intro buf recs; exact ⟨0, fun _ _ => rfl⟩
  | cons rg ranges ih =>
    intro buf recs
    obtain ⟨m, recs', buf', hm⟩ := exists_storeChunks p simd actx rg.1
      (regionChunks p.chunkSize p.valueLength p.step rg.2) buf recs
    obtain ⟨m', hm'⟩ := ih buf' recs'
    refine ⟨max m m', fun cap hcap => ?_⟩
    rw [storeRanges, hm cap (by omega), if_pos rfl]
    exact hm' cap (by omega)

end Store

namespace ResidentReq

variable (r : ResidentReq) (data maskData : List Byte)

/-- The ranges of a request as the passes see them. -/
def pairs (ranges : List SnapSegment) : List (Nat × Nat) :=
  ranges.map fun s => (s.address.toNat, s.length.toNat)

/-- The resident half of a request: declined without a session, or a run of passes. -/
theorem resultOf_cases {p : Pass} {mem : Memory} {env : TurboEnv mem} {segs : List SnapSegment}
    {stored : Bool} {recs : List Stored} {buf : Buf} (hsegs : env.segs = none ∨ env.segs = some segs)
    (h : r.resultOf p env = some (stored, recs, buf)) :
    (stored = false ∧ recs = []) ∨
      storeRanges p (simdOk p env.simdOffAlloc) (if r.aliasing then env.aliasCtx else none)
        env.sessionCap (pairs (r.ranges segs)) (netAllocBuffer env.raw p.chunkSize) [] =
        (stored, recs, buf) := by
  have hres : hasFlag r.packet.flags TS_SERVER_RESIDENT = true := r.resident
  rw [resultOf, residentPass, hres] at h
  simp only [Bool.not_true, Bool.false_eq_true, if_false] at h
  split at h
  · next hcond =>
    refine .inr ?_
    obtain ⟨-, hsome, -⟩ := hcond
    have hranges : (if hasFlag r.packet.flags TS_SNAPSHOT_SEGMENTS = true then
        (env.segs.getD []).map fun s => (s.address.toNat, s.length.toNat)
        else [(r.packet.address.toNat, r.packet.length.toNat)]) = pairs (r.ranges segs) := by
      rw [pairs, ranges]
      cases hseg : r.segmented with
      | false =>
        have hseg' : hasFlag r.packet.flags TS_SNAPSHOT_SEGMENTS = false := hseg
        rw [hseg']
        rfl
      | true =>
        have hseg' : hasFlag r.packet.flags TS_SNAPSHOT_SEGMENTS = true := hseg
        rcases hsegs with hnone | hsome'
        · rw [hnone] at hsome
          cases hsome hseg'
        · rw [hseg', hsome']
          rfl
    rw [hranges] at h
    exact Option.some.inj h
  · simp only [Option.some.injEq, Prod.mk.injEq] at h
    obtain ⟨rfl, rfl, -⟩ := h
    exact .inl ⟨rfl, rfl⟩

/-- The reply of a request, by what its resident half did. -/
theorem reply_of_result {p : Pass} {mem : Memory} {env : TurboEnv mem} {stored : Bool}
    {recs : List Stored} {buf : Buf} (spawn : SpawnOutcome)
    (h : r.resultOf p env = some (stored, recs, buf)) :
    turboStartReply r.packet p env spawn =
      if stored then [residentSummary 1 recs.length]
      else residentSummary 0 0 ::
        if r.segmented then [sentinel]
        else turboStartSends r.packet p (simdOk p env.simdOffAlloc)
          (if r.aliasing then env.aliasCtx else none) env spawn buf := by
  have hpass : residentPass r.packet p (simdOk p env.simdOffAlloc)
      (if hasFlag r.packet.flags TS_USE_ALIASING then env.aliasCtx else none) env = some (stored, recs, buf) := h
  rw [turboStartReply]
  simp only [hpass]
  cases stored <;> rfl

/-- Streamed records of settled ranges, put together, are the stored ones. -/
theorem zipWith_streams {alloc : Bool} {mem : Memory} {ranges : List SnapSegment}
    {results : List (List ScanRecord)}
    (h : List.Forall₂ (r.Streams alloc (r.req.pass data maskData) mem) ranges results)
    (hset : ∀ s ∈ ranges, r.Settled alloc s.length.toNat) :
    (List.zipWith (fun s rs => rs.map (ScanRecord.absolute s)) ranges results).flatten =
      ((pairs ranges).flatMap fun rg => (clearedHits mem (r.req.pass data maskData)
        (simdOk (r.req.pass data maskData) alloc) rg.1 rg.2).map fun q =>
          (⟨u64 (rg.1 + q.off), q.window⟩ : Stored)).map fun s => ⟨s.addr, s.value, [], []⟩ := by
  induction h with
  | nil => rfl
  | @cons s rs ranges results hs _ ih =>
    have hrs := r.streams_of_settled data maskData (hset s (List.mem_cons_self ..)) hs
    rw [List.zipWith_cons_cons, List.flatten_cons, pairs, List.map_cons, List.flatMap_cons,
      List.map_append, ih fun s' hs' => hset s' (List.mem_cons_of_mem _ hs'), hrs]
    congr 1
    rw [List.map_map, List.map_map]
    apply List.map_congr_left
    intro q hq
    -- the offset on the wire is the one the hit was found at
    obtain ⟨hlt, -⟩ := passHits_inside r.req data maskData hq fun hs => ⟨_, hs⟩
    have hn := s.length.toNat_lt
    have hoff : subU64 (u64 (s.address.toNat + q.off)) s.address.toNat % 2 ^ 32 = q.off :=
      wire_offset s.address.toNat_lt (by omega)
    simp only [Function.comp_apply, wireRecord, ScanRecord.absolute, hoff]

/-- Over settled ranges resident and streaming scans agree. -/
theorem agrees_of_settled {segs : List SnapSegment} {alloc : Bool}
    (h : ∀ s ∈ r.ranges segs, r.Settled alloc s.length.toNat) : r.Agrees segs alloc := by
  intro data maskData mem env spawn halloc hsegs stored recs buf hres
  subst halloc
  have hcases := r.resultOf_cases hsegs hres
  refine ⟨?_, ?_, ?_⟩
  · rintro rfl
    refine ⟨r.reply_of_result spawn hres, fun results n hn hresults => ?_⟩
    obtain ⟨hfalse, -⟩ | hstore := hcases
    · cases hfalse
    have hall := storeRanges_all (r.req.pass data maskData) (simdOk (r.req.pass data maskData) env.simdOffAlloc)
      (if r.aliasing then env.aliasCtx else none) env.sessionCap
      (fun rg => clearedHits mem (r.req.pass data maskData)
        (simdOk (r.req.pass data maskData) env.simdOffAlloc) rg.1 rg.2) (pairs (r.ranges segs)) (by
          intro rg hrg buf
          obtain ⟨s, hs, rfl⟩ := List.mem_map.mp hrg
          exact r.passHits_of_settled data maskData (h s hs) env.aliasCtx _ buf)
      (netAllocBuffer env.raw (r.req.pass data maskData).chunkSize) [] (by rw [hstore])
    rw [hstore, List.nil_append] at hall
    simp only at hall
    have hvalid : ∀ x ∈ recs, x.addr < 2 ^ 64 ∧ x.value.length = r.req.g.v := by
      intro x hx
      rw [hall] at hx
      obtain ⟨rg, -, hx⟩ := List.mem_flatMap.mp hx
      obtain ⟨q, hq, rfl⟩ := List.mem_map.mp hx
      obtain ⟨-, hlen⟩ := passHits_inside r.req data maskData hq fun hs => ⟨_, hs⟩
      exact ⟨u64_lt _, hlen⟩
    rw [startSession, if_pos rfl, turboscanGet, listGet_eq, residentSession_layout,
      records_residentSession _ _ _ hvalid, r.zipWith_streams data maskData hresults h, ← hall]
  · rintro rfl
    refine ⟨fun start n => rfl, fun env' spawn' halloc' => ?_⟩
    rw [r.reply_of_result spawn hres, if_neg (by decide)]
    cases hseg : r.segmented with
    | true => rfl
    | false =>
      have hwhole : r.Settled env.simdOffAlloc r.whole.length.toNat := by
        refine h r.whole ?_
        rw [ranges, hseg]
        exact List.mem_cons_self ..
      have hfall := r.streamRecords_of_settled data maskData hwhole env r.flags env.aliasCtx buf
      have hstream := r.streams_of_settled data maskData hwhole ⟨env', halloc', rfl⟩
      rw [r.turboStartReply_streaming, hstream, ← hfall, turboStartSends_eq]
      rfl
  · intro k hk
    have hfit : recs.length ≤ env.sessionCap / (8 + r.req.g.v) := by
      obtain ⟨-, rfl⟩ | hstore := hcases
      · exact Nat.zero_le _
      · have hfits := storeRanges_fits (r.req.pass data maskData)
          (simdOk (r.req.pass data maskData) env.simdOffAlloc) (if r.aliasing then env.aliasCtx else none)
          env.sessionCap (pairs (r.ranges segs))
          (netAllocBuffer env.raw (r.req.pass data maskData).chunkSize) [] (Nat.zero_le _)
        rw [hstore] at hfits
        exact hfits
    have hsize : (residentSession r.req.g.v (fun _ => 0) (recs.take k)).layout.recSize =
        8 + r.req.g.v := by
      rw [residentSession_layout]
      simp [Layout.recSize]
    rw [residentSession_count, hsize, List.length_take, Nat.min_eq_left hk]
    exact (Nat.le_div_iff_mul_le (by omega)).mp (Nat.le_trans hk hfit)

end ResidentReq

end Ps5Debugger

import Ps5Debugger.TurboSession

/-!
# What a first scan does with its chunks

`scanStartRecords` and `turboStartRecords` say what a first scan finds. Here is what it looks at on the
way: each chunk that was read, with the windows that the scalar loop hands to the comparator, or with
nothing but the finder. A resident pass stops at the hit for which its session has no room; the workers of
a parallel scan have looked at their chunks whether or not their hits are streamed.
-/

namespace Ps5Debugger

open Lib

/-- What is done with a chunk. -/
inductive ChunkScan where
  /-- `scan_simd_find_exact` on all of it -/
  | find (r : ChunkRead)
  /-- these windows are compared -/
  | compare (r : ChunkRead) (probes : List Probe)

namespace ChunkScan

def read : ChunkScan → ChunkRead
  | find r | compare r _ => r

/-- The windows that are handed to the comparator. -/
def probes : ChunkScan → List Probe
  | find _ => []
  | compare _ probes => probes

end ChunkScan

/-- The scan of a chunk of which everything is looked at. -/
def chunkScan (p : Pass) (simdOk : Bool) (r : ChunkRead) : ChunkScan :=
  if simdOk then .find r else .compare r (scalarProbes p r)

/-- The windows that are compared up to the hit for which there is no room. -/
def upToFull (p : Pass) : Nat → List Probe → List Probe
  | _, [] => []
  | room, q :: qs =>
    if p.compare q.window then
      match room with
      | 0 => [q]
      | room + 1 => q :: upToFull p room qs
    else q :: upToFull p room qs

/-- The scans of `storeChunks`. -/
def storeChunkScans {mem : Memory} (p : Pass) (simdOk : Bool) (actx : Option (AliasEngine mem))
    (scanAddr cap : Nat) : List (Nat × Nat) → Buf → Nat → List ChunkScan
  | [], _, _ => []
  | c :: cs, readBuf, stored =>
    let r := readChunk actx scanAddr c readBuf
    let room := cap / (8 + p.valueLength) - stored
    let hits := chunkHits p simdOk r.1
    if hits.length ≤ room then
      chunkScan p simdOk r.1 :: storeChunkScans p simdOk actx scanAddr cap cs r.2 (stored + hits.length)
    else if simdOk then [.find r.1]
    else [.compare r.1 (upToFull p room (scalarProbes p r.1))]

/-- The scans of `storeRanges`. -/
def storeRangeScans {mem : Memory} (p : Pass) (simdOk : Bool) (actx : Option (AliasEngine mem)) (cap : Nat) :
    List (Nat × Nat) → Buf → List Stored → List ChunkScan
  | [], _, _ => []
  | (a, n) :: rs, readBuf, recs =>
    let chunks := regionChunks p.chunkSize p.valueLength p.step n
    let s := storeChunks p simdOk actx a cap chunks readBuf recs
    storeChunkScans p simdOk actx a cap chunks readBuf recs.length ++
      if s.1 then storeRangeScans p simdOk actx cap rs s.2.2 s.2.1 else []

/-- The scans of `turboscan_scan_pass_range` without a session. -/
def passScans {mem : Memory} (p : Pass) (simdOk : Bool) (actx : Option (AliasEngine mem))
    (scanAddr scanLen : Nat) (readBuf : Buf) : List ChunkScan :=
  (chunkReads actx scanAddr (regionChunks p.chunkSize p.valueLength p.step scanLen) readBuf).map
    (chunkScan p simdOk)

/-- The scans of the workers of `turboscan_parallel_stream`. -/
def parallelScans {mem : Memory} (sp : TurboStartPacket) (p : Pass) (simd : Bool)
    (actx : Option (AliasEngine mem)) (env : TurboEnv mem) : List ChunkScan :=
  let length := sp.length.toNat
  let v := p.valueLength
  if !hasFlag sp.flags TS_PARALLEL_COMPARE || !simd || actx.isNone || length < v * 2 then []
  else
    let span := (u32 (length + 2 - 1) / 2 + v - 1) / v * v
    if span = 0 then []
    else
      let nw := (length + span - 1) / span
      if nw ≤ 1 ∨ nw > 2 then []
      else if !env.workersAlloc || (List.range nw).any fun i => (env.workerAlias i).isNone then []
      else
        (List.range nw).flatMap fun i =>
          let sOff := i * span
          let sLen := if sOff + span ≤ length then span else length - sOff
          storeChunkScans p simd (env.workerAlias i) (u64 (sp.address.toNat + sOff)) parResultCap
            (regionChunks p.chunkSize v p.step sLen) (env.workerRaw i) 0

/-- The scans of a streaming pass: the workers', and the sequential ones if they did not do it all. -/
def streamScans {mem : Memory} (sp : TurboStartPacket) (p : Pass) (simd : Bool)
    (actx : Option (AliasEngine mem)) (env : TurboEnv mem) (readBuf : Buf) : List ChunkScan :=
  parallelScans sp p simd actx env ++
    if (parallelStream sp p simd actx env).isSome then []
    else passScans p simd actx sp.address.toNat sp.length.toNat readBuf

/-- The scans of a resident pass. -/
def residentPassScans {mem : Memory} (sp : TurboStartPacket) (p : Pass) (simd : Bool)
    (actx : Option (AliasEngine mem)) (env : TurboEnv mem) : List ChunkScan :=
  let useSegments := hasFlag sp.flags TS_SNAPSHOT_SEGMENTS
  if p.valueLength ≤ 0x1000 ∧ (useSegments = true → env.segs.isSome) ∧ env.sessionAlloc then
    let ranges :=
      if useSegments then (env.segs.getD []).map fun s => (s.address.toNat, s.length.toNat)
      else [(sp.address.toNat, sp.length.toNat)]
    storeRangeScans p simd actx env.sessionCap ranges (netAllocBuffer env.raw p.chunkSize) []
  else []

/-- The scans of a turbo START that is no snapshot. -/
def turboStartScans {mem : Memory} (sp : TurboStartPacket) (p : Pass) (env : TurboEnv mem) : List ChunkScan :=
  let simd := simdOk p env.simdOffAlloc
  let actx := if hasFlag sp.flags TS_USE_ALIASING then env.aliasCtx else none
  match residentPass sp p simd actx env with
  | none => streamScans sp p simd actx env (netAllocBuffer env.raw p.chunkSize)
  | some (stored, _, readBuf) =>
    residentPassScans sp p simd actx env ++
      if stored || hasFlag sp.flags TS_SNAPSHOT_SEGMENTS then [] else streamScans sp p simd actx env readBuf

/-! ## The two handlers -/

/-- `net_alloc_buffer(lenData)` for the pattern does not come back. -/
def patternStalls (ct : Option CmpType) (lenData : UInt32) : Bool :=
  (ct.map CmpType.needsValue).getD false && !allocEnds lenData

/-- A START that is accepted: its parameters, its scans, and the records it streams. -/
structure StartRun where
  pass : Pass
  lenData : UInt32
  scans : List ChunkScan
  records : List ScanRecord

/-- `proc_scan_start_handle`. -/
def procScanStart (mem : Memory) (auth buffersOk : Bool) (sp : ScanStartPacket) (data maskData : List Byte)
    (raw : Buf) : Option StartRun :=
  if !auth || !buffersOk || patternStalls (CmpType.ofByte sp.compareType) sp.lenData then none
  else
    (preparePass sp data maskData).map fun p =>
      { pass := p
        lenData := sp.lenData
        scans := passScans p false (none : Option (AliasEngine mem)) sp.address.toNat sp.length.toNat
          (netAllocBuffer raw p.chunkSize)
        records := scanStartRecords mem sp p raw }

/-- A SCAN_START that is not refused. -/
theorem procScanStart_eq (mem : Memory) (raw : Buf) {sp : ScanStartPacket} {data maskData : List Byte} {p : Pass}
    (hends : patternStalls (CmpType.ofByte sp.compareType) sp.lenData = false)
    (hp : preparePass sp data maskData = some p) :
    procScanStart mem true true sp data maskData raw =
      some
        { pass := p
          lenData := sp.lenData
          scans := passScans p false (none : Option (AliasEngine mem)) sp.address.toNat sp.length.toNat
            (netAllocBuffer raw p.chunkSize)
          records := scanStartRecords mem sp p raw } := by
  rw [procScanStart, hends, hp]
  rfl

/-- `proc_turboscan_start_handle`; a snapshot has no comparator and no result stream. -/
def procTurboscanStart (auth : Bool) (c : TurboStart) : Option StartRun :=
  if !auth || patternStalls (CmpType.ofByte c.sp.compareType) c.sp.lenData then none
  else
    c.prepare.map fun p =>
      { pass := p
        lenData := c.sp.lenData
        scans := if c.wantSnapshot then [] else turboStartScans c.sp p c.env.turbo
        records := if c.wantSnapshot then [] else turboStartRecords c.sp p c.env.turbo }

/-- What an accepted SCAN_START is made of. -/
theorem procScanStart_some {mem : Memory} {auth buffersOk : Bool} {sp : ScanStartPacket}
    {data maskData : List Byte} {raw : Buf} {r : StartRun}
    (h : procScanStart mem auth buffersOk sp data maskData raw = some r) :
    ∃ p, preparePass sp data maskData = some p ∧
      r = ⟨p, sp.lenData, passScans p false (none : Option (AliasEngine mem)) sp.address.toNat sp.length.toNat
        (netAllocBuffer raw p.chunkSize), scanStartRecords mem sp p raw⟩ := by
  rw [procScanStart] at h
  split at h
  · cases h
  · obtain ⟨p, hp, rfl⟩ := Option.map_eq_some_iff.mp h
    exact ⟨p, hp, rfl⟩

/-- What an accepted turbo START is made of. -/
theorem procTurboscanStart_some {auth : Bool} {c : TurboStart} {r : StartRun}
    (h : procTurboscanStart auth c = some r) :
    ∃ p, c.prepare = some p ∧
      r = ⟨p, c.sp.lenData, if c.wantSnapshot then [] else turboStartScans c.sp p c.env.turbo,
        if c.wantSnapshot then [] else turboStartRecords c.sp p c.env.turbo⟩ := by
  rw [procTurboscanStart] at h
  split at h
  · cases h
  · obtain ⟨p, hp, rfl⟩ := Option.map_eq_some_iff.mp h
    exact ⟨p, hp, rfl⟩

/-- A request for a first scan, with all that the handler meets. -/
inductive StartRequest where
  | scanStart (mem : Memory) (auth buffersOk : Bool) (sp : ScanStartPacket) (data maskData : List Byte) (raw : Buf)
  | turboStart (auth : Bool) (c : TurboStart)

def StartRequest.run : StartRequest → Option StartRun
  | scanStart mem auth buffersOk sp data maskData raw => procScanStart mem auth buffersOk sp data maskData raw
  | turboStart auth c => procTurboscanStart auth c

/-! ## The parameters of an accepted START -/

/-- What the prologues see to. -/
structure Pass.Prepared (p : Pass) (lenData : UInt32) : Prop where
  length_eq : p.valueLength = Ps5Debugger.valueLength p.vt lenData.toNat
  v_pos : 0 < p.valueLength
  v_le : p.valueLength ≤ 0x100000
  step_pos : 0 < p.step
  step_le : p.step ≤ 0x100000
  chunk_eq : p.chunkSize = chunkSizeFor p.valueLength

/-- The sizes of a prepared pass. -/
def Pass.Prepared.geometry {p : Pass} {lenData : UInt32} (h : p.Prepared lenData) : Geometry :=
  ⟨p.valueLength, p.step, h.v_pos, h.v_le, h.step_pos, h.step_le⟩

/-- A chunk holds a value, and is at most a megabyte. -/
theorem Pass.Prepared.chunkSize_bounds {p : Pass} {lenData : UInt32} (h : p.Prepared lenData) :
    p.valueLength ≤ p.chunkSize ∧ p.chunkSize ≤ 0x100000 := by
  rw [h.chunk_eq]
  exact ⟨h.geometry.le_c.1, h.geometry.c_le⟩

/-- A value of more than a megabyte leaves no chunk. -/
theorem le_of_chunkSizeFor {v : Nat} (h : chunkSizeFor v ≠ 0) : v ≤ 0x100000 := by
  by_contra hlong
  have hdiv : 0x100000 / v = 0 := Nat.div_eq_of_lt (Nat.not_le.mp hlong)
  have hmod : 0x100000 % v = 0x100000 := Nat.mod_eq_of_lt (Nat.not_le.mp hlong)
  rw [chunkSizeFor, hmod, hdiv, if_pos (by decide)] at h
  omega

theorem stepFor_bounds (alignment : UInt8) {v : Nat} (hpos : 0 < v) (hle : v ≤ 0x100000) :
    0 < stepFor alignment v ∧ stepFor alignment v ≤ 0x100000 := by
  rw [stepFor]
  split
  · next h =>
    have hne : alignment.toNat ≠ 0 := fun h0 => h (UInt8.toNat_inj.mp h0)
    have hlt := alignment.toNat_lt
    omega
  · exact ⟨hpos, hle⟩

/-- A value has at least one byte if some were announced. -/
theorem valueLength_pos {vt : ValType} {lenData : Nat} (h : lenData ≠ 0) : 0 < valueLength vt lenData := by
  rw [valueLength]
  split
  · exact Nat.pos_of_ne_zero h
  · next hsize => exact Nat.pos_of_ne_zero hsize

theorem preparePass_prepared {sp : ScanStartPacket} {data maskData : List Byte} {p : Pass}
    (h : preparePass sp data maskData = some p) : p.Prepared sp.lenData := by
  rw [preparePass] at h
  split at h
  · cases h
  split at h
  · cases h
  next hlen =>
  dsimp only at h
  split at h
  · cases h
  next hchunk =>
  obtain rfl := Option.some.inj h
  have hv := le_of_chunkSizeFor hchunk
  have hpos : 0 < sp.valueLength := valueLength_pos fun h0 => hlen (UInt32.toNat_inj.mp h0)
  have hstep := stepFor_bounds sp.alignment hpos hv
  exact ⟨rfl, hpos, hv, hstep.1, hstep.2, rfl⟩

theorem prepare_prepared {c : TurboStart} {p : Pass} (h : c.prepare = some p) : p.Prepared c.sp.lenData := by
  rw [TurboStart.prepare] at h
  split at h
  · cases h
  split at h
  · cases h
  dsimp only at h
  split at h
  · cases h
  next hpos =>
  split at h
  · cases h
  next hchunk =>
  obtain rfl := Option.some.inj h
  have hv := le_of_chunkSizeFor fun h0 => hchunk (.inl h0)
  have hstep := stepFor_bounds c.sp.alignment (Nat.pos_of_ne_zero hpos) hv
  exact ⟨rfl, Nat.pos_of_ne_zero hpos, hv, hstep.1, hstep.2, rfl⟩

/-- An accepted START is prepared. -/
theorem StartRequest.run_prepared {req : StartRequest} {r : StartRun} (h : r ∈ req.run) :
    r.pass.Prepared r.lenData := by
  cases req with
  | scanStart mem auth buffersOk sp data maskData raw =>
    obtain ⟨p, hp, rfl⟩ := procScanStart_some h
    exact preparePass_prepared hp
  | turboStart auth c =>
    obtain ⟨p, hp, rfl⟩ := procTurboscanStart_some h
    exact prepare_prepared hp

/-! ## The scans of an accepted START -/

/-- A scan of a chunk that fits in the read buffer; what is compared is some of what the scalar loop
compares there, and the finder runs only where `simd` says so. -/
structure Pass.Scans (p : Pass) (simd : Bool) (s : ChunkScan) : Prop where
  len_le : s.read.len ≤ p.chunkSize
  probes : ∀ q ∈ s.probes, q ∈ scalarProbes p s.read
  finds : ∀ r, s = .find r → simd = true

section Scans

variable {p : Pass} {mem : Memory} {actx : Option (AliasEngine mem)}

theorem scans_chunkScan {simd : Bool} {r : ChunkRead} (hlen : r.len ≤ p.chunkSize) :
    p.Scans simd (chunkScan p simd r) := by
  cases simd with
  | true => exact ⟨hlen, fun q hq => (by cases hq), fun _ _ => rfl⟩
  | false => exact ⟨hlen, fun q hq => hq, fun _ h => by cases h⟩

theorem mem_of_mem_upToFull {q : Probe} {probes : List Probe} :
    ∀ {room : Nat}, q ∈ upToFull p room probes → q ∈ probes := by
  induction probes with
  | nil => intro room h; exact h
  | cons x xs ih =>
    intro room h
    simp only [upToFull] at h
    split at h
    · cases room with
      | zero => exact List.mem_cons.mpr (.inl (List.mem_singleton.mp h))
      | succ room =>
        rcases List.mem_cons.mp h with rfl | h
        · exact List.mem_cons_self ..
        · exact List.mem_cons_of_mem x (ih h)
    · rcases List.mem_cons.mp h with rfl | h
      · exact List.mem_cons_self ..
      · exact List.mem_cons_of_mem x (ih h)

theorem scans_passScans {simd : Bool} {scanAddr scanLen : Nat} {buf : Buf} :
    ∀ s ∈ passScans p simd actx scanAddr scanLen buf, p.Scans simd s := by
  intro s hs
  obtain ⟨r, hr, rfl⟩ := List.mem_map.mp hs
  exact scans_chunkScan (len_le_of_mem_scanChunks (chunkReads_fresh actx scanAddr _ buf r hr).1)

theorem scans_storeChunkScans {simd : Bool} {scanAddr cap : Nat} {chunks : List (Nat × Nat)}
    (hchunks : ∀ ch ∈ chunks, ch.2 ≤ p.chunkSize) : ∀ (buf : Buf) (stored : Nat),
    ∀ s ∈ storeChunkScans p simd actx scanAddr cap chunks buf stored, p.Scans simd s := by
  induction chunks with
  | nil => intro buf stored s hs; cases hs
  | cons ch chunks ih =>
    intro buf stored s hs
    have hlen : (readChunk actx scanAddr ch buf).1.len ≤ p.chunkSize := by
      rw [(readChunk_off_len actx scanAddr ch buf).2]
      exact hchunks ch (List.mem_cons_self ..)
    rw [storeChunkScans] at hs
    split at hs
    · rcases List.mem_cons.mp hs with rfl | hs
      · exact scans_chunkScan hlen
      · exact ih (fun c hc => hchunks c (List.mem_cons_of_mem _ hc)) _ _ s hs
    · split at hs
      · next hsimd =>
        obtain rfl := List.mem_singleton.mp hs
        exact ⟨hlen, fun q hq => (by cases hq), fun _ _ => hsimd⟩
      · obtain rfl := List.mem_singleton.mp hs
        exact ⟨hlen, fun q hq => mem_of_mem_upToFull hq, fun _ h => by cases h⟩

theorem scans_storeRangeScans {simd : Bool} {cap : Nat} {ranges : List (Nat × Nat)} :
    ∀ (buf : Buf) (recs : List Stored), ∀ s ∈ storeRangeScans p simd actx cap ranges buf recs, p.Scans simd s := by
  induction ranges with
  | nil => intro buf recs s hs; cases hs
  | cons range ranges ih =>
    intro buf recs s hs
    rw [storeRangeScans] at hs
    rcases List.mem_append.mp hs with hs | hs
    · exact scans_storeChunkScans (fun ch hch => len_le_of_mem_scanChunks hch) _ _ s hs
    · split at hs
      · exact ih _ _ s hs
      · cases hs

end Scans

section Turbo

variable {sp : TurboStartPacket} {p : Pass} {simd : Bool} {mem : Memory} {actx : Option (AliasEngine mem)}
  {env : TurboEnv mem}

theorem scans_parallelScans : ∀ s ∈ parallelScans sp p simd actx env, p.Scans simd s := by
  intro s hs
  rw [parallelScans] at hs
  dsimp only at hs
  split at hs
  · cases hs
  split at hs
  · cases hs
  split at hs
  · cases hs
  split at hs
  · cases hs
  obtain ⟨i, -, hs⟩ := List.mem_flatMap.mp hs
  exact scans_storeChunkScans (fun ch hch => len_le_of_mem_scanChunks hch) _ _ s hs

theorem scans_streamScans {buf : Buf} : ∀ s ∈ streamScans sp p simd actx env buf, p.Scans simd s := by
  intro s hs
  rcases List.mem_append.mp hs with hs | hs
  · exact scans_parallelScans s hs
  · split at hs
    · cases hs
    · exact scans_passScans s hs

theorem scans_residentPassScans : ∀ s ∈ residentPassScans sp p simd actx env, p.Scans simd s := by
  intro s hs
  rw [residentPassScans] at hs
  dsimp only at hs
  split at hs
  · exact scans_storeRangeScans _ _ s hs
  · cases hs

theorem scans_turboStartScans : ∀ s ∈ turboStartScans sp p env, p.Scans (simdOk p env.simdOffAlloc) s := by
  intro s hs
  rw [turboStartScans] at hs
  split at hs
  · exact scans_streamScans s hs
  · rcases List.mem_append.mp hs with hs | hs
    · exact scans_residentPassScans s hs
    · split at hs
      · cases hs
      · exact scans_streamScans s hs

end Turbo

/-- What an accepted START scans. -/
theorem StartRequest.run_scans {req : StartRequest} {r : StartRun} (h : r ∈ req.run) :
    ∃ simd, ∀ s ∈ r.scans, r.pass.Scans simd s := by
  cases req with
  | scanStart mem auth buffersOk sp data maskData raw =>
    obtain ⟨p, -, rfl⟩ := procScanStart_some h
    exact ⟨_, scans_passScans⟩
  | turboStart auth c =>
    obtain ⟨p, -, rfl⟩ := procTurboscanStart_some h
    dsimp only
    split
    · exact ⟨false, fun s hs => by cases hs⟩
    · exact ⟨_, scans_turboStartScans⟩

/-! ## The records of an accepted START -/

/-- The windows that match. -/
def Pass.matching (p : Pass) (scans : List ChunkScan) : List Probe :=
  scans.flatMap fun s => s.probes.filter fun q => p.compare q.window

section Records

variable {p : Pass} {simd : Bool} {mem : Memory} {actx : Option (AliasEngine mem)}

/-- The hits of the scalar loop are the windows that match. -/
theorem passHits_false {scanAddr scanLen : Nat} {buf : Buf} :
    passHits p false actx scanAddr scanLen buf = p.matching (passScans p false actx scanAddr scanLen buf) := by
  rw [passHits, Pass.matching, passScans, List.flatMap_map]
  rfl

/-- Where nothing is compared, nothing matches. -/
theorem matching_eq_nil {scans : List ChunkScan} (h : ∀ s ∈ scans, s.probes = []) : p.matching scans = [] := by
  rw [Pass.matching, List.flatMap_eq_nil_iff]
  intro s hs
  rw [h s hs]
  rfl

/-- Nothing is compared with the finder on. -/
theorem probes_passScans_true {scanAddr scanLen : Nat} {buf : Buf} :
    ∀ s ∈ passScans p true actx scanAddr scanLen buf, s.probes = [] := by
  intro s hs
  obtain ⟨r, -, rfl⟩ := List.mem_map.mp hs
  rfl

theorem probes_storeChunkScans_true {scanAddr cap : Nat} {chunks : List (Nat × Nat)} :
    ∀ (buf : Buf) (stored : Nat), ∀ s ∈ storeChunkScans p true actx scanAddr cap chunks buf stored,
      s.probes = [] := by
  induction chunks with
  | nil => intro buf stored s hs; cases hs
  | cons ch chunks ih =>
    intro buf stored s hs
    rw [storeChunkScans] at hs
    split at hs
    · rcases List.mem_cons.mp hs with rfl | hs
      · rfl
      · exact ih _ _ s hs
    · obtain rfl := List.mem_singleton.mp hs
      rfl

variable {sp : TurboStartPacket} {env : TurboEnv mem}

/-- The workers only run with the finder on. -/
theorem probes_parallelScans : ∀ s ∈ parallelScans sp p simd actx env, s.probes = [] := by
  intro s hs
  rw [parallelScans] at hs
  dsimp only at hs
  split at hs
  · cases hs
  next hguard =>
  have hsimd : simd = true := by
    cases simd with
    | true => rfl
    | false => simp at hguard
  subst hsimd
  split at hs
  · cases hs
  split at hs
  · cases hs
  split at hs
  · cases hs
  obtain ⟨i, -, hs⟩ := List.mem_flatMap.mp hs
  exact probes_storeChunkScans_true _ _ s hs

/-- What a parallel scan streams is whole values, and nothing of a type without a size. -/
theorem parallelStream_records {rs : List ScanRecord} (h : parallelStream sp p simd actx env = some rs) :
    (∀ rec ∈ rs, rec.value.length = p.valueLength) ∧ (sizeOfValueType p.vt = 0 → rs = []) := by
  obtain ⟨rfl, -, -, -, -, hok0, hok1, rfl⟩ := parallelStream_some rfl h
  rw [records_fsParThread _ _ _ _ _ _ hok0, records_fsParThread _ _ _ _ _ _ hok1]
  constructor
  · intro rec hrec
    rcases List.mem_append.mp hrec with hrec | hrec
    · exact length_value_of_passHits rec hrec
    · exact length_value_of_passHits rec hrec
  · intro hvt
    rw [passHits_unsized hvt, passHits_unsized hvt]
    rfl

/-- The streaming pass, parallel or not. -/
def streamRecords (sp : TurboStartPacket) (p : Pass) (simd : Bool) (actx : Option (AliasEngine mem))
    (env : TurboEnv mem) (buf : Buf) : List ScanRecord :=
  (parallelStream sp p simd actx env).getD
    ((passHits p simd actx sp.address.toNat sp.length.toNat buf).map
      (wireRecord sp.address.toNat sp.address.toNat))

theorem length_value_of_mem_streamRecords {buf : Buf} :
    ∀ rec ∈ streamRecords sp p simd actx env buf, rec.value.length = p.valueLength := by
  rw [streamRecords]
  cases hpar : parallelStream sp p simd actx env with
  | none => exact length_value_of_passHits
  | some rs => exact (parallelStream_records hpar).1

/-- Without a size, what is streamed is what matches. -/
theorem length_streamRecords (hvt : sizeOfValueType p.vt = 0) {buf : Buf} :
    (streamRecords sp p simd actx env buf).length = (p.matching (streamScans sp p simd actx env buf)).length := by
  rw [streamScans, Pass.matching, List.flatMap_append]
  change _ = (p.matching _ ++ p.matching _).length
  rw [matching_eq_nil probes_parallelScans, List.nil_append, streamRecords]
  cases hpar : parallelStream sp p simd actx env with
  | some rs =>
    rw [Option.getD_some, (parallelStream_records hpar).2 hvt]
    rfl
  | none =>
    rw [Option.getD_none, List.length_map]
    change _ = (p.matching (passScans p simd actx sp.address.toNat sp.length.toNat buf)).length
    cases simd with
    | false => rw [passHits_false]
    | true => rw [passHits_unsized hvt, matching_eq_nil probes_passScans_true]

end Records

/-- What a turbo START streams: nothing, or the records of a streaming pass; with long values there is no
resident pass before it. -/
theorem turboStartRecords_cases {mem : Memory} (sp : TurboStartPacket) (p : Pass) (env : TurboEnv mem) :
    turboStartRecords sp p env = [] ∧ (0x1000 < p.valueLength → turboStartScans sp p env = []) ∨
    ∃ simd actx buf, turboStartRecords sp p env = streamRecords sp p simd actx env buf ∧
      (0x1000 < p.valueLength → turboStartScans sp p env = streamScans sp p simd actx env buf) := by
  rw [turboStartRecords, turboStartScans]
  dsimp only
  cases hres : residentPass sp p (simdOk p env.simdOffAlloc)
      (if hasFlag sp.flags TS_USE_ALIASING then env.aliasCtx else none) env with
  | none => exact .inr ⟨_, _, _, rfl, fun _ => rfl⟩
  | some res =>
    obtain ⟨stored, recs, buf⟩ := res
    dsimp only
    have hlong : 0x1000 < p.valueLength → residentPassScans sp p (simdOk p env.simdOffAlloc)
        (if hasFlag sp.flags TS_USE_ALIASING then env.aliasCtx else none) env = [] :=
      fun h => if_neg fun hall => Nat.not_le.mpr h hall.1
    by_cases hnone : (stored || hasFlag sp.flags TS_SNAPSHOT_SEGMENTS) = true
    · refine .inl ⟨if_pos hnone, fun h => ?_⟩
      rw [hlong h, if_pos hnone]
      rfl
    · refine .inr ⟨_, _, buf, if_neg hnone, fun h => ?_⟩
      rw [hlong h, if_neg hnone]
      rfl

/-- A record is a whole value. -/
theorem StartRequest.run_records {req : StartRequest} {r : StartRun} (h : r ∈ req.run) :
    ∀ rec ∈ r.records, rec.value.length = r.pass.valueLength := by
  cases req with
  | scanStart mem auth buffersOk sp data maskData raw =>
    obtain ⟨p, -, rfl⟩ := procScanStart_some h
    exact length_value_of_passHits
  | turboStart auth c =>
    obtain ⟨p, -, rfl⟩ := procTurboscanStart_some h
    dsimp only
    split
    · exact fun rec hrec => by cases hrec
    · obtain ⟨hnil, -⟩ | ⟨simd, actx, buf, hrecs, -⟩ := turboStartRecords_cases c.sp p c.env.turbo
      · rw [hnil]
        exact fun rec hrec => by cases hrec
      · rw [hrecs]
        exact length_value_of_mem_streamRecords

/-- With long values there is a record for each window that matches. -/
theorem StartRequest.run_matching {req : StartRequest} {r : StartRun} (h : r ∈ req.run)
    (hlong : 0x1000 < r.pass.valueLength) : r.records.length = (r.pass.matching r.scans).length := by
  have hvt : sizeOfValueType r.pass.vt = 0 := by
    by_contra hsize
    have hlen := (run_prepared h).length_eq
    rw [Ps5Debugger.valueLength, if_neg hsize] at hlen
    have hle : sizeOfValueType r.pass.vt ≤ 8 := by cases r.pass.vt <;> decide
    omega
  cases req with
  | scanStart mem auth buffersOk sp data maskData raw =>
    obtain ⟨p, -, rfl⟩ := procScanStart_some h
    change (List.map _ _).length = _
    rw [List.length_map, passHits_false]
  | turboStart auth c =>
    obtain ⟨p, -, rfl⟩ := procTurboscanStart_some h
    dsimp only at hlong hvt ⊢
    split
    · rfl
    · obtain ⟨hnil, hscans⟩ | ⟨simd, actx, buf, hrecs, hscans⟩ := turboStartRecords_cases c.sp p c.env.turbo
      · rw [hnil, hscans hlong]
        rfl
      · rw [hrecs, hscans hlong]
        exact length_streamRecords hvt

end Ps5Debugger

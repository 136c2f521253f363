import Ps5Debugger.FirstScanReal

/-!
# When the first scans are exact

The two properties one wants of a first scan, each with the exact condition on the request
under which it holds for every target memory and every content of the heap:

* `start_reports_real_iff` — every streamed record is a real hit inside the region;
* `start_compares_grid_iff` — the comparisons inside the region are the one global grid.

The conditions are arithmetic on the region length, the step, the value length and the
chunk size; both fail on requests a client can send.
-/

namespace Ps5Debugger

open Lib

/-! ## Which comparisons can report at all -/

/-- The compare and value types under which a first scan can report a position: there is
no previous value yet, and a type without a size has an exact comparison only. -/
def firstScanReports (ct : CmpType) (vt : ValType) : Bool :=
  match ct with
  | .exactValue => true
  | .biggerThan | .smallerThan | .valueBetween | .unknownInitialValue
  | .unknownInitialLowValue => vt.isInteger
  | _ => false

section Reports

variable (req : FirstScanReq) (data maskData : List Byte)

theorem pass_compare (w : List Byte) : (req.pass data maskData).compare w =
    compareValues req.ct req.vt req.g.v (if req.ct.needsValue then data else []) w
      (if req.ct = .valueBetween then some (data.drop req.g.v) else none)
      (if req.vt = .arrBytes then some maskData else none) := by
  rw [Pass.compare]
  congr 1
  cases h : req.ct <;> simp [FirstScanReq.pass, h, CmpType.needsValue]

/-- A pass that cannot report accepts no window. -/
theorem compare_of_not_reports (h : firstScanReports req.ct req.vt = false) (w : List Byte) :
    (req.pass data maskData).compare w = false := by
  rw [pass_compare]
  rcases req.isInteger_or_unsized with hvt | hvt
  · cases hct : req.ct <;> simp_all [firstScanReports, compareValues]
    cases hv : req.vt <;> simp_all [ValType.isInteger, compareFuzzy]
  · cases hv : req.vt <;> simp_all [sizeOfValueType] <;> cases hct : req.ct <;>
      simp_all [firstScanReports, compareValues, compareFuzzy, perValTypeBin, compareBetween,
        compareUnknownInitial, compareUnknownInitialLow]

/-- Equal bytes compare equal, masked or not. -/
theorem compareExact_zero {vt : ValType} (hvt : vt.isFloat = false) (n : Nat)
    (mask : Option (List Byte)) : compareExact vt n [] (List.replicate n 0) mask = true := by
  have hz : ∀ j, ([] : List Byte).getD j 0 = (List.replicate n (0 : Byte)).getD j 0 := by
    intro j
    by_cases hj : j < n
    · simp [List.getD, hj]
    · simp [List.getD, hj]
  cases vt <;> simp_all [compareExact, bytesEqual, maskedEqual, ValType.isFloat]

end Reports

/-- An integer type has values of at most eight bytes. -/
theorem v_le_of_integer (req : FirstScanReq) (hvt : req.vt.isInteger = true) : req.g.v ≤ 8 := by
  have hv := req.v_eq_size
  cases h : req.vt <;> simp_all [ValType.isInteger, sizeOfValueType]

/-- A pass that can report accepts a window of equal bytes, for some scan data: of zeros for
an exact comparison, and the others have short values. -/
theorem exists_compare_const (req : FirstScanReq) (maskData : List Byte)
    (h : firstScanReports req.ct req.vt = true) :
    ∃ (b : Byte) (data : List Byte), (b = 0 ∨ req.g.v ≤ 8) ∧
      (req.pass data maskData).compare (List.replicate req.g.v b) = true := by
  have hv := req.v_eq_size
  have hf : req.vt.isFloat = false := req.notFloat
  cases hct : req.ct with
  | exactValue =>
    refine ⟨0, [], .inl rfl, ?_⟩
    rw [pass_compare, hct]
    exact compareExact_zero hf _ _
  | biggerThan =>
    have hshort := v_le_of_integer req (by simpa [firstScanReports, hct] using h)
    refine ⟨1, [], .inr hshort, ?_⟩
    rw [pass_compare, hct]
    cases hvt : req.vt <;> simp_all [firstScanReports, ValType.isInteger, sizeOfValueType] <;> decide
  | smallerThan =>
    have hshort := v_le_of_integer req (by simpa [firstScanReports, hct] using h)
    refine ⟨0, [1], .inr hshort, ?_⟩
    rw [pass_compare, hct]
    cases hvt : req.vt <;> simp_all [firstScanReports, ValType.isInteger, sizeOfValueType] <;> decide
  | valueBetween =>
    have hshort := v_le_of_integer req (by simpa [firstScanReports, hct] using h)
    refine ⟨0, [], .inr hshort, ?_⟩
    rw [pass_compare, hct]
    cases hvt : req.vt <;> simp_all [firstScanReports, ValType.isInteger, sizeOfValueType] <;> decide
  | unknownInitialValue =>
    have hshort := v_le_of_integer req (by simpa [firstScanReports, hct] using h)
    refine ⟨1, [], .inr hshort, ?_⟩
    rw [pass_compare, hct]
    cases hvt : req.vt <;> simp_all [firstScanReports, ValType.isInteger, sizeOfValueType] <;> decide
  | unknownInitialLowValue =>
    have hshort := v_le_of_integer req (by simpa [firstScanReports, hct] using h)
    refine ⟨1, List.replicate 8 1, .inr hshort, ?_⟩
    rw [pass_compare, hct]
    cases hvt : req.vt <;> simp_all [firstScanReports, ValType.isInteger, sizeOfValueType] <;> decide
  | _ => simp [firstScanReports, hct] at h

/-! ## A target of equal bytes

Over a memory of one byte value `m`, every chunk pointer of a pass that copies shows `m`
up to the length of the first chunk, the longest one, and the heap behind it. -/

/-- `m` below `n`, the bytes of `rest` from there on. -/
def prefixed (m : Byte) (n : Nat) (rest : Buf) : Buf := fun i => if i < n then m else rest i

theorem readChunk_none (mem : Memory) (scanAddr : Nat) (ch : Nat × Nat) (buf : Buf) :
    readChunk (none : Option (AliasEngine mem)) scanAddr ch buf =
      (⟨ch.1, ch.2, readInto mem buf (u64 (scanAddr + ch.1)) ch.2⟩,
        readInto mem buf (u64 (scanAddr + ch.1)) ch.2) := rfl

/-- Reading no more than the prefix again changes nothing. -/
theorem readInto_prefixed {m : Byte} {n len : Nat} (rest : Buf) (addr : Nat) (hlen : len ≤ n) :
    readInto (fun _ => m) (prefixed m n rest) addr len = prefixed m n rest := by
  funext i
  rcases Nat.lt_or_ge i len with hlt | hge
  · rw [readInto_of_lt hlt, readMem, prefixed, if_pos (by omega)]
  · rw [readInto_of_le hge]

theorem readInto_const (m : Byte) (n : Nat) (rest : Buf) (addr : Nat) :
    readInto (fun _ => m) rest addr n = prefixed m n rest := by
  funext i
  rcases Nat.lt_or_ge i n with hlt | hge
  · rw [readInto_of_lt hlt, readMem, prefixed, if_pos hlt]
  · rw [readInto_of_le hge, prefixed, if_neg (by omega)]

theorem chunkReads_prefixed {m : Byte} {n scanAddr : Nat} (rest : Buf) (chunks : List (Nat × Nat))
    (hlen : ∀ ch ∈ chunks, ch.2 ≤ n) :
    ∀ r ∈ chunkReads (none : Option (AliasEngine fun _ => m)) scanAddr chunks (prefixed m n rest),
      r.src = prefixed m n rest := by
  induction chunks with
  | nil => intro r hr; simp [chunkReads] at hr
  | cons ch chunks ih =>
    intro r hr
    rw [chunkReads, readChunk_none, readInto_prefixed rest _ (hlen ch (List.mem_cons_self ..))] at hr
    rcases List.mem_cons.mp hr with rfl | hr
    · rfl
    · exact ih (fun ch' hch' => hlen ch' (List.mem_cons_of_mem _ hch')) r hr

/-- The first chunk of a region that is not empty. -/
theorem regionChunks_eq_cons (req : FirstScanReq) (hL : req.L ≠ 0) :
    ∃ rest, regionChunks req.g.c req.g.v req.g.step req.L = (0, min req.L req.g.c) :: rest := by
  have hfirst : (if req.L > req.g.c then req.g.c else req.L) = min req.L req.g.c := by
    split <;> omega
  rw [regionChunks, req.g.scanChunks_fuel req.L (req.L + 1) 0 req.L (by omega) (by omega), scanChunks,
    if_neg hL]
  simp only [hfirst]
  exact ⟨_, rfl⟩

/-- What every chunk of a pass over a constant memory shows. -/
theorem passReads_prefixed (req : FirstScanReq) {m : Byte} (scanAddr : Nat) (raw : Buf) :
    ∀ r ∈ chunkReads (none : Option (AliasEngine fun _ => m)) scanAddr
        (regionChunks req.g.c req.g.v req.g.step req.L) raw,
      r.src = prefixed m (min req.L req.g.c) raw := by
  intro r hr
  by_cases hL : req.L = 0
  · simp [hL, regionChunks, scanChunks, chunkReads] at hr
  · obtain ⟨rest, hcons⟩ := regionChunks_eq_cons req hL
    have hlen : ∀ ch ∈ rest, ch.2 ≤ min req.L req.g.c := by
      intro ch hch
      have hmem : ch ∈ regionChunks req.g.c req.g.v req.g.step req.L := by
        rw [hcons]
        exact List.mem_cons_of_mem _ hch
      obtain ⟨hend, hc⟩ := regionChunks_le req hmem
      omega
    rw [hcons, chunkReads, readChunk_none, readInto_const] at hr
    rcases List.mem_cons.mp hr with rfl | hr
    · rfl
    · exact chunkReads_prefixed raw rest hlen r hr

/-- A heap of equal bytes shows them wherever `net_alloc_buffer` does not clear. -/
theorem slice_prefixed_const {b : Byte} {n v size : Nat} (hn : 0 < n)
    (hclear : b = 0 ∨ (v ≤ 0x1000 ∧ v < size)) :
    slice (prefixed b n (netAllocBuffer (fun _ => b) size)) 0 v = List.replicate v b := by
  apply List.ext_getElem?
  intro i
  rw [getElem?_slice, List.getElem?_replicate, Nat.zero_add]
  by_cases hi : i < v
  · rw [if_pos hi, if_pos hi, prefixed]
    split
    · rfl
    · rw [netAllocBuffer]
      split
      · rcases hclear with rfl | hv
        · rfl
        · omega
      · rfl
  · rw [if_neg hi, if_neg hi]

/-! ## Real hits only -/

/-- Every record the command streams is a real hit, and every hit of a pass that streams
lies in the bytes its chunk read — for all scan data, target memories, heaps and alias
outcomes. The passes are the command's own over the region, and those of the worker threads,
which run over spans of it with the exact finder only. -/
def ReportsReal (cmd : StartCmd) (req : FirstScanReq) (simdOffAlloc : Bool) : Prop :=
  ∀ (data maskData : List Byte) (mem : Memory) (env : TurboEnv mem),
    env.simdOffAlloc = simdOffAlloc →
    (∀ rec ∈ cmd.records req (req.pass data maskData) env,
      RealRecord mem req (req.pass data maskData) rec) ∧
    (cmd.neverStreams = false →
      ∀ (actx : Option (AliasEngine mem)) (scanAddr n : Nat) (buf : Buf),
        (scanAddr = req.a ∧ n = req.L) ∨
          cmd.usesSimd (req.pass data maskData) simdOffAlloc = true →
        ∀ r ∈ chunkReads actx scanAddr (regionChunks req.g.c req.g.v req.g.step n) buf,
          ∀ q ∈ chunkHits (req.pass data maskData)
            (cmd.usesSimd (req.pass data maskData) simdOffAlloc) r,
            q.off + req.g.v ≤ r.off + r.len)

/-- Whether the request is searched by the exact finder. -/
def searchesExact (cmd : StartCmd) (req : FirstScanReq) (simdOffAlloc : Bool) : Bool :=
  cmd.usesSimd (req.pass [] []) simdOffAlloc

theorem usesSimd_pass (cmd : StartCmd) (req : FirstScanReq) (data maskData : List Byte)
    (alloc : Bool) :
    cmd.usesSimd (req.pass data maskData) alloc = searchesExact cmd req alloc := by
  cases cmd with
  | scanStart => rfl
  | turboStart flags _ =>
    rw [searchesExact, StartCmd.usesSimd, StartCmd.usesSimd, Bool.eq_iff_iff, simdOk_pass,
      simdOk_pass]

theorem usesSimd_ok (cmd : StartCmd) (req : FirstScanReq) (data maskData : List Byte) {alloc : Bool}
    (h : cmd.usesSimd (req.pass data maskData) alloc = true) :
    ∃ alloc, simdOk (req.pass data maskData) alloc = true := by
  cases cmd with
  | scanStart => cases h
  | turboStart flags _ => exact ⟨alloc, h⟩

/-- What a resident or worker pass stores are hits of its chunk reads. -/
theorem storeChunks_mem {mem : Memory} (p : Pass) (simd : Bool) (actx : Option (AliasEngine mem))
    (scanAddr cap : Nat) (chunks : List (Nat × Nat)) : ∀ (buf : Buf) (recs : List Stored),
    ∀ s ∈ (storeChunks p simd actx scanAddr cap chunks buf recs).2.1, s ∈ recs ∨
      ∃ r ∈ chunkReads actx scanAddr chunks buf, ∃ q ∈ chunkHits p simd r,
        s = ⟨u64 (scanAddr + q.off), q.window⟩ := by
  induction chunks with
  | nil => intro buf recs s hs; exact .inl hs
  | cons ch chunks ih =>
    intro buf recs s hs
    rw [storeChunks] at hs
    -- a hit of this chunk, stored now
    have hnow : ∀ s ∈ (chunkHits p simd (readChunk actx scanAddr ch buf).1).map
        (fun q => (⟨u64 (scanAddr + q.off), q.window⟩ : Stored)),
        ∃ r ∈ chunkReads actx scanAddr (ch :: chunks) buf, ∃ q ∈ chunkHits p simd r,
          s = ⟨u64 (scanAddr + q.off), q.window⟩ := by
      intro s hs
      obtain ⟨q, hq, rfl⟩ := List.mem_map.mp hs
      exact ⟨_, List.mem_cons_self .., q, hq, rfl⟩
    split at hs
    · rcases ih _ _ s hs with hmem | ⟨r, hr, hq⟩
      · exact (List.mem_append.mp hmem).imp_right (hnow s)
      · exact .inr ⟨r, List.mem_cons_of_mem _ hr, hq⟩
    · rcases List.mem_append.mp hs with hmem | hmem
      · exact .inl hmem
      · exact .inr (hnow s (List.mem_of_mem_take hmem))

section Real

variable (req : FirstScanReq) (data maskData : List Byte)

/-- A chunk has only real hits: no chunk is short, or the exact finder looks at it, or the
comparison accepts nothing. -/
theorem readHits_real {mem : Memory} {actx : Option (AliasEngine mem)} {simd : Bool}
    {scanAddr n : Nat} {buf : Buf}
    (hsimd : simd = true → ∃ alloc, simdOk (req.pass data maskData) alloc = true)
    (h : firstScanReports req.ct req.vt = false ∨ simd = true ∨ req.g.NoShort n 0 n)
    {r : ChunkRead} (hr : r ∈ chunkReads actx scanAddr (regionChunks req.g.c req.g.v req.g.step n) buf)
    {q : Probe} (hq : q ∈ chunkHits (req.pass data maskData) simd r) :
    SoundHit mem (req.pass data maskData) scanAddr (r.off + r.len) q ∧
      SoundHit mem (req.pass data maskData) scanAddr n q := by
  rcases h with hrep | hlen
  · cases simd with
    | false =>
      obtain ⟨-, hacc⟩ := List.mem_filter.mp hq
      rw [compare_of_not_reports req data maskData hrep] at hacc
      cases hacc
    | true => exact readHits_sound req data maskData hsimd (.inl rfl) hr hq
  · exact readHits_sound req data maskData hsimd hlen hr hq

/-- The records of a pass over the request's own range. -/
theorem passRecords_real {mem : Memory} {actx : Option (AliasEngine mem)} {simd : Bool} {buf : Buf}
    (hsimd : simd = true → ∃ alloc, simdOk (req.pass data maskData) alloc = true)
    (h : firstScanReports req.ct req.vt = false ∨ simd = true ∨ req.g.NoShort req.L 0 req.L) :
    ∀ rec ∈ (passHits (req.pass data maskData) simd actx req.a req.L buf).map
      (wireRecord req.a req.a), RealRecord mem req (req.pass data maskData) rec := by
  intro rec hrec
  obtain ⟨q, hq, rfl⟩ := List.mem_map.mp hrec
  obtain ⟨r, hr, hq⟩ := List.mem_flatMap.mp hq
  obtain ⟨-, hsound⟩ := readHits_real req data maskData hsimd h hr hq
  have hzero : u64 (req.a + 0) = req.a := u64_of_lt req.a_lt
  have hshift : SoundHit mem (req.pass data maskData) (u64 (req.a + 0)) req.L q := by
    rwa [hzero]
  have hreal := hshift.real (by omega)
  rwa [hzero] at hreal

/-- The spans of the workers start inside the region. -/
theorem span_start_le {L span i : Nat} (hspan : span ≠ 0) (hi : i < (L + span - 1) / span) :
    i * span ≤ L := by
  have h := (Nat.le_div_iff_mul_le (Nat.pos_of_ne_zero hspan)).mp (Nat.succ_le_of_lt hi)
  rw [Nat.succ_mul] at h
  omega

/-- The records of the worker threads. -/
theorem parallelRecords_real {mem : Memory} {flags : UInt32} {simd : Bool}
    {actx : Option (AliasEngine mem)} {env : TurboEnv mem} {rs : List ScanRecord}
    (hsimd : simd = true → ∃ alloc, simdOk (req.pass data maskData) alloc = true)
    (hrs : parallelStream ⟨req.sp, flags⟩ (req.pass data maskData) simd actx env = some rs) :
    ∀ rec ∈ rs, RealRecord mem req (req.pass data maskData) rec := by
  intro rec hrec
  simp only [parallelStream] at hrs
  split at hrs
  · cases hrs
  next hguard =>
  have hs : simd = true := by
    cases simd with
    | true => rfl
    | false => simp at hguard
  split at hrs
  · cases hrs
  split at hrs
  · cases hrs
  next hspan hnw =>
  split at hrs
  · cases hrs
  split at hrs
  · obtain rfl := Option.some.inj hrs
    obtain ⟨i, hi, hmem⟩ := List.mem_flatMap.mp hrec
    obtain ⟨s, hstored, rfl⟩ := List.mem_map.mp hmem
    obtain hnil | ⟨r, hr, q, hq, rfl⟩ := storeChunks_mem _ _ _ _ _ _ _ _ s hstored
    · cases hnil
    obtain ⟨-, hsound⟩ := readHits_sound req data maskData hsimd (.inl hs) hr hq
    refine hsound.real ?_
    -- the span of worker `i` ends inside the region
    change i * _ + (if _ then _ else _) ≤ req.sp.length.toNat
    split
    · next hle => exact hle
    · have hstart := span_start_le hspan (List.mem_range.mp hi)
      exact Nat.le_of_eq (Nat.add_sub_of_le hstart)
  · cases hrs

/-- Without short chunks, or through the exact finder, a command reports only real hits. -/
theorem records_real (cmd : StartCmd) {mem : Memory} (env : TurboEnv mem)
    (h : firstScanReports req.ct req.vt = false ∨
      cmd.usesSimd (req.pass data maskData) env.simdOffAlloc = true ∨ req.g.NoShort req.L 0 req.L) :
    ∀ rec ∈ cmd.records req (req.pass data maskData) env,
      RealRecord mem req (req.pass data maskData) rec := by
  cases cmd with
  | scanStart =>
    refine passRecords_real req data maskData (fun hfalse => ?_) h
    cases hfalse
  | turboStart flags hns =>
    -- whichever buffer the streaming pass starts from
    have hstream : ∀ buf : Buf, ∀ rec ∈ (parallelStream ⟨req.sp, flags⟩ (req.pass data maskData)
        (simdOk (req.pass data maskData) env.simdOffAlloc)
        (if hasFlag flags TS_USE_ALIASING then env.aliasCtx else none) env).getD
          ((passHits (req.pass data maskData) (simdOk (req.pass data maskData) env.simdOffAlloc)
            (if hasFlag flags TS_USE_ALIASING then env.aliasCtx else none) req.a req.L buf).map
            (wireRecord req.a req.a)), RealRecord mem req (req.pass data maskData) rec := by
      intro buf rec hrec
      cases hpar : parallelStream ⟨req.sp, flags⟩ (req.pass data maskData)
        (simdOk (req.pass data maskData) env.simdOffAlloc)
        (if hasFlag flags TS_USE_ALIASING then env.aliasCtx else none) env with
      | none =>
        rw [hpar, Option.getD_none] at hrec
        exact passRecords_real req data maskData (fun hs => ⟨_, hs⟩) h rec hrec
      | some rs =>
        rw [hpar, Option.getD_some] at hrec
        exact parallelRecords_real req data maskData (fun h => ⟨_, h⟩) hpar rec hrec
    intro rec hrec
    simp only [StartCmd.records, turboStartRecords] at hrec
    split at hrec
    · exact hstream _ rec hrec
    · split at hrec
      · cases hrec
      · exact hstream _ rec hrec

end Real

/-! ### A short chunk reports the heap -/

/-- Surroundings in which a START copies its chunks and streams what it finds. -/
def copyingEnv (mem : Memory) (raw : Buf) (simdOffAlloc : Bool) : TurboEnv mem where
  raw := raw
  simdOffAlloc := simdOffAlloc
  aliasCtx := none
  segs := none
  sessionAlloc := false
  sessionCap := 0
  workersAlloc := false
  blkAlloc := false
  workerAlias := fun _ => none
  workerRaw := fun _ => raw

theorem records_copyingEnv (cmd : StartCmd) (req : FirstScanReq) (p : Pass) (mem : Memory) (raw : Buf)
    (alloc : Bool) (hns : cmd.neverStreams = false) :
    cmd.records req p (copyingEnv mem raw alloc) =
      (passHits p (cmd.usesSimd p alloc) (none : Option (AliasEngine mem)) req.a req.L
        (netAllocBuffer raw p.chunkSize)).map (wireRecord req.a req.a) := by
  cases cmd with
  | scanStart => rfl
  | turboStart flags hsnap =>
    simp only [StartCmd.neverStreams, Bool.and_eq_false_iff] at hns
    have hactx : (if hasFlag flags TS_USE_ALIASING then (copyingEnv mem raw alloc).aliasCtx else none)
        = none := ite_self none
    have hpar : parallelStream ⟨req.sp, flags⟩ p (simdOk p (copyingEnv mem raw alloc).simdOffAlloc)
        none (copyingEnv mem raw alloc) = none := by simp [parallelStream]
    rw [StartCmd.records, turboStartRecords]
    simp only [hactx, hpar, Option.getD_none]
    cases hres : hasFlag flags TS_SERVER_RESIDENT with
    | false =>
      have hnone : residentPass ⟨req.sp, flags⟩ p (simdOk p (copyingEnv mem raw alloc).simdOffAlloc)
          none (copyingEnv mem raw alloc) = none := by simp [residentPass, hres]
      rw [hnone]
      rfl
    | true =>
      have hseg : hasFlag flags TS_SNAPSHOT_SEGMENTS = false := by simpa [hres] using hns
      have hsome : residentPass ⟨req.sp, flags⟩ p (simdOk p (copyingEnv mem raw alloc).simdOffAlloc)
          none (copyingEnv mem raw alloc) = some (false, [], netAllocBuffer raw p.chunkSize) := by
        simp [residentPass, hres, copyingEnv]
      rw [hsome]
      simp only [hseg, Bool.or_false]
      rfl

theorem records_neverStreams (cmd : StartCmd) (req : FirstScanReq) (p : Pass) {mem : Memory}
    (env : TurboEnv mem) (hns : cmd.neverStreams = true) : cmd.records req p env = [] := by
  cases cmd with
  | scanStart => cases hns
  | turboStart flags hsnap =>
    obtain ⟨hres, hseg⟩ := Bool.and_eq_true_iff.mp hns
    simp only [StartCmd.records, turboStartRecords, hseg, Bool.or_true, if_true]
    split
    · next h =>
      simp only [residentPass, hres, Bool.not_true, Bool.false_eq_true, if_false] at h
      split at h <;> cases h
    · rfl

/-- Over a target and a heap of one byte value that the comparison accepts, every chunk of
the scalar pass reports its first position, however short it is. -/
theorem mem_records_of_chunk (cmd : StartCmd) (req : FirstScanReq) {data maskData : List Byte}
    {alloc : Bool} {b : Byte} {ch : Nat × Nat} (hns : cmd.neverStreams = false)
    (hsimd : cmd.usesSimd (req.pass data maskData) alloc = false) (hb : b = 0 ∨ req.g.v ≤ 8)
    (hcmp : (req.pass data maskData).compare (List.replicate req.g.v b) = true)
    (hch : ch ∈ regionChunks req.g.c req.g.v req.g.step req.L) :
    (⟨ch.1, List.replicate req.g.v b⟩ : ScanRecord) ∈ cmd.records req (req.pass data maskData)
      (copyingEnv (fun _ => b) (fun _ => b) alloc) := by
  obtain ⟨hpos, -, hend, -⟩ := req.g.scanChunks_bounds req.L 0 req.L ch hch
  have hc := req.g.le_c
  have hLlt := req.L_lt
  -- the read of the chunk shows the one byte everywhere
  obtain ⟨r, hr, hrch⟩ : ∃ r ∈ chunkReads (none : Option (AliasEngine fun _ => b)) req.a
      (regionChunks req.g.c req.g.v req.g.step req.L) (netAllocBuffer (fun _ => b) req.g.c),
      (r.off, r.len) = ch := by
    have hmap := chunkReads_map (none : Option (AliasEngine fun _ => b)) req.a
      (regionChunks req.g.c req.g.v req.g.step req.L) (netAllocBuffer (fun _ => b) req.g.c)
    rw [← hmap] at hch
    obtain ⟨r, hr, hrch⟩ := List.mem_map.mp hch
    exact ⟨r, hr, hrch⟩
  have hwin : slice r.src 0 req.g.v = List.replicate req.g.v b := by
    rw [passReads_prefixed req req.a _ r hr]
    refine slice_prefixed_const (by omega) (hb.imp_right fun hv => ?_)
    omega
  rw [records_copyingEnv cmd req _ _ _ alloc hns, hsimd]
  refine List.mem_map.mpr ⟨⟨r.off + 0, slice r.src 0 req.g.v⟩, ?_, ?_⟩
  · refine List.mem_flatMap.mpr ⟨r, hr, ?_⟩
    rw [chunkHits, if_neg (by decide)]
    refine List.mem_filter.mpr ⟨List.mem_map.mpr ⟨0, zero_mem_strideUpTo _ _, rfl⟩, ?_⟩
    rw [hwin]
    exact hcmp
  · have hoff : ch.1 = r.off := by rw [← hrch]
    have hwire : subU64 (u64 (req.a + r.off)) req.a % 2 ^ 32 = r.off :=
      wire_offset req.a_lt (by omega)
    rw [wireRecord, hwin, Nat.add_zero, hoff, hwire]

/-- **First scans report only real hits — exactly when no chunk is shorter than a value**,
or nothing can be reported, or the exact finder does the search, or nothing is streamed. -/
theorem start_reports_real_iff (cmd : StartCmd) (req : FirstScanReq) (simdOffAlloc : Bool) :
    ReportsReal cmd req simdOffAlloc ↔
      cmd.neverStreams = true ∨ firstScanReports req.ct req.vt = false ∨
        searchesExact cmd req simdOffAlloc = true ∨ req.L = 0 ∨
        (req.g.v ≤ req.g.step ∧ (req.L % req.g.c = 0 ∨ req.g.v ≤ req.L % req.g.c)) := by
  rw [← req.g.noShort_iff]
  constructor
  · intro hreal
    by_contra hcon
    simp only [not_or, Bool.not_eq_true, Bool.not_eq_false] at hcon
    obtain ⟨hns, hrep, hexact, hshort⟩ := hcon
    simp only [Geometry.NoShort, not_forall, Nat.not_le] at hshort
    obtain ⟨ch, hch, hlt⟩ := hshort
    obtain ⟨b, data, hb, hcmp⟩ := exists_compare_const req [] hrep
    have hsimd : cmd.usesSimd (req.pass data []) simdOffAlloc = false := by rw [usesSimd_pass, hexact]
    -- the short chunk ends with the region, so the record at its start runs past it
    have hrec := mem_records_of_chunk cmd req hns hsimd hb hcmp hch
    obtain ⟨hall, -⟩ := hreal data [] _ (copyingEnv (fun _ => b) (fun _ => b) simdOffAlloc) rfl
    have hin : ch.1 + req.g.v ≤ req.L := (hall _ hrec).inRegion
    have hend := (req.g.scanChunks_bounds req.L 0 req.L ch hch).2.2.2 hlt
    omega
  · intro hcond data maskData mem env henv
    subst henv
    rw [← usesSimd_pass cmd req data maskData] at hcond
    rcases hcond with hns | hcond
    · refine ⟨fun rec hrec => ?_, fun h => by simp [hns] at h⟩
      rw [records_neverStreams cmd req _ env hns] at hrec
      cases hrec
    · refine ⟨records_real req data maskData cmd env hcond, ?_⟩
      intro hns actx scanAddr n buf hrange r hr q hq
      have hpass : firstScanReports req.ct req.vt = false ∨
          cmd.usesSimd (req.pass data maskData) env.simdOffAlloc = true ∨ req.g.NoShort n 0 n := by
        rcases hrange with ⟨-, rfl⟩ | hsimd
        · exact hcond
        · exact .inr (.inl hsimd)
      exact (readHits_real req data maskData (usesSimd_ok cmd req data maskData) hpass hr hq).1.inside

/-- Two bytes scanned for a four-byte value. -/
def twoByteReq : FirstScanReq where
  sp := { pid := 1, address := 0x1000, length := 2, valueType := 4, compareType := 0, alignment := 0,
          lenData := 4 }
  ct := .exactValue
  ct_eq := rfl
  lenData_ne := by decide
  v_le := by decide
  notFloat := rfl

/-- The scan of two bytes reports a value whose other two bytes are the heap's. -/
theorem scanStart_reports_heap :
    (⟨0, [7, 7, 9, 9]⟩ : ScanRecord) ∈ StartCmd.scanStart.records twoByteReq
        (twoByteReq.pass [7, 7, 9, 9] []) (copyingEnv (fun _ => 7) (fun _ => 9) true) ∧
      ¬ ReportsReal .scanStart twoByteReq true := by
  have hrec : (⟨0, [7, 7, 9, 9]⟩ : ScanRecord) ∈ StartCmd.scanStart.records twoByteReq
      (twoByteReq.pass [7, 7, 9, 9] []) (copyingEnv (fun _ => 7) (fun _ => 9) true) := by decide
  refine ⟨hrec, fun hreal => ?_⟩
  obtain ⟨hall, -⟩ := hreal [7, 7, 9, 9] [] _ (copyingEnv (fun _ => 7) (fun _ => 9) true) rfl
  have hin : 0 + 4 ≤ 2 := (hall _ hrec).inRegion
  omega

/-! ## One global grid -/

/-- What a command reports: the records it streams, or those it keeps on the server in their
place. -/
def StartCmd.reports (cmd : StartCmd) (req : FirstScanReq) (p : Pass) {mem : Memory}
    (env : TurboEnv mem) : List ScanRecord :=
  match cmd with
  | .scanStart => cmd.records req p env
  | .turboStart flags _ =>
    match residentPass ⟨req.sp, flags⟩ p (cmd.usesSimd p env.simdOffAlloc) (cmd.actx env) env with
    | some (true, recs, _) => recs.map fun s => ⟨subU64 s.addr req.a % 2 ^ 32, s.value⟩
    | _ => cmd.records req p env

/-- The position of a range of memory, as a comparison sees it. -/
def memProbe (mem : Memory) (scanAddr v o : Nat) : Probe := ⟨o, slice (readMem mem scanAddr) o v⟩

/-- The scalar pass over a range of `n` bytes is complete on the global grid, and so is what
the command reports when the range is its region: inside the range, the comparisons are
those of memory at the grid positions, each once and in order, and the hits are those of
them that memory satisfies. -/
def CompletesGrid (cmd : StartCmd) (req : FirstScanReq) (simdOffAlloc : Bool) (n : Nat) : Prop :=
  ∀ (data maskData : List Byte) (mem : Memory),
    (∀ (actx : Option (AliasEngine mem)) (scanAddr : Nat) (buf : Buf),
      (scalarPassProbes (req.pass data maskData) actx scanAddr n buf).filter
          (fun q => req.g.inRegion n q.off) =
        (req.g.grid n).map (memProbe mem scanAddr req.g.v) ∧
      (passHits (req.pass data maskData) false actx scanAddr n buf).filter
          (fun q => req.g.inRegion n q.off) =
        ((req.g.grid n).map (memProbe mem scanAddr req.g.v)).filter
          fun q => (req.pass data maskData).compare q.window) ∧
    (∀ env : TurboEnv mem, env.simdOffAlloc = simdOffAlloc → cmd.neverStreams = false → n = req.L →
      (cmd.reports req (req.pass data maskData) env).filter (fun rec => req.g.inRegion n rec.offset) =
        (((req.g.grid n).map (memProbe mem req.a req.g.v)).filter
          fun q => (req.pass data maskData).compare q.window).map fun q => ⟨q.off, q.window⟩)

section Grid

variable (req : FirstScanReq) (data maskData : List Byte)

/-- The scalar pass compares at the offsets of the chunk walk. -/
theorem scalarPassProbes_off {mem : Memory} (actx : Option (AliasEngine mem)) (scanAddr n : Nat)
    (buf : Buf) : (scalarPassProbes (req.pass data maskData) actx scanAddr n buf).map Probe.off =
      req.g.compared (regionChunks req.g.c req.g.v req.g.step n) := by
  have hmap := chunkReads_map actx scanAddr (regionChunks req.g.c req.g.v req.g.step n) buf
  rw [scalarPassProbes, List.map_flatMap, Geometry.compared]
  conv_rhs => rw [← hmap, List.flatMap_map]
  apply List.flatMap_congr
  intro r _
  rw [scalarProbes, List.map_map]
  rfl

/-- A comparison whose window lies in the range looks at the range's memory: the window of a
short chunk never lies in it. -/
theorem scalarPassProbes_fresh {mem : Memory} {actx : Option (AliasEngine mem)} {scanAddr n : Nat}
    {buf : Buf} {q : Probe} (hq : q ∈ scalarPassProbes (req.pass data maskData) actx scanAddr n buf)
    (hin : req.g.inRegion n q.off = true) : q = memProbe mem scanAddr req.g.v q.off := by
  obtain ⟨r, hr, hq⟩ := List.mem_flatMap.mp hq
  obtain ⟨hfresh, -, -, hmem⟩ := mem_reads req hr
  obtain ⟨-, -, -, hshort⟩ := req.g.scanChunks_bounds n 0 n _ hmem
  obtain ⟨j, hj, rfl⟩ := List.mem_map.mp hq
  simp only [Geometry.inRegion, decide_eq_true_eq] at hin
  have hlong : req.g.v ≤ r.len := by
    by_contra hlt
    have := hshort (by omega)
    omega
  rw [req.pass_valueLength, if_pos (show r.len ≥ req.g.v from hlong), req.pass_step] at hj
  have hjle := ((mem_strideUpTo req.g.step_pos).mp hj).2
  rw [memProbe, req.pass_valueLength, slice_fresh hfresh (by omega)]

/-- On one grid, the comparisons in the range are those of its memory at the grid. -/
theorem scalarPassProbes_grid {mem : Memory} (actx : Option (AliasEngine mem)) (scanAddr : Nat)
    {n : Nat} (buf : Buf) (hgrid : req.g.OneGrid n) :
    (scalarPassProbes (req.pass data maskData) actx scanAddr n buf).filter
        (fun q => req.g.inRegion n q.off) = (req.g.grid n).map (memProbe mem scanAddr req.g.v) := by
  rw [← (req.g.filter_compared_iff n).mpr hgrid]
  have hoff := scalarPassProbes_off req data maskData actx scanAddr n buf
  rw [regionChunks] at hoff
  rw [← hoff, List.filter_map, List.map_map]
  conv_lhs => rw [← List.map_id ((scalarPassProbes _ _ _ _ _).filter _)]
  apply List.map_congr_left
  intro q hq
  obtain ⟨hmem, hin⟩ := List.mem_filter.mp hq
  exact scalarPassProbes_fresh req data maskData hmem hin

/-- The hits of the scalar pass are its comparisons that succeed. -/
theorem passHits_scalar {mem : Memory} (p : Pass) (actx : Option (AliasEngine mem))
    (scanAddr n : Nat) (buf : Buf) : passHits p false actx scanAddr n buf =
      (scalarPassProbes p actx scanAddr n buf).filter fun q => p.compare q.window := by
  rw [passHits, scalarPassProbes, List.filter_flatMap]
  rfl

theorem passHits_grid {mem : Memory} (actx : Option (AliasEngine mem)) (scanAddr : Nat)
    {n : Nat} (buf : Buf) (hgrid : req.g.OneGrid n) :
    (passHits (req.pass data maskData) false actx scanAddr n buf).filter
        (fun q => req.g.inRegion n q.off) =
      ((req.g.grid n).map (memProbe mem scanAddr req.g.v)).filter
        fun q => (req.pass data maskData).compare q.window := by
  rw [passHits_scalar, List.filter_comm, scalarPassProbes_grid req data maskData actx scanAddr buf hgrid]

/-- The offsets of the hits fit the wire. -/
theorem wireRecord_passHits {mem : Memory} {actx : Option (AliasEngine mem)} {buf : Buf} {q : Probe}
    (hq : q ∈ passHits (req.pass data maskData) false actx req.a req.L buf) :
    wireRecord req.a req.a q = ⟨q.off, q.window⟩ := by
  rw [passHits_scalar] at hq
  obtain ⟨hq, -⟩ := List.mem_filter.mp hq
  obtain ⟨r, hr, hq⟩ := List.mem_flatMap.mp hq
  obtain ⟨-, hend, -, hmem⟩ := mem_reads req hr
  obtain ⟨hpos, -, -, -⟩ := req.g.scanChunks_bounds req.L 0 req.L _ hmem
  obtain ⟨j, hj, rfl⟩ := List.mem_map.mp hq
  have hjle : j ≤ req.g.limit r.len := ((mem_strideUpTo req.g.step_pos).mp hj).2
  have hjlt : j < r.len := by
    have hv := req.g.v_pos
    rw [Geometry.limit] at hjle
    split at hjle <;> omega
  have hL := req.L_lt
  have hwire : subU64 (u64 (req.a + (r.off + j))) req.a % 2 ^ 32 = r.off + j :=
    wire_offset req.a_lt (by omega)
  rw [wireRecord, hwire]

/-- A resident pass that fits keeps every hit. -/
theorem storeChunks_all {mem : Memory} (p : Pass) (simd : Bool) (actx : Option (AliasEngine mem))
    (scanAddr cap : Nat) (chunks : List (Nat × Nat)) : ∀ (buf : Buf) (recs : List Stored),
    (storeChunks p simd actx scanAddr cap chunks buf recs).1 = true →
    (storeChunks p simd actx scanAddr cap chunks buf recs).2.1 =
      recs ++ ((chunkReads actx scanAddr chunks buf).flatMap (chunkHits p simd)).map
        fun q => ⟨u64 (scanAddr + q.off), q.window⟩ := by
  induction chunks with
  | nil => intro buf recs _; simp [storeChunks, chunkReads]
  | cons ch chunks ih =>
    intro buf recs hok
    rw [storeChunks] at hok ⊢
    split at hok
    · next hroom =>
      rw [if_pos hroom, ih _ _ hok, chunkReads, List.flatMap_cons, List.map_append, List.append_assoc]
    · cases hok

theorem storeRanges_single {mem : Memory} (p : Pass) (simd : Bool) (actx : Option (AliasEngine mem))
    (cap a n : Nat) (buf : Buf) (recs : List Stored) :
    storeRanges p simd actx cap [(a, n)] buf recs =
      storeChunks p simd actx a cap (regionChunks p.chunkSize p.valueLength p.step n) buf recs := by
  rw [storeRanges, storeRanges]
  split
  · next hok => rw [← hok]
  · rfl

/-- A resident scan of a single range stores every hit, or declines. -/
theorem residentPass_single {mem : Memory} {flags : UInt32} (actx : Option (AliasEngine mem))
    (env : TurboEnv mem) (hres : hasFlag flags TS_SERVER_RESIDENT = true)
    (hseg : hasFlag flags TS_SNAPSHOT_SEGMENTS = false) :
    (∃ buf, ∃ recs, residentPass ⟨req.sp, flags⟩ (req.pass data maskData) false actx env =
      some (false, recs, buf)) ∨
    ∃ recs buf, residentPass ⟨req.sp, flags⟩ (req.pass data maskData) false actx env =
        some (true, recs, buf) ∧
      recs = (passHits (req.pass data maskData) false actx req.a req.L
        (netAllocBuffer env.raw req.g.c)).map fun q => ⟨u64 (req.a + q.off), q.window⟩ := by
  simp only [residentPass, hres, hseg, Bool.not_true, Bool.false_eq_true, if_false]
  split
  · have hall := storeChunks_all (req.pass data maskData) false actx req.sp.address.toNat
      env.sessionCap (regionChunks req.g.c req.g.v req.g.step req.sp.length.toNat)
      (netAllocBuffer env.raw req.g.c) []
    rcases hs : storeChunks (req.pass data maskData) false actx req.sp.address.toNat
      env.sessionCap (regionChunks req.g.c req.g.v req.g.step req.sp.length.toNat)
      (netAllocBuffer env.raw req.g.c) [] with ⟨ok, recs, buf⟩
    rw [hs] at hall
    simp only [storeRanges_single, FirstScanReq.pass_chunkSize, FirstScanReq.pass_valueLength,
      FirstScanReq.pass_step, hs]
    cases ok with
    | true => exact .inr ⟨recs, buf, rfl, hall rfl⟩
    | false => exact .inl ⟨buf, recs, rfl⟩
  · exact .inl ⟨_, _, rfl⟩

/-- What a command with a scalar pass reports are the hits of one pass over its region. -/
theorem reports_eq_passHits (cmd : StartCmd) {mem : Memory} (env : TurboEnv mem)
    (hscalar : cmd.usesSimd (req.pass data maskData) env.simdOffAlloc = false)
    (hns : cmd.neverStreams = false) :
    ∃ buf : Buf, cmd.reports req (req.pass data maskData) env =
      (passHits (req.pass data maskData) false (cmd.actx env) req.a req.L buf).map
        (wireRecord req.a req.a) := by
  cases cmd with
  | scanStart => exact ⟨_, rfl⟩
  | turboStart flags hsnap =>
    have hsimd : simdOk (req.pass data maskData) env.simdOffAlloc = false := hscalar
    have hstream : ∀ actx, parallelStream ⟨req.sp, flags⟩ (req.pass data maskData) false actx env
        = none := fun actx => by simp [parallelStream]
    simp only [StartCmd.neverStreams, Bool.and_eq_false_iff] at hns
    simp only [StartCmd.reports, StartCmd.records, turboStartRecords, StartCmd.usesSimd, hsimd,
      hstream, Option.getD_none]
    simp only [StartCmd.actx]
    cases hres : hasFlag flags TS_SERVER_RESIDENT with
    | false =>
      have hnone : ∀ actx, residentPass ⟨req.sp, flags⟩ (req.pass data maskData) false actx env
          = none := fun actx => by simp [residentPass, hres]
      rw [hnone]
      exact ⟨_, rfl⟩
    | true =>
      have hseg : hasFlag flags TS_SNAPSHOT_SEGMENTS = false := by simpa [hres] using hns
      obtain ⟨buf, recs, hfail⟩ | ⟨recs, buf, hstored, hrecs⟩ :=
        residentPass_single req data maskData (if hasFlag flags TS_USE_ALIASING then env.aliasCtx else none)
          env hres hseg
      · rw [hfail]
        simp only [hseg, Bool.or_false]
        exact ⟨buf, rfl⟩
      · rw [hstored]
        refine ⟨netAllocBuffer env.raw req.g.c, ?_⟩
        simp only [hrecs, List.map_map]
        rfl

end Grid

/-- A complete pass has compared on one grid. -/
theorem oneGrid_of_completes {cmd : StartCmd} {req : FirstScanReq} {simdOffAlloc : Bool} {n : Nat}
    (h : CompletesGrid cmd req simdOffAlloc n) : req.g.OneGrid n := by
  obtain ⟨hpass, -⟩ := h [] [] (fun _ => 0)
  obtain ⟨hprobes, -⟩ := hpass none 0 (fun _ => 0)
  rw [← req.g.filter_compared_iff n]
  have hoff := congrArg (List.map Probe.off) hprobes
  have hcompared := scalarPassProbes_off req [] [] (none : Option (AliasEngine fun _ => 0)) 0 n
    (fun _ => 0)
  rw [regionChunks] at hcompared
  have hid : (req.g.grid n).map (Probe.off ∘ memProbe (fun _ => 0) 0 req.g.v) = req.g.grid n :=
    List.map_id _
  rwa [List.map_map, hid, ← Function.comp_def (req.g.inRegion n) Probe.off, ← List.filter_map,
    hcompared] at hoff

/-- **The first scans are complete on the global grid exactly under `OneGrid`.** -/
theorem start_compares_grid_iff (cmd : StartCmd) (req : FirstScanReq) (simdOffAlloc : Bool)
    (hscalar : searchesExact cmd req simdOffAlloc = false) (n : Nat) :
    CompletesGrid cmd req simdOffAlloc n ↔ req.g.OneGrid n := by
  refine ⟨oneGrid_of_completes, ?_⟩
  intro hgrid data maskData mem
  refine ⟨fun actx scanAddr buf => ⟨?_, ?_⟩, fun env henv hns hn => ?_⟩
  · exact scalarPassProbes_grid req data maskData actx scanAddr buf hgrid
  · exact passHits_grid req data maskData actx scanAddr buf hgrid
  · subst hn henv
    have hsimd : cmd.usesSimd (req.pass data maskData) env.simdOffAlloc = false := by
      rw [usesSimd_pass, hscalar]
    obtain ⟨buf, hreports⟩ := reports_eq_passHits req data maskData cmd env hsimd hns
    have hwire : (passHits (req.pass data maskData) false (cmd.actx env) req.a req.L buf).map
        (wireRecord req.a req.a) = (passHits (req.pass data maskData) false (cmd.actx env) req.a
          req.L buf).map fun q => ⟨q.off, q.window⟩ :=
      List.map_congr_left fun q hq => wireRecord_passHits req data maskData hq
    rw [hreports, hwire, List.filter_map, ← passHits_grid req data maskData (cmd.actx env) req.a buf
      hgrid]
    rfl

/-- Two bytes are one chunk, and one grid. -/
theorem scanStart_compares_grid_two : CompletesGrid .scanStart twoByteReq true 2 :=
  (start_compares_grid_iff .scanStart twoByteReq true rfl 2).mpr (.inl (by decide))

/-- Two megabytes of four-byte values, every twelve bytes. -/
def everyTwelveReq : FirstScanReq where
  sp := { pid := 1, address := 0x1000, length := 0x200000, valueType := 4, compareType := 0,
          alignment := 12, lenData := 4 }
  ct := .exactValue
  ct_eq := rfl
  lenData_ne := by decide
  v_le := by decide
  notFloat := rfl

/-- The second megabyte is scanned on a grid of its own, four bytes off the first. -/
theorem scanStart_restarts_grid :
    0x100000 % everyTwelveReq.g.step = 4 ∧ ¬ CompletesGrid .scanStart everyTwelveReq true 0x200000 := by
  refine ⟨by decide, fun h => ?_⟩
  have hgrid := oneGrid_of_completes h
  rw [Geometry.OneGrid] at hgrid
  revert hgrid
  decide

end Ps5Debugger

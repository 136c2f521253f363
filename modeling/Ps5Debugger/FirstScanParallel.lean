import Ps5Debugger.FirstScanAgree

/-!
# The parallel stream

`turboscan_parallel_stream` cuts the region of an exact scan into two spans, lets a worker
search each into a buffer of its own, and blocks the buffered records afterwards. It may give
up at any point before that: no alias, no memory, a worker whose buffer overflows. Then
`turboscan_scan_pass` runs as if nothing had happened.

Both paths are here down to their sends. The finder looks at whole elements only, so what it
finds in a range is a function of the memory (`passHits_finder`); the spans are multiples of
the element size, so the two grids join (`Geometry.grid_split`).
-/

namespace Ps5Debugger

open Lib

/-! ## The sends of the two paths -/

/-- `turboscan_scan_pass` without a session: every hit goes to the result buffer as it is
found, and what is left in it at the end is sent. -/
def turboscanScanPass {mem : Memory} (sp : TurboStartPacket) (p : Pass) (simd : Bool)
    (actx : Option (AliasEngine mem)) (readBuf : Buf) : List (List Byte) :=
  let address := sp.address.toNat
  let put (st : ResultBuf) (q : Probe) : ResultBuf :=
    st.put (flushThresh p.valueLength) (wireRecord address address q)
  ((chunkReads actx address
    (regionChunks p.chunkSize p.valueLength p.step sp.length.toNat) readBuf).foldl
      (fun st r => (chunkHits p simd r).foldl put st) ⟨[], []⟩).finish

/-- What the caller reads back from a `fs_par_worker`: `ok`, and the records of its session. -/
structure ParWorker where
  ok : Bool
  recs : List Stored

/-- `fs_par_thread` for worker `i`: the pass over its span, into its own session. -/
def fsParThread {mem : Memory} (sp : TurboStartPacket) (p : Pass) (simd : Bool) (env : TurboEnv mem)
    (span i : Nat) : ParWorker :=
  let sOff := i * span
  let sLen := if sOff + span ≤ sp.length.toNat then span else sp.length.toNat - sOff
  let s := storeChunks p simd (env.workerAlias i) (u64 (sp.address.toNat + sOff)) parResultCap
    (regionChunks p.chunkSize p.valueLength p.step sLen) (env.workerRaw i) []
  ⟨s.1, s.2.1⟩

/-- How the second worker runs: on a thread of its own, which ends before or after the first
worker does, or on the caller after the first, when `scePthreadCreate` fails. -/
inductive SpawnOutcome : Type where
  | threadFirst
  | threadLast
  | notSpawned
  deriving DecidableEq

/-- The order in which the workers come to an end. -/
def SpawnOutcome.order : SpawnOutcome → List Nat
  | .threadFirst => [1, 0]
  | .threadLast => [0, 1]
  | .notSpawned => [0, 1]

/-- The worker array: cleared, then each worker writes its own entry. -/
def runWorkers (thread : Nat → ParWorker) (order : List Nat) : Nat → ParWorker :=
  order.foldl (fun w i => Function.update w i (thread i)) fun _ => ⟨false, []⟩

/-- One buffered record copied into `blk`, which is sent first when it is past `thresh`. -/
def reblock (thresh address : Nat) (st : ResultBuf) (s : Stored) : ResultBuf :=
  let off := subU64 s.addr address % 2 ^ 32
  let st := if st.result.length > thresh then ⟨st.sent ++ [blockBytes st.result], []⟩ else st
  { st with result := st.result ++ (leBytes 4 off ++ s.value) }

/-- `span`: half of the region, rounded up to whole values. The first sum is taken in 32 bits. -/
def parSpan (length v : Nat) : Nat := (u32 (length + 2 - 1) / 2 + v - 1) / v * v

/-- `turboscan_parallel_stream`: whether it handled the request, and the sends it made. -/
def turboscanParallelStream {mem : Memory} (sp : TurboStartPacket) (p : Pass) (simd : Bool)
    (actx : Option (AliasEngine mem)) (env : TurboEnv mem) (spawn : SpawnOutcome) :
    Bool × List (List Byte) :=
  let length := sp.length.toNat
  let v := p.valueLength
  if !hasFlag sp.flags TS_PARALLEL_COMPARE then (false, [])
  else if !simd || actx.isNone then (false, [])
  else if length < v * 2 then (false, [])
  else
    let span := parSpan length v
    if span = 0 then (false, [])
    else
      let nw := (length + span - 1) / span
      if nw ≤ 1 ∨ nw > 2 then (false, [])
      else if !env.workersAlloc || (List.range nw).any fun i => (env.workerAlias i).isNone then
        (false, [])
      else
        let w := runWorkers (fsParThread sp p simd env span) spawn.order
        if (List.range nw).all fun i => (w i).ok then
          if env.blkAlloc then
            (true, ((List.range nw).foldl (fun st i => (w i).recs.foldl
              (reblock (subU64 0x3FFE8 v) sp.address.toNat) st) ⟨[], []⟩).finish)
          else (false, [])
        else (false, [])

/-- The streaming end of a non-snapshot START: the parallel path if it handles the request, the
sequential pass if not, and the sentinel. -/
def turboStartSends {mem : Memory} (sp : TurboStartPacket) (p : Pass) (simd : Bool)
    (actx : Option (AliasEngine mem)) (env : TurboEnv mem) (spawn : SpawnOutcome) (readBuf : Buf) :
    List (List Byte) :=
  let par := turboscanParallelStream sp p simd actx env spawn
  par.2 ++ (if par.1 then [] else turboscanScanPass sp p simd actx readBuf) ++ [sentinel]

/-- `cmd_proc_turboscan_resident_summary`. -/
def residentSummary (residentStored count : Nat) : List Byte := leBytes 4 residentStored ++ leBytes 8 count

/-- Everything a non-snapshot START sends between its second acknowledgement and the closing
one: the stream, or the summary of the resident session and what follows it. -/
def turboStartReply {mem : Memory} (sp : TurboStartPacket) (p : Pass) (env : TurboEnv mem)
    (spawn : SpawnOutcome) : List (List Byte) :=
  let simd := simdOk p env.simdOffAlloc
  let actx := if hasFlag sp.flags TS_USE_ALIASING then env.aliasCtx else none
  match residentPass sp p simd actx env with
  | none => turboStartSends sp p simd actx env spawn (netAllocBuffer env.raw p.chunkSize)
  | some (true, recs, _) => [residentSummary 1 recs.length]
  | some (false, _, readBuf) =>
    residentSummary 0 0 ::
      if hasFlag sp.flags TS_SNAPSHOT_SEGMENTS then [sentinel]
      else turboStartSends sp p simd actx env spawn readBuf

/-! ## Sends and records -/

/-- The sequential pass sends the records of its hits. -/
theorem turboscanScanPass_eq {mem : Memory} (sp : TurboStartPacket) (p : Pass) (simd : Bool)
    (actx : Option (AliasEngine mem)) (readBuf : Buf) :
    turboscanScanPass sp p simd actx readBuf =
      (((passHits p simd actx sp.address.toNat sp.length.toNat readBuf).map
        (wireRecord sp.address.toNat sp.address.toNat)).foldl
          (ResultBuf.put (flushThresh p.valueLength)) ⟨[], []⟩).finish := by
  rw [turboscanScanPass, passHits, List.foldl_map, List.foldl_flatMap]

/-- The second flush rule is the first. -/
theorem reblock_eq_put (thresh address : Nat) (st : ResultBuf) (s : Stored) :
    reblock thresh address st s = st.put thresh ⟨subU64 s.addr address % 2 ^ 32, s.value⟩ := by
  rw [reblock, ResultBuf.put, ScanRecord.bytes]
  split <;> rfl

theorem runWorkers_order (thread : Nat → ParWorker) (spawn : SpawnOutcome) {i : Nat} (hi : i < 2) :
    runWorkers thread spawn.order i = thread i := by
  obtain rfl | rfl : i = 0 ∨ i = 1 := by omega
  · cases spawn <;> simp [runWorkers, SpawnOutcome.order, Function.update]
  · cases spawn <;> simp [runWorkers, SpawnOutcome.order, Function.update]

/-- The records of a worker on the wire. -/
def ParWorker.records (address : Nat) (w : ParWorker) : List ScanRecord :=
  w.recs.map fun s => ⟨subU64 s.addr address % 2 ^ 32, s.value⟩

/-- The record model of the parallel path, by its workers. -/
theorem parallelStream_eq {mem : Memory} (sp : TurboStartPacket) (p : Pass) (simd : Bool)
    (actx : Option (AliasEngine mem)) (env : TurboEnv mem) :
    parallelStream sp p simd actx env =
      if !hasFlag sp.flags TS_PARALLEL_COMPARE || !simd || actx.isNone ||
        sp.length.toNat < p.valueLength * 2 then none
      else
        let span := parSpan sp.length.toNat p.valueLength
        if span = 0 then none
        else
          let nw := (sp.length.toNat + span - 1) / span
          if nw ≤ 1 ∨ nw > 2 then none
          else if !env.workersAlloc || (List.range nw).any fun i => (env.workerAlias i).isNone then none
          else if ((List.range nw).all fun i => (fsParThread sp p simd env span i).ok) && env.blkAlloc then
            some ((List.range nw).flatMap fun i =>
              (fsParThread sp p simd env span i).records sp.address.toNat)
          else none := rfl

/-- Re-blocking the workers' buffers is blocking their records. -/
theorem foldl_reblock (thresh address : Nat) (w w' : Nat → ParWorker) (is : List Nat)
    (hw : ∀ i ∈ is, w i = w' i) : ∀ st : ResultBuf,
      is.foldl (fun st i => (w i).recs.foldl (reblock thresh address) st) st =
        (is.flatMap fun i => (w' i).records address).foldl (ResultBuf.put thresh) st := by
  induction is with
  | nil => intro st; rfl
  | cons i is ih =>
    intro st
    have hrec : (w i).recs.foldl (reblock thresh address) st =
        ((w' i).records address).foldl (ResultBuf.put thresh) st := by
      have hput : reblock thresh address =
          fun st s => st.put thresh ⟨subU64 s.addr address % 2 ^ 32, s.value⟩ := by
        funext st s
        exact reblock_eq_put thresh address st s
      rw [hw i (List.mem_cons_self ..), ParWorker.records, List.foldl_map, hput]
    rw [List.foldl_cons, List.flatMap_cons, List.foldl_append, hrec,
      ih fun j hj => hw j (List.mem_cons_of_mem _ hj)]

/-- The parallel path sends nothing, or the records of `parallelStream` in blocks. -/
theorem turboscanParallelStream_eq {mem : Memory} (sp : TurboStartPacket) (p : Pass) (simd : Bool)
    (actx : Option (AliasEngine mem)) (env : TurboEnv mem) (spawn : SpawnOutcome) :
    turboscanParallelStream sp p simd actx env spawn =
      match parallelStream sp p simd actx env with
      | none => (false, [])
      | some rs => (true, (rs.foldl (ResultBuf.put (flushThresh p.valueLength)) ⟨[], []⟩).finish) := by
  rw [turboscanParallelStream, parallelStream_eq]
  cases hflag : hasFlag sp.flags TS_PARALLEL_COMPARE with
  | false => rfl
  | true =>
    cases hctx : !simd || actx.isNone with
    | true => simp [hctx]
    | false =>
      by_cases hlen : sp.length.toNat < p.valueLength * 2
      · simp [hlen, hctx]
      · simp only [Bool.not_true, Bool.false_eq_true, if_false, hctx, Bool.false_or, hlen,
          decide_false]
        generalize parSpan sp.length.toNat p.valueLength = span
        generalize (sp.length.toNat + span - 1) / span = nw
        split
        · rfl
        split
        · rfl
        split
        · rfl
        next hnw _ =>
        -- at most two workers, and each one's entry is its own result
        have hw : ∀ i ∈ List.range nw, runWorkers (fsParThread sp p simd env span) spawn.order i =
            fsParThread sp p simd env span i := by
          intro i hi
          have hlt := List.mem_range.mp hi
          exact runWorkers_order _ _ (by omega)
        have hall : ((List.range nw).all fun i =>
            (runWorkers (fsParThread sp p simd env span) spawn.order i).ok) =
            (List.range nw).all fun i => (fsParThread sp p simd env span i).ok := by
          rw [Bool.eq_iff_iff, List.all_eq_true, List.all_eq_true]
          exact forall₂_congr fun i hi => by rw [hw i hi]
        rw [hall, foldl_reblock _ _ _ _ _ hw]
        cases ((List.range nw).all fun i => (fsParThread sp p simd env span i).ok) with
        | false => rfl
        | true => cases env.blkAlloc <;> rfl

/-! ## One grid from two spans -/

namespace Geometry

variable (g : Geometry)

/-- A range cut at a multiple of the step: the grid of the front, and the grid of the rest
moved up. -/
theorem grid_split (hstep : g.step = g.v) {L span : Nat} (hd : g.v ∣ span) (hpos : 0 < span)
    (hle : span ≤ L) : g.grid L = g.grid span ++ (g.grid (L - span)).map (span + ·) := by
  have hv := g.v_pos
  have hvspan := Nat.le_of_dvd hpos hd
  have hquot : (span - g.v) / g.v + 1 = span / g.v := by
    rw [← Nat.add_div_right _ hv, Nat.sub_add_cancel hvspan]
  have hmul : span / g.v * g.v = span := Nat.div_mul_cancel hd
  rw [grid, grid, grid, hstep, if_pos (by omega), if_pos hvspan]
  split
  · next hrest =>
    rw [strideUpTo_split hv hquot (by omega), hmul, show L - g.v - span = L - span - g.v by omega]
  · next hrest =>
    -- nothing fits behind the cut, so both loops stop at the same position
    rw [List.map_nil, List.append_nil]
    refine strideUpTo_congr ?_
    have hlow : (span - g.v) / g.v ≤ (L - g.v) / g.v := Nat.div_le_div_right (by omega)
    have hhigh : (L - g.v) / g.v < span / g.v := (Nat.div_lt_iff_lt_mul hv).mpr (by omega)
    omega

/-- On the element grid full chunks join. -/
theorem oneGrid_of_step (hstep : g.step = g.v) (L : Nat) : g.OneGrid L := by
  refine .inr (.inl ?_)
  rw [stride, if_pos (by omega), hstep]
  exact g.dvd_c

end Geometry

/-! ## What the finder finds -/

section Finder

variable (req : FirstScanReq) (data maskData : List Byte)

/-- In a chunk of a range of `n` bytes the finder finds the hits of the scalar loop that lie in
the range. -/
theorem simdHits_inRegion (hct : req.ct = .exactValue) (hvt : req.vt.isInteger = true)
    (hstep : req.g.step = req.g.v) {mem : Memory} {actx : Option (AliasEngine mem)}
    {scanAddr n : Nat} {buf : Buf} {r : ChunkRead}
    (hr : r ∈ chunkReads actx scanAddr (regionChunks req.g.c req.g.v req.g.step n) buf) :
    simdHits (req.pass data maskData) r =
      (chunkHits (req.pass data maskData) false r).filter fun q => req.g.inRegion n q.off := by
  obtain ⟨-, hend, hc, hmem⟩ := mem_reads req hr
  obtain ⟨-, -, -, hlast⟩ := req.g.scanChunks_bounds n 0 n _ hmem
  have hscalar : chunkHits (req.pass data maskData) false r =
      (scalarProbes (req.pass data maskData) r).filter
        fun q => (req.pass data maskData).compare q.window := rfl
  rcases Nat.lt_or_ge r.len req.g.v with hshort | hlong
  · -- the window of a short chunk runs past the range
    rw [simdHits_of_short req data maskData hvt hshort, eq_comm, List.filter_eq_nil_iff]
    intro q hq
    rw [hscalar] at hq
    obtain ⟨j, -, rfl⟩ := List.mem_map.mp (List.mem_filter.mp hq).1
    have hstop := hlast hshort
    simp only [Geometry.inRegion, decide_eq_true_eq]
    omega
  · rw [simdHits_eq_scalar req data maskData hct hvt hstep hlong hc, hscalar, eq_comm,
      List.filter_eq_self]
    intro q hq
    obtain ⟨j, hj, rfl⟩ := List.mem_map.mp (List.mem_filter.mp hq).1
    rw [req.pass_valueLength, if_pos (show r.len ≥ req.g.v from hlong)] at hj
    have hjle := le_of_mem_strideUpTo hj
    simp only [Geometry.inRegion, decide_eq_true_eq]
    omega

/-- **What the finder finds in a range is what memory holds on its grid**, however the bytes
are read. -/
theorem passHits_finder (hct : req.ct = .exactValue) (hvt : req.vt.isInteger = true)
    (hstep : req.g.step = req.g.v) {mem : Memory} (actx : Option (AliasEngine mem))
    (scanAddr n : Nat) (buf : Buf) :
    passHits (req.pass data maskData) true actx scanAddr n buf =
      ((req.g.grid n).map (memProbe mem scanAddr req.g.v)).filter
        fun q => (req.pass data maskData).compare q.window := by
  rw [← passHits_grid req data maskData actx scanAddr buf (req.g.oneGrid_of_step hstep n), passHits,
    passHits, List.filter_flatMap]
  exact List.flatMap_congr fun r hr => simdHits_inRegion req data maskData hct hvt hstep hr

/-- A type without a size is never found. -/
theorem passHits_unsized {p : Pass} (hvt : sizeOfValueType p.vt = 0) {mem : Memory}
    (actx : Option (AliasEngine mem)) (scanAddr n : Nat) (buf : Buf) : passHits p true actx scanAddr n buf = [] := by
  rw [passHits, List.flatMap_eq_nil_iff]
  exact fun r _ => simdHits_of_unsized hvt r

/-- A position of memory, seen from further up. -/
theorem memProbe_shift (mem : Memory) (a span v o : Nat) :
    memProbe mem (u64 (a + span)) v o = ⟨o, (memProbe mem a v (span + o)).window⟩ := by
  rw [memProbe, memProbe, readMem_add, slice_view]

/-- A worker that did not overflow has buffered the hits of its span. -/
theorem records_fsParThread (sp : TurboStartPacket) (p : Pass) (simd : Bool) {mem : Memory}
    (env : TurboEnv mem) (span i : Nat) (hok : (fsParThread sp p simd env span i).ok = true) :
    (fsParThread sp p simd env span i).records sp.address.toNat =
      (passHits p simd (env.workerAlias i) (u64 (sp.address.toNat + i * span))
        (if i * span + span ≤ sp.length.toNat then span else sp.length.toNat - i * span)
        (env.workerRaw i)).map
          (wireRecord sp.address.toNat (u64 (sp.address.toNat + i * span))) := by
  have hall := storeChunks_all p simd (env.workerAlias i) (u64 (sp.address.toNat + i * span))
    parResultCap _ (env.workerRaw i) [] hok
  rw [List.nil_append] at hall
  rw [ParWorker.records, fsParThread, hall, List.map_map]
  rfl

/-- Everything a handled request says: the finder is on, and two workers went through. -/
theorem parallelStream_some {sp : TurboStartPacket} {p : Pass} {simd : Bool} {mem : Memory}
    {actx : Option (AliasEngine mem)} {env : TurboEnv mem} {rs : List ScanRecord} {span : Nat}
    (hspan : span = parSpan sp.length.toNat p.valueLength)
    (h : parallelStream sp p simd actx env = some rs) :
    simd = true ∧ p.valueLength ∣ span ∧ 0 < span ∧ span ≤ sp.length.toNat ∧
      sp.length.toNat ≤ 2 * span ∧ (fsParThread sp p simd env span 0).ok = true ∧
      (fsParThread sp p simd env span 1).ok = true ∧
      rs = (fsParThread sp p simd env span 0).records sp.address.toNat ++
        (fsParThread sp p simd env span 1).records sp.address.toNat := by
  rw [parallelStream_eq] at h
  split at h
  · cases h
  next hguard =>
  simp only [← hspan] at h
  split at h
  · cases h
  split at h
  · cases h
  next hpos hnw =>
  split at h
  · cases h
  split at h
  · next hall =>
    have htwo : (sp.length.toNat + span - 1) / span = 2 := by omega
    obtain ⟨hlow, hhigh⟩ := (Nat.div_eq_iff (Nat.pos_of_ne_zero hpos)).mp htwo
    obtain ⟨hworkers, -⟩ := Bool.and_eq_true_iff.mp hall
    rw [htwo, List.all_eq_true] at hworkers
    rw [htwo] at h
    refine ⟨?_, hspan ▸ Nat.dvd_mul_left _ _, Nat.pos_of_ne_zero hpos, by omega, by omega,
      hworkers 0 (by decide), hworkers 1 (by decide), ?_⟩
    · cases simd with
      | true => rfl
      | false => simp at hguard
    · rw [← Option.some.inj h]
      simp [List.range_succ]
  · cases h

/-- **The records of the workers are those of one pass over the region.** -/
theorem parallelRecords_eq {flags : UInt32} {simd : Bool} {mem : Memory}
    {actx : Option (AliasEngine mem)} {env : TurboEnv mem} {rs : List ScanRecord}
    (hsimd : simd = true → ∃ alloc, simdOk (req.pass data maskData) alloc = true)
    (hrs : parallelStream ⟨req.sp, flags⟩ (req.pass data maskData) simd actx env = some rs)
    (actx' : Option (AliasEngine mem)) (buf : Buf) :
    rs = (passHits (req.pass data maskData) simd actx' req.a req.L buf).map
      (wireRecord req.a req.a) := by
  obtain ⟨rfl, hd, hpos, hle, hle2, hok0, hok1, rfl⟩ := parallelStream_some rfl hrs
  rw [records_fsParThread _ _ _ _ _ _ hok0, records_fsParThread _ _ _ _ _ _ hok1]
  obtain ⟨alloc, hok⟩ := hsimd rfl
  obtain ⟨hct, -, hstep, -⟩ := (simdOk_pass req data maskData alloc).mp hok
  generalize parSpan req.sp.length.toNat (req.pass data maskData).valueLength = span at hd hpos hle hle2
  change span ≤ req.L at hle
  change req.L ≤ 2 * span at hle2
  have haddr : u64 (req.a + 0 * span) = req.a := by rw [Nat.zero_mul, Nat.add_zero, u64_of_lt req.a_lt]
  have hfirst : (if 0 * span + span ≤ req.L then span else req.L - 0 * span) = span :=
    if_pos (by rw [Nat.zero_mul, Nat.zero_add]; exact hle)
  have hsecond : (if 1 * span + span ≤ req.L then span else req.L - 1 * span) = req.L - span := by
    split <;> omega
  change (passHits _ _ _ (u64 (req.a + 0 * span))
      (if 0 * span + span ≤ req.L then span else req.L - 0 * span) _).map
        (wireRecord req.a (u64 (req.a + 0 * span))) ++
    (passHits _ _ _ (u64 (req.a + 1 * span))
      (if 1 * span + span ≤ req.L then span else req.L - 1 * span) _).map
        (wireRecord req.a (u64 (req.a + 1 * span))) = _
  rw [haddr, hfirst, hsecond, Nat.one_mul]
  rcases req.isInteger_or_unsized with hvt | hvt
  · rw [passHits_finder req data maskData hct hvt hstep, passHits_finder req data maskData hct hvt hstep,
      passHits_finder req data maskData hct hvt hstep, req.g.grid_split hstep hd hpos hle,
      List.map_append, List.filter_append, List.map_append]
    congr 1
    -- the second span, seen from its own start and from the start of the region
    rw [List.map_map, List.filter_map, List.filter_map, List.map_map, List.map_map]
    have hsame : ∀ o, (memProbe mem (u64 (req.a + span)) req.g.v o).window =
        (memProbe mem req.a req.g.v (span + o)).window := by
      intro o
      rw [memProbe_shift]
    have hwire : ∀ o, wireRecord req.a (u64 (req.a + span)) (memProbe mem (u64 (req.a + span)) req.g.v o) =
        wireRecord req.a req.a (memProbe mem req.a req.g.v (span + o)) := by
      intro o
      rw [wireRecord, wireRecord, hsame]
      simp only [memProbe, u64, Nat.mod_add_mod, Nat.add_assoc]
    congr 1
    · funext o
      exact hwire o
    · apply List.filter_congr
      intro o _
      simp only [Function.comp_apply, hsame]
  · have hvt' : sizeOfValueType (req.pass data maskData).vt = 0 := hvt
    simp only [passHits_unsized hvt', List.map_nil, List.append_nil]

end Finder

/-! ## The two paths agree -/

/-- The streaming end of a START, as the records it streams. -/
theorem turboStartSends_eq {mem : Memory} (sp : TurboStartPacket) (p : Pass) (simd : Bool)
    (actx : Option (AliasEngine mem)) (env : TurboEnv mem) (spawn : SpawnOutcome) (readBuf : Buf) :
    turboStartSends sp p simd actx env spawn readBuf =
      sendRecords (flushThresh p.valueLength) ((parallelStream sp p simd actx env).getD
        ((passHits p simd actx sp.address.toNat sp.length.toNat readBuf).map
          (wireRecord sp.address.toNat sp.address.toNat))) := by
  rw [turboStartSends, turboscanParallelStream_eq, sendRecords]
  cases parallelStream sp p simd actx env with
  | none => simp [turboscanScanPass_eq]
  | some rs => simp

/-- Clearing the parallel flag leaves the other flags alone. -/
theorem hasFlag_clear_parallel (flags : UInt32) {bit : UInt32}
    (h : ~~~TS_PARALLEL_COMPARE &&& bit = bit) :
    hasFlag (flags &&& ~~~TS_PARALLEL_COMPARE) bit = hasFlag flags bit := by
  rw [hasFlag, hasFlag, UInt32.and_assoc, h]

/-- Whatever the flag says, the records are those of the sequential pass. -/
theorem parallelStream_getD (req : FirstScanReq) (flags : UInt32) (data maskData : List Byte)
    {mem : Memory} (env : TurboEnv mem) (actx : Option (AliasEngine mem)) (buf : Buf) :
    (parallelStream ⟨req.sp, flags⟩ (req.pass data maskData)
        (simdOk (req.pass data maskData) env.simdOffAlloc) actx env).getD
      ((passHits (req.pass data maskData) (simdOk (req.pass data maskData) env.simdOffAlloc) actx
        req.a req.L buf).map (wireRecord req.a req.a)) =
    (passHits (req.pass data maskData) (simdOk (req.pass data maskData) env.simdOffAlloc) actx
      req.a req.L buf).map (wireRecord req.a req.a) := by
  cases h : parallelStream ⟨req.sp, flags⟩ (req.pass data maskData)
      (simdOk (req.pass data maskData) env.simdOffAlloc) actx env with
  | none => rfl
  | some rs => exact parallelRecords_eq req data maskData (fun hs => ⟨_, hs⟩) h actx buf

/-- The reply of a START does not depend on the flag. -/
theorem turboStartReply_clear_parallel (req : FirstScanReq) (flags : UInt32) (data maskData : List Byte)
    {mem : Memory} (env : TurboEnv mem) (spawn : SpawnOutcome) :
    turboStartReply ⟨req.sp, flags⟩ (req.pass data maskData) env spawn =
      turboStartReply ⟨req.sp, flags &&& ~~~TS_PARALLEL_COMPARE⟩ (req.pass data maskData) env spawn := by
  generalize hp : req.pass data maskData = p
  generalize hsimd : simdOk p env.simdOffAlloc = simd
  have hsends : ∀ (actx : Option (AliasEngine mem)) (buf : Buf),
      turboStartSends ⟨req.sp, flags⟩ p simd actx env spawn buf =
        turboStartSends ⟨req.sp, flags &&& ~~~TS_PARALLEL_COMPARE⟩ p simd actx env spawn buf := by
    intro actx buf
    subst hp hsimd
    rw [turboStartSends_eq, turboStartSends_eq]
    exact congrArg _ ((parallelStream_getD req flags data maskData env actx buf).trans
      (parallelStream_getD req _ data maskData env actx buf).symm)
  have halias := hasFlag_clear_parallel flags
    (show ~~~TS_PARALLEL_COMPARE &&& TS_USE_ALIASING = TS_USE_ALIASING by decide)
  have hseg := hasFlag_clear_parallel flags
    (show ~~~TS_PARALLEL_COMPARE &&& TS_SNAPSHOT_SEGMENTS = TS_SNAPSHOT_SEGMENTS by decide)
  have hserver := hasFlag_clear_parallel flags
    (show ~~~TS_PARALLEL_COMPARE &&& TS_SERVER_RESIDENT = TS_SERVER_RESIDENT by decide)
  have hres : ∀ actx, residentPass ⟨req.sp, flags &&& ~~~TS_PARALLEL_COMPARE⟩ p simd actx env =
      residentPass ⟨req.sp, flags⟩ p simd actx env := by
    intro actx
    simp only [residentPass, hseg, hserver]
  rw [turboStartReply, turboStartReply]
  simp only [hsimd, halias, hseg, hres]
  rcases residentPass ⟨req.sp, flags⟩ p simd (if hasFlag flags TS_USE_ALIASING then env.aliasCtx else none)
    env with _ | ⟨stored, recs, readBuf⟩
  · exact hsends _ _
  · cases stored with
    | true => rfl
    | false => simp only [hsends]

/-- **Parallel streaming is invisible.** It sends nothing unless it handles the request; when
it does, it sends what the sequential pass would send, block by block; and so the whole reply
of a START is that of the same START without the flag. -/
theorem parallel_stream_invisible (req : FirstScanReq) (flags : UInt32) (data maskData : List Byte)
    (mem : Memory) (env : TurboEnv mem) (spawn : SpawnOutcome) :
    let p := req.pass data maskData
    let simd := simdOk p env.simdOffAlloc
    let actx := if hasFlag flags TS_USE_ALIASING then env.aliasCtx else none
    let par := turboscanParallelStream ⟨req.sp, flags⟩ p simd actx env spawn
    (par.1 = false → par.2 = []) ∧
    (par.1 = true → ∀ readBuf, par.2 = turboscanScanPass ⟨req.sp, flags⟩ p simd actx readBuf) ∧
    turboStartReply ⟨req.sp, flags⟩ p env spawn =
      turboStartReply ⟨req.sp, flags &&& ~~~TS_PARALLEL_COMPARE⟩ p env spawn := by
  intro p simd actx par
  have hpar := turboscanParallelStream_eq ⟨req.sp, flags⟩ p simd actx env spawn
  refine ⟨?_, ?_, turboStartReply_clear_parallel req flags data maskData env spawn⟩
  · cases h : parallelStream ⟨req.sp, flags⟩ p simd actx env with
    | none => simp [par, hpar, h]
    | some rs => simp [par, hpar, h]
  · intro hhandled readBuf
    cases h : parallelStream ⟨req.sp, flags⟩ p simd actx env with
    | none => simp [par, hpar, h] at hhandled
    | some rs =>
      have heq := parallelRecords_eq req data maskData (fun hs => ⟨_, hs⟩) h actx readBuf
      rw [turboscanScanPass_eq]
      simp only [par, hpar, h]
      rw [heq]
      rfl

end Ps5Debugger

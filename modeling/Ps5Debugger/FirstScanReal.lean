import Ps5Debugger.FirstScanGrid

/-!
# What the first scans report

A request in the range the staged scanner serves (`FirstScanReq`), the two commands that
run it (`StartCmd`), and two questions about the records they stream: is every record a
real hit inside the region, and is every position of the global grid compared.

Both come down to the chunk walk. A window that lies inside the bytes a chunk read shows
the target's memory (`chunkReads_fresh`); a window of a chunk shorter than a value does
not, and whatever lies behind the read is compared in its place.
-/

namespace Ps5Debugger

open Lib

/-! ## Requests -/

/-- An accepted START request with a non-floating type. Values of more than a megabyte are
rejected, as they leave no chunk to read into. -/
structure FirstScanReq where
  sp : ScanStartPacket
  ct : CmpType
  ct_eq : CmpType.ofByte sp.compareType = some ct
  lenData_ne : sp.lenData ≠ 0
  v_le : sp.valueLength ≤ 0x100000
  notFloat : (ValType.ofByte sp.valueType).isFloat = false

namespace FirstScanReq

variable (req : FirstScanReq)

/-- The value type. -/
def vt : ValType := ValType.ofByte req.sp.valueType

/-- The length of the region. -/
def L : Nat := req.sp.length.toNat

/-- The address of the region. -/
def a : Nat := req.sp.address.toNat

theorem L_lt : req.L < 2 ^ 32 := req.sp.length.toNat_lt

theorem a_lt : req.a < 2 ^ 64 := req.sp.address.toNat_lt

theorem valueLength_pos : 0 < req.sp.valueLength := by
  rw [ScanStartPacket.valueLength, valueLength]
  split
  · have hne : req.sp.lenData.toNat ≠ 0 := fun h => req.lenData_ne (UInt32.toNat_inj.mp h)
    omega
  · omega

/-- The sizes of the request. -/
def g : Geometry where
  v := req.sp.valueLength
  step := stepFor req.sp.alignment req.sp.valueLength
  v_pos := req.valueLength_pos
  v_le := req.v_le
  step_pos := by
    have hpos := req.valueLength_pos
    rw [stepFor]
    split
    · next h =>
      have hne : req.sp.alignment.toNat ≠ 0 := fun h0 => h (UInt8.toNat_inj.mp h0)
      omega
    · exact hpos
  step_le := by
    have hle := req.v_le
    have hlt := req.sp.alignment.toNat_lt
    rw [stepFor]
    split <;> omega

/-- The parameters the handlers compute for the request. `data` is what the comparator
finds behind the pattern pointer. -/
def pass (data maskData : List Byte) : Pass where
  ct := req.ct
  vt := req.vt
  valueLength := req.g.v
  step := req.g.step
  chunkSize := req.g.c
  pattern := if req.ct.needsValue then some data else none
  mask := if req.vt = .arrBytes then some maskData else none
  prevForBetween := if req.ct = .valueBetween then some (data.drop req.g.v) else none

@[simp] theorem pass_vt (data maskData : List Byte) : (req.pass data maskData).vt = req.vt := rfl

@[simp] theorem pass_valueLength (data maskData : List Byte) :
    (req.pass data maskData).valueLength = req.g.v := rfl

@[simp] theorem pass_step (data maskData : List Byte) :
    (req.pass data maskData).step = req.g.step := rfl

@[simp] theorem pass_chunkSize (data maskData : List Byte) :
    (req.pass data maskData).chunkSize = req.g.c := rfl

/-- The prologue of the handlers accepts the request with these parameters. -/
theorem preparePass_eq (data maskData : List Byte) :
    preparePass req.sp data maskData = some (req.pass data maskData) := by
  have hc : chunkSizeFor req.sp.valueLength ≠ 0 := by
    obtain ⟨-, hc⟩ := req.g.le_c
    have hdef : req.g.c = chunkSizeFor req.sp.valueLength := rfl
    omega
  rw [preparePass, req.ct_eq]
  simp only [req.lenData_ne, hc, if_false]
  rfl

/-- A sized type fixes the value length. -/
theorem v_eq_size (h : sizeOfValueType req.vt ≠ 0) : req.g.v = sizeOfValueType req.vt := if_neg h

/-- Away from the floating-point types, a sized type is an integer type. -/
theorem isInteger_or_unsized : req.vt.isInteger = true ∨ sizeOfValueType req.vt = 0 := by
  have hf : req.vt.isFloat = false := req.notFloat
  cases hvt : req.vt <;> simp_all [ValType.isFloat, ValType.isInteger, sizeOfValueType]

end FirstScanReq

/-- The two commands that run a first scan and stream its records. -/
inductive StartCmd : Type where
  /-- `proc_scan_start_handle` -/
  | scanStart
  /-- `proc_turboscan_start_handle` without `TS_SNAPSHOT` -/
  | turboStart (flags : UInt32) (noSnapshot : hasFlag flags TS_SNAPSHOT = false)

namespace StartCmd

/-- The records a command streams. -/
def records (cmd : StartCmd) (req : FirstScanReq) (p : Pass) {mem : Memory} (env : TurboEnv mem) :
    List ScanRecord :=
  match cmd with
  | .scanStart => scanStartRecords mem req.sp p env.raw
  | .turboStart flags _ => turboStartRecords ⟨req.sp, flags⟩ p env

/-- Whether the command searches its chunks with the exact finder. -/
def usesSimd (cmd : StartCmd) (p : Pass) (simdOffAlloc : Bool) : Bool :=
  match cmd with
  | .scanStart => false
  | .turboStart _ _ => simdOk p simdOffAlloc

/-- The alias context of the command's own pass. -/
def actx (cmd : StartCmd) {mem : Memory} (env : TurboEnv mem) : Option (AliasEngine mem) :=
  match cmd with
  | .scanStart => none
  | .turboStart flags _ => if hasFlag flags TS_USE_ALIASING then env.aliasCtx else none

/-- A resident scan of a segment list never streams a record. -/
def neverStreams (cmd : StartCmd) : Bool :=
  match cmd with
  | .scanStart => false
  | .turboStart flags _ => hasFlag flags TS_SERVER_RESIDENT && hasFlag flags TS_SNAPSHOT_SEGMENTS

end StartCmd

/-! ## Chunk reads -/

theorem readChunk_off_len {mem : Memory} (actx : Option (AliasEngine mem)) (scanAddr : Nat)
    (ch : Nat × Nat) (buf : Buf) :
    (readChunk actx scanAddr ch buf).1.off = ch.1 ∧ (readChunk actx scanAddr ch buf).1.len = ch.2 := by
  rw [readChunk]
  split <;> exact ⟨rfl, rfl⟩

/-- Inside the bytes it read, a chunk shows the target's memory. -/
theorem readChunk_fresh {mem : Memory} (actx : Option (AliasEngine mem)) (scanAddr : Nat)
    (ch : Nat × Nat) (buf : Buf) {i : Nat} (hi : i < ch.2) :
    (readChunk actx scanAddr ch buf).1.src i = readMem mem (u64 (scanAddr + ch.1)) i := by
  rw [readChunk]
  split
  · next aptr h =>
    obtain ⟨e, -, hmap⟩ := Option.bind_eq_some_iff.mp h
    exact e.map_eq hmap i hi
  · exact readInto_of_lt hi

/-- The reads of a pass are reads of its chunks, each fresh over its length. -/
theorem chunkReads_fresh {mem : Memory} (actx : Option (AliasEngine mem)) (scanAddr : Nat)
    (chunks : List (Nat × Nat)) : ∀ (buf : Buf), ∀ r ∈ chunkReads actx scanAddr chunks buf,
      (r.off, r.len) ∈ chunks ∧ ∀ i < r.len, r.src i = readMem mem scanAddr (r.off + i) := by
  induction chunks with
  | nil => intro buf r hr; simp [chunkReads] at hr
  | cons ch chunks ih =>
    intro buf r hr
    rw [chunkReads] at hr
    rcases List.mem_cons.mp hr with rfl | hr
    · obtain ⟨hoff, hlen⟩ := readChunk_off_len actx scanAddr ch buf
      rw [hoff, hlen]
      refine ⟨List.mem_cons_self .., fun i hi => ?_⟩
      rw [readChunk_fresh actx scanAddr ch buf hi, readMem_add, view_apply]
    · obtain ⟨hmem, hfresh⟩ := ih _ r hr
      exact ⟨List.mem_cons_of_mem _ hmem, hfresh⟩

/-- A pass reads its chunks in order. -/
theorem chunkReads_map {mem : Memory} (actx : Option (AliasEngine mem)) (scanAddr : Nat)
    (chunks : List (Nat × Nat)) : ∀ buf : Buf,
      (chunkReads actx scanAddr chunks buf).map (fun r => (r.off, r.len)) = chunks := by
  induction chunks with
  | nil => intro buf; rfl
  | cons ch chunks ih =>
    intro buf
    obtain ⟨hoff, hlen⟩ := readChunk_off_len actx scanAddr ch buf
    rw [chunkReads, List.map_cons, ih, hoff, hlen]

/-- A window inside the bytes a chunk read. -/
theorem slice_fresh {mem : Memory} {scanAddr v j : Nat} {r : ChunkRead}
    (hfresh : ∀ i < r.len, r.src i = readMem mem scanAddr (r.off + i)) (hj : j + v ≤ r.len) :
    slice r.src j v = slice (readMem mem scanAddr) (r.off + j) v :=
  slice_eq_iff.mpr fun i hi => by rw [hfresh (j + i) (by omega), Nat.add_assoc]

/-! ## The two searches of a chunk -/

section Search

variable (req : FirstScanReq) (data maskData : List Byte)

/-- The exact finder and the scalar loop find the same in a chunk that holds a value. -/
theorem simdHits_eq_scalar (hct : req.ct = .exactValue) (hvt : req.vt.isInteger = true)
    (hstep : req.g.step = req.g.v) {r : ChunkRead} (hlen : req.g.v ≤ r.len) (hc : r.len ≤ req.g.c) :
    simdHits (req.pass data maskData) r =
      (scalarProbes (req.pass data maskData) r).filter
        fun q => (req.pass data maskData).compare q.window := by
  have hsize : sizeOfValueType req.vt ≠ 0 := by
    cases h : req.vt <;> simp_all [ValType.isInteger, sizeOfValueType]
  have hv : req.g.v = sizeOfValueType req.vt := req.v_eq_size hsize
  have hcmp : ∀ w : List Byte, (req.pass data maskData).compare w = bytesEqual req.g.v data w := by
    intro w
    simp only [Pass.compare, FirstScanReq.pass, hct, compareValues, CmpType.needsValue, if_true,
      Option.getD_some]
    cases h : req.vt <;> simp_all [ValType.isInteger, compareExact]
  -- every match fits in the offset table, which has one entry per element of a chunk
  have hroom : ((strideUpTo req.g.v (r.len - req.g.v)).filter fun off =>
      bytesEqual req.g.v data (slice r.src off req.g.v)).length ≤ req.g.c / req.g.v := by
    refine Nat.le_trans (List.length_filter_le _ _) ?_
    rw [strideUpTo, List.length_map, List.length_range]
    have hvpos := req.g.v_pos
    rw [Nat.succ_le_iff, Nat.div_lt_iff_lt_mul hvpos, Nat.div_mul_cancel req.g.dvd_c]
    omega
  have hfind : simdFindExact req.vt r.src r.len data req.g.v (req.g.c / req.g.v) =
      Found.record ((strideUpTo req.g.v (r.len - req.g.v)).filter fun off =>
        bytesEqual req.g.v data (slice r.src off req.g.v)) (req.g.c / req.g.v) := by
    rw [hv, simdFindExact_integer hvt, if_neg (by omega)]
  have hpat : (req.pass data maskData).pattern.getD [] = data := by
    simp [FirstScanReq.pass, hct, CmpType.needsValue]
  simp only [simdHits, scalarProbes, hpat, FirstScanReq.pass_vt, FirstScanReq.pass_valueLength,
    FirstScanReq.pass_step, FirstScanReq.pass_chunkSize, hfind, hstep, ge_iff_le, hlen, if_true]
  rw [List.filter_map]
  simp only [Function.comp_def, hcmp, Found.record]
  generalize hm : (strideUpTo req.g.v (r.len - req.g.v)).filter (fun off =>
    bytesEqual req.g.v data (slice r.src off req.g.v)) = m at hroom ⊢
  rw [List.take_of_length_le hroom]
  apply List.ext_getElem
  · simp
  · intro k h1 h2
    simp only [List.length_map, List.length_range] at h1
    simp [h1]

/-- In a chunk shorter than a value the exact finder finds nothing. -/
theorem simdHits_of_short (hvt : req.vt.isInteger = true) {r : ChunkRead} (hlen : r.len < req.g.v) :
    simdHits (req.pass data maskData) r = [] := by
  have hsize : sizeOfValueType req.vt ≠ 0 := by
    cases h : req.vt <;> simp_all [ValType.isInteger, sizeOfValueType]
  have hv : req.g.v = sizeOfValueType req.vt := req.v_eq_size hsize
  rw [simdHits, req.pass_vt, req.pass_valueLength, hv, simdFindExact_integer hvt, if_pos (by omega)]
  rfl

/-- Of a type without a size the exact finder finds nothing at all. -/
theorem simdHits_of_unsized {p : Pass} (hvt : sizeOfValueType p.vt = 0) (r : ChunkRead) : simdHits p r = [] := by
  rw [simdHits, simdFindExact_unsized hvt]
  rfl

/-- `simd_ok`, read back on the request. -/
theorem simdOk_pass (alloc : Bool) : simdOk (req.pass data maskData) alloc = true ↔
    req.ct = .exactValue ∧ req.vt ≠ .arrBytes ∧ req.g.step = req.g.v ∧ alloc = true := by
  simp only [simdOk, FirstScanReq.pass, Bool.and_eq_true, bne_iff_ne, beq_iff_eq]
  constructor
  · rintro ⟨⟨⟨⟨h1, h2⟩, h3⟩, -⟩, h5⟩
    exact ⟨of_decide_eq_true h1, h2, h3, h5⟩
  · rintro ⟨h1, h2, h3, h5⟩
    refine ⟨⟨⟨⟨decide_eq_true h1, h2⟩, h3⟩, ?_⟩, h5⟩
    rw [h1]
    rfl

end Search

/-- A hit of a pass over `[scanAddr, scanAddr + n)` that is what it claims to be. -/
structure SoundHit (mem : Memory) (p : Pass) (scanAddr n : Nat) (q : Probe) : Prop where
  inside : q.off + p.valueLength ≤ n
  fresh : q.window = slice (readMem mem scanAddr) q.off p.valueLength
  accepted : p.compare q.window = true

section Sound

variable (req : FirstScanReq) (data maskData : List Byte)

/-- The hits of the scalar loop in a chunk that holds a value. -/
theorem scalarHits_sound {mem : Memory} {scanAddr : Nat} {r : ChunkRead}
    (hfresh : ∀ i < r.len, r.src i = readMem mem scanAddr (r.off + i)) (hlen : req.g.v ≤ r.len)
    {q : Probe} (hq : q ∈ (scalarProbes (req.pass data maskData) r).filter
      fun q => (req.pass data maskData).compare q.window) :
    SoundHit mem (req.pass data maskData) scanAddr (r.off + r.len) q := by
  obtain ⟨hmem, hacc⟩ := List.mem_filter.mp hq
  obtain ⟨j, hj, rfl⟩ := List.mem_map.mp hmem
  rw [req.pass_valueLength, if_pos (show r.len ≥ req.g.v from hlen)] at hj
  have hjle : j ≤ r.len - req.g.v := ((mem_strideUpTo req.g.step_pos).mp hj).2
  have hfit : j + req.g.v ≤ r.len := by omega
  exact ⟨by change r.off + j + req.g.v ≤ _; omega, slice_fresh hfresh hfit, hacc⟩

/-- **The hits of a chunk are real** unless the scalar loop runs on a short chunk. -/
theorem chunkHits_sound {mem : Memory} {scanAddr : Nat} {simd : Bool} {r : ChunkRead}
    (hsimd : simd = true → ∃ alloc, simdOk (req.pass data maskData) alloc = true)
    (hfresh : ∀ i < r.len, r.src i = readMem mem scanAddr (r.off + i)) (hc : r.len ≤ req.g.c)
    (hlen : simd = true ∨ req.g.v ≤ r.len) {q : Probe}
    (hq : q ∈ chunkHits (req.pass data maskData) simd r) :
    SoundHit mem (req.pass data maskData) scanAddr (r.off + r.len) q := by
  rw [chunkHits] at hq
  cases simd with
  | false =>
    have hlong : req.g.v ≤ r.len := by simpa using hlen
    exact scalarHits_sound req data maskData hfresh hlong hq
  | true =>
    obtain ⟨alloc, hok⟩ := hsimd rfl
    obtain ⟨hct, -, hstep, -⟩ := (simdOk_pass req data maskData alloc).mp hok
    rw [if_pos rfl] at hq
    rcases req.isInteger_or_unsized with hvt | hvt
    · rcases Nat.lt_or_ge r.len req.g.v with hshort | hlong
      · rw [simdHits_of_short req data maskData hvt hshort] at hq
        cases hq
      · rw [simdHits_eq_scalar req data maskData hct hvt hstep hlong hc] at hq
        exact scalarHits_sound req data maskData hfresh hlong hq
    · rw [simdHits_of_unsized (show sizeOfValueType (req.pass data maskData).vt = 0 from hvt)] at hq
      cases hq

/-- Every chunk is at most the chunk size. -/
theorem len_le_of_mem_scanChunks {chunkSize v step : Nat} : ∀ {fuel off rem : Nat} {ch : Nat × Nat},
    ch ∈ scanChunks chunkSize v step fuel off rem → ch.2 ≤ chunkSize := by
  intro fuel
  induction fuel with
  | zero => intro off rem ch hch; simp [scanChunks] at hch
  | succ fuel ih =>
    intro off rem ch hch
    rw [scanChunks] at hch
    split at hch
    · cases hch
    · rcases List.mem_cons.mp hch with rfl | hch
      · simp only
        split <;> omega
      · exact ih hch

theorem regionChunks_le {n : Nat} {ch : Nat × Nat} (h : ch ∈ regionChunks req.g.c req.g.v req.g.step n) :
    ch.1 + ch.2 ≤ n ∧ ch.2 ≤ req.g.c := by
  have hbound := req.g.scanChunks_bounds n 0 n ch h
  exact ⟨by omega, len_le_of_mem_scanChunks h⟩

/-- The chunk reads of a pass over `n` bytes. -/
theorem mem_reads {mem : Memory} {actx : Option (AliasEngine mem)} {scanAddr n : Nat} {buf : Buf}
    {r : ChunkRead}
    (hr : r ∈ chunkReads actx scanAddr (regionChunks req.g.c req.g.v req.g.step n) buf) :
    (∀ i < r.len, r.src i = readMem mem scanAddr (r.off + i)) ∧ r.off + r.len ≤ n ∧
      r.len ≤ req.g.c ∧ (r.off, r.len) ∈ regionChunks req.g.c req.g.v req.g.step n := by
  obtain ⟨hmem, hfresh⟩ := chunkReads_fresh actx scanAddr _ buf r hr
  obtain ⟨hend, hc⟩ := regionChunks_le req hmem
  exact ⟨hfresh, hend, hc, hmem⟩

/-- The hits of a whole pass are real when no chunk is short or the finder searches. -/
theorem readHits_sound {mem : Memory} {actx : Option (AliasEngine mem)} {simd : Bool}
    {scanAddr n : Nat} {buf : Buf}
    (hsimd : simd = true → ∃ alloc, simdOk (req.pass data maskData) alloc = true)
    (hlen : simd = true ∨ req.g.NoShort n 0 n) {r : ChunkRead}
    (hr : r ∈ chunkReads actx scanAddr (regionChunks req.g.c req.g.v req.g.step n) buf) {q : Probe}
    (hq : q ∈ chunkHits (req.pass data maskData) simd r) :
    SoundHit mem (req.pass data maskData) scanAddr (r.off + r.len) q ∧
      SoundHit mem (req.pass data maskData) scanAddr n q := by
  obtain ⟨hfresh, hend, hc, hmem⟩ := mem_reads req hr
  have hlong : simd = true ∨ req.g.v ≤ r.len := hlen.imp_right fun h => h _ hmem
  have hsound := chunkHits_sound req data maskData hsimd hfresh hc hlong hq
  refine ⟨hsound, ?_, hsound.fresh, hsound.accepted⟩
  have := hsound.inside
  omega

end Sound

/-! ## Records on the wire -/

/-- An offset of a hit, recovered from the absolute address. -/
theorem wire_offset {a o : Nat} (ha : a < 2 ^ 64) (ho : o < 2 ^ 32) :
    subU64 (u64 (a + o)) a % 2 ^ 32 = o := by
  rw [subU64, u64]
  omega

/-- A streamed record that is a real hit of the request. -/
structure RealRecord (mem : Memory) (req : FirstScanReq) (p : Pass) (rec : ScanRecord) : Prop where
  inRegion : rec.offset + p.valueLength ≤ req.L
  fromTarget : rec.value = slice (readMem mem (u64 (req.a + rec.offset))) 0 p.valueLength
  accepted : p.compare rec.value = true

/-- A sound hit in a range at distance `sOff` inside the region is a real record. -/
theorem SoundHit.real {mem : Memory} {req : FirstScanReq} {p : Pass} {sOff n : Nat} {q : Probe}
    (h : SoundHit mem p (u64 (req.a + sOff)) n q) (hin : sOff + n ≤ req.L) :
    RealRecord mem req p
      ⟨subU64 (u64 (u64 (req.a + sOff) + q.off)) req.a % 2 ^ 32, q.window⟩ := by
  have hL := req.L_lt
  have hins := h.inside
  have haddr : u64 (u64 (req.a + sOff) + q.off) = u64 (req.a + (sOff + q.off)) := by
    simp only [u64, Nat.mod_add_mod, Nat.add_assoc]
  have hoff : subU64 (u64 (u64 (req.a + sOff) + q.off)) req.a % 2 ^ 32 = sOff + q.off := by
    rw [haddr]
    exact wire_offset req.a_lt (by omega)
  refine ⟨?_, ?_, h.accepted⟩
  · simp only [hoff]
    omega
  · simp only [hoff]
    rw [h.fresh, readMem_add, slice_view, slice_readMem_add]

end Ps5Debugger

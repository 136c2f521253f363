import Ps5Debugger.PatternReads

/-!
# The buffers of a first scan

The value length of an array or of a string is the client's `lenData`, of up to 32 bits, and three sizes
are computed from it without a check:

* `chunk_size` is rounded down to a multiple of it. Above a megabyte that is zero, and a buffer of no
  bytes cannot be had; so a scan that is accepted has a chunk for at least one value, and a value of at
  most a megabyte.
* `limit`, how far the scalar loop goes in a chunk, is clamped to zero for a chunk that is shorter than a
  value. The loop then still compares once, and what it compares is not all there.
* `flush_thresh` leaves room for one record behind the threshold, as long as there is such room. From
  0x3FFE9 bytes on it wraps, and `result_buf` is not flushed any more.

`first_scan_buffers_iff` says when the buffers hold anyway.
-/

namespace Ps5Debugger

open Lib

/-! ## The loops end -/

/-- Where the chunk loop is, what remains, and the chunks so far. -/
structure ChunkWalk where
  off : Nat
  remaining : Nat
  chunks : List (Nat × Nat)

/-- A pass of `while (remaining > 0)`. -/
def chunkStep (p : Pass) (w : ChunkWalk) : ChunkWalk ⊕ List (Nat × Nat) :=
  if w.remaining = 0 then .inr w.chunks
  else
    let toRead := if w.remaining > p.chunkSize then p.chunkSize else w.remaining
    let advance := chunkAdvance p.valueLength p.step toRead
    .inl
      { off := w.off + advance
        remaining := if w.remaining > advance then w.remaining - advance else 0
        chunks := w.chunks ++ [(w.off, toRead)] }

/-- A pass of `for (j = 0; j <= limit; j += step)`, with the values of `j` so far. -/
def strideStep (step limit : Nat) (s : Nat × List Nat) : (Nat × List Nat) ⊕ List Nat :=
  if s.1 ≤ limit then .inl (u64 (s.1 + step), s.2 ++ [s.1]) else .inr s.2

/-- The loop over the chunks ends, for a region of whatever length, and so do those over a chunk. -/
def Pass.LoopsEnd (p : Pass) : Prop :=
  (∀ length, Halts (chunkStep p) ⟨0, length, []⟩) ∧
    ∀ limit ≤ p.chunkSize, Halts (strideStep p.step limit) (0, [])

/-- The chunk loop visits the chunks of the region: every pass advances. -/
theorem loop_chunkStep {p : Pass} {lenData : UInt32} (hp : p.Prepared lenData) :
    ∀ (fuel off remaining : Nat) (chunks : List (Nat × Nat)), remaining ≤ fuel →
      loop (chunkStep p) (fuel + 1) ⟨off, remaining, chunks⟩ =
        some (chunks ++ scanChunks p.chunkSize p.valueLength p.step fuel off remaining) := by
  intro fuel
  induction fuel with
  | zero =>
    intro off remaining chunks hfuel
    obtain rfl := Nat.le_zero.mp hfuel
    rw [loop, chunkStep, if_pos rfl, scanChunks, List.append_nil]
  | succ fuel ih =>
    intro off remaining chunks hfuel
    rw [loop, chunkStep, scanChunks]
    by_cases hzero : remaining = 0
    · rw [if_pos hzero, if_pos hzero, List.append_nil]
    · rw [if_neg hzero, if_neg hzero]
      dsimp only
      have hchunk : (if remaining > p.chunkSize then p.chunkSize else remaining) ≤ p.chunkSize ∧
          0 < if remaining > p.chunkSize then p.chunkSize else remaining := by
        have hv := hp.v_pos
        have hc := hp.chunkSize_bounds.1
        split <;> omega
      generalize (if remaining > p.chunkSize then p.chunkSize else remaining) = toRead at hchunk
      have hadv : 0 < chunkAdvance p.valueLength p.step toRead :=
        hp.geometry.chunkAdvance_pos hchunk.2 (hchunk.1.trans hp.chunk_eq.le)
      rw [ih _ _ _ (by split <;> omega), List.append_assoc, List.singleton_append]

/-- The loop over a chunk visits the multiples of the step; `j` does not wrap. -/
theorem loop_strideStep {step limit : Nat} (hstep : 0 < step) (hend : limit + step < 2 ^ 64) :
    ∀ left k, k + left = limit / step + 1 →
      loop (strideStep step limit) (left + 1) (k * step, (List.range k).map (· * step)) =
        some (strideUpTo step limit) := by
  intro left
  induction left with
  | zero =>
    intro k hk
    have hout : ¬ k * step ≤ limit := by
      rw [← Nat.le_div_iff_mul_le hstep]
      omega
    rw [loop, strideStep, if_neg hout, strideUpTo, ← hk, Nat.add_zero]
  | succ left ih =>
    intro k hk
    have hin : k * step ≤ limit := (Nat.le_div_iff_mul_le hstep).mp (by omega)
    have hnext : u64 (k * step + step) = (k + 1) * step := by
      rw [Nat.succ_mul]
      exact u64_of_lt (by omega)
    rw [loop, strideStep, if_pos hin]
    dsimp only
    rw [hnext, ← ih (k + 1) (by omega), List.range_succ, List.map_append]
    rfl

/-- **The loops of an accepted scan end.** -/
theorem loopsEnd {p : Pass} {lenData : UInt32} (hp : p.Prepared lenData) : p.LoopsEnd := by
  constructor
  · intro length
    refine ⟨length + 1, ?_⟩
    rw [loop_chunkStep hp length 0 length [] (Nat.le_refl length)]
    rfl
  · intro limit hlimit
    have hend : limit + p.step < 2 ^ 64 := by
      have hc := hp.chunkSize_bounds.2
      have hs := hp.step_le
      omega
    refine ⟨limit / p.step + 2, ?_⟩
    have hrun := loop_strideStep hp.step_pos hend (limit / p.step + 1) 0 (Nat.zero_add _)
    rw [Nat.zero_mul] at hrun
    exact (congrArg Option.isSome hrun).trans rfl

/-! ## The loads of the comparators from memory -/

namespace Comparing

/-- How many bytes `proc_scan_compareValues` loads from the memory it is handed. -/
def memReads (c : Comparing) (mem : List Byte) : Nat :=
  match c.ct with
  | .exactValue =>
    match c.vt with
    | .f32 => 4
    | .f64 => 8
    | _ => loopReads c.n (c.leaves mem)
  | .fuzzyValue =>
    match c.vt with
    | .f32 => 4
    | .f64 => 8
    | _ => 0
  | .biggerThan | .smallerThan | .unknownInitialValue | .unknownInitialLowValue => c.size
  | .valueBetween | .increasedValue | .increasedValueBy | .decreasedValue | .decreasedValueBy
  | .changedValue | .unchangedValue => if c.prevNull then 0 else c.size

/-- The loads of `scan_simd_find_exact` from a chunk of `len` bytes: eight words at a time and the rest one
by one, or an element at every step. -/
def findMemReads (c : Comparing) (len : Nat) : List (Nat × Nat) :=
  if (c.vt = .u32 ∨ c.vt = .i32) ∧ c.n = 4 then
    (List.range (len / 4 / 8)).map (fun q => (8 * q * 4, 32)) ++
      (List.range (len / 4 % 8)).map fun t => ((8 * (len / 4 / 8) + t) * 4, 4)
  else if elemSize c.vt = 0 ∨ c.n = 0 ∨ len < elemSize c.vt then []
  else (strideUpTo c.n (len - elemSize c.vt)).map fun off => (off, elemSize c.vt)

/-- How much `proc_scan_compareValues` loads if it looks at all of it. -/
def memNeeds (c : Comparing) : Nat :=
  match c.ct with
  | .exactValue => c.n
  | .fuzzyValue => if c.vt.isFloat then c.size else 0
  | .biggerThan | .smallerThan | .unknownInitialValue | .unknownInitialLowValue => c.size
  | .valueBetween | .increasedValue | .increasedValueBy | .decreasedValue | .decreasedValueBy
  | .changedValue | .unchangedValue => if c.prevNull then 0 else c.size

/-- The byte loop of the exact comparison leaves at one of the first `got` bytes. -/
def LeavesWithin (c : Comparing) (mem : List Byte) (got : Nat) : Prop :=
  c.ct = .exactValue ∧ c.vt.isFloat = false ∧ ∃ j < got, c.leaves mem j = true

theorem memNeeds_le (c : Comparing) : c.memNeeds ≤ c.n := by
  have hsize := c.size_le_n
  rw [memNeeds]
  cases c.ct with
  | exactValue => exact Nat.le_refl _
  | fuzzyValue | valueBetween | increasedValue | increasedValueBy | decreasedValue | decreasedValueBy
  | changedValue | unchangedValue =>
    dsimp only
    split <;> omega
  | biggerThan | smallerThan | unknownInitialValue | unknownInitialLowValue => exact hsize

/-- **What `proc_scan_compareValues` loads of the memory.** -/
theorem memReads_le_iff (c : Comparing) (mem : List Byte) (got : Nat) :
    c.memReads mem ≤ got ↔ c.memNeeds ≤ got ∨ c.LeavesWithin mem got := by
  have hsize : ∀ {k : Nat}, c.size = k → k ≠ 0 → c.n = k := by
    rintro k rfl h0
    exact c.n_eq h0
  rw [memReads, memNeeds, LeavesWithin]
  cases hct : c.ct with
  | exactValue =>
    cases hvt : c.vt with
    | f32 =>
      have hn := hsize (by rw [size, hvt]; rfl : c.size = 4) (by decide)
      simp [hn, ValType.isFloat]
    | f64 =>
      have hn := hsize (by rw [size, hvt]; rfl : c.size = 8) (by decide)
      simp [hn, ValType.isFloat]
    | _ => simp [loopReads_le_iff, ValType.isFloat]
  | fuzzyValue =>
    cases hvt : c.vt with
    | f32 | f64 => simp [size, hvt, sizeOfValueType, ValType.isFloat]
    | _ => simp [ValType.isFloat]
  | _ => simp

/-- A comparison loads at most a value. -/
theorem memReads_le (c : Comparing) (mem : List Byte) : c.memReads mem ≤ c.n :=
  (c.memReads_le_iff mem c.n).mpr (.inl c.memNeeds_le)

/-- The finder does not leave the chunk. -/
theorem within_findMemReads (c : Comparing) (len : Nat) : Within len (c.findMemReads len) := by
  rw [findMemReads]
  split
  · intro x hx _
    rcases List.mem_append.mp hx with hx | hx
    · obtain ⟨q, hq, rfl⟩ := List.mem_map.mp hx
      have hlt := List.mem_range.mp hq
      dsimp only
      omega
    · obtain ⟨t, ht, rfl⟩ := List.mem_map.mp hx
      have hlt := List.mem_range.mp ht
      dsimp only
      omega
  split
  · exact within_nil
  next hsome =>
  intro x hx _
  obtain ⟨off, hoff, rfl⟩ := List.mem_map.mp hx
  have hle := le_of_mem_strideUpTo hoff
  dsimp only
  omega

end Comparing

/-! ## What is compared was read -/

/-- The loads of a scan from its chunk, as offset and size. -/
def ChunkScan.memReads (c : Comparing) : ChunkScan → List (Nat × Nat)
  | .find r => c.findMemReads r.len
  | .compare r probes => probes.map fun q => (q.off - r.off, c.memReads q.window)

/-- Where the scalar loop looks, it is in the chunk, if it holds a value; else it looks at its start. -/
theorem off_of_mem_scalarProbes {p : Pass} {r : ChunkRead} {q : Probe} (h : q ∈ scalarProbes p r) :
    q.off - r.off + p.valueLength ≤ r.len ∨ r.len < p.valueLength ∧ q.off - r.off = 0 := by
  obtain ⟨j, hj, rfl⟩ := List.mem_map.mp h
  have hle := le_of_mem_strideUpTo hj
  rw [Nat.add_sub_cancel_left]
  split at hle <;> omega

/-- The first window of a chunk is always compared. -/
theorem first_mem_scalarProbes (p : Pass) (r : ChunkRead) :
    ⟨r.off, slice r.src 0 p.valueLength⟩ ∈ scalarProbes p r :=
  List.mem_map.mpr ⟨0, zero_mem_strideUpTo _ _, rfl⟩

section Inside

variable {p : Pass} {s : ChunkScan} {lenData : UInt32}

theorem comparing_n (hp : p.Prepared lenData) : (p.comparing lenData).n = p.valueLength := hp.length_eq.symm

theorem memReads_le_valueLength (hp : p.Prepared lenData) (window : List Byte) :
    (p.comparing lenData).memReads window ≤ p.valueLength :=
  comparing_n hp ▸ (p.comparing lenData).memReads_le window

/-- A comparison only goes past the chunk if that is shorter than a value. -/
theorem load_inside_iff (hp : p.Prepared lenData) {r : ChunkRead} {q : Probe} (hq : q ∈ scalarProbes p r) :
    (0 < (p.comparing lenData).memReads q.window →
        q.off - r.off + (p.comparing lenData).memReads q.window ≤ r.len) ↔
      (r.len < p.valueLength → (p.comparing lenData).memNeeds ≤ r.len ∨
        (p.comparing lenData).LeavesWithin q.window r.len) := by
  have hload := memReads_le_valueLength hp q.window
  have hoff := off_of_mem_scalarProbes hq
  rw [← Comparing.memReads_le_iff]
  constructor
  · intro h hshort
    omega
  · intro h hpos
    omega

/-- **When a scan stays inside what was read**: in a chunk that is shorter than a value the comparator needs
no more than the chunk, or leaves inside it. -/
theorem within_memReads (hp : p.Prepared lenData) {simd : Bool} (hs : p.Scans simd s) :
    Within s.read.len (s.memReads (p.comparing lenData)) ↔
      (s.read.len < p.valueLength → ∀ q ∈ s.probes, (p.comparing lenData).memNeeds ≤ s.read.len ∨
        (p.comparing lenData).LeavesWithin q.window s.read.len) := by
  cases s with
  | find r =>
    refine iff_of_true (Comparing.within_findMemReads _ _) fun _ q hq => ?_
    cases hq
  | compare r probes =>
    rw [Within, ChunkScan.memReads, List.forall_mem_map]
    constructor
    · intro h hshort q hq
      exact (load_inside_iff hp (hs.probes q hq)).mp (h q hq) hshort
    · intro h q hq
      exact (load_inside_iff hp (hs.probes q hq)).mpr fun hshort => h hshort q hq

end Inside

/-! ## The result buffer -/

/-- How far into `result_buf` the next record goes: behind the length of the block and what there is of it,
if it is not flushed. -/
def recordEnd (v : Nat) (st : ResultBuf) : Nat :=
  let resultLen := if st.result.length > flushThresh v then 0 else st.result.length
  8 + resultLen + 4 + v

/-- Every record is written inside `result_buf`. -/
def RecordsFit (v : Nat) (rs : List ScanRecord) : Prop :=
  ∀ before rec, before ++ [rec] <+: rs →
    recordEnd v (before.foldl (ResultBuf.put (flushThresh v)) ⟨[], []⟩) ≤ 0x40000

/-- With room for a record behind the threshold, every record fits. -/
theorem recordsFit_of_le {v : Nat} (hv : v ≤ 0x3FFE8) (rs : List ScanRecord) : RecordsFit v rs := by
  intro before rec _
  have hthresh : flushThresh v = 0x3FFE8 - v := subU64_of_le hv (by decide)
  rw [recordEnd, hthresh]
  split <;> omega

/-- Without, nothing is flushed, and what fits is a single record at most. -/
theorem recordsFit_iff_of_lt {v : Nat} (hv : 0x3FFE8 < v) (hle : v ≤ 0x100000) {rs : List ScanRecord}
    (hlen : ∀ rec ∈ rs, rec.value.length = v) : RecordsFit v rs ↔ 8 + rs.length * (4 + v) ≤ 0x40000 := by
  have hthresh : flushThresh v = 2 ^ 64 - (v - 0x3FFE8) := subU64_of_lt hv (by omega)
  cases rs with
  | nil => exact iff_of_true (fun before rec h => by simp at h) (by simp)
  | cons first rest =>
    constructor
    · intro hfit
      have hfirst := hfit [] first ⟨rest, rfl⟩
      rw [recordEnd, List.foldl_nil] at hfirst
      cases rest with
      | nil =>
        simp at hfirst ⊢
        omega
      | cons second rest =>
        have hsecond := hfit [first] second ⟨rest, rfl⟩
        have hbytes : first.bytes.length = 4 + v := by
          rw [ScanRecord.bytes, List.length_append, length_leBytes, hlen first (List.mem_cons_self ..)]
        rw [recordEnd, List.foldl_cons, List.foldl_nil, ResultBuf.put, hthresh] at hsecond
        simp [hbytes] at hsecond
        split at hsecond <;> omega
    · intro hroom before rec hpre
      cases rest with
      | cons second rest =>
        rw [List.length_cons, List.length_cons, Nat.succ_mul, Nat.succ_mul] at hroom
        omega
      | nil =>
        have hnil : before = [] := by
          have hcount := hpre.length_le
          rw [List.length_append, List.length_singleton, List.length_singleton] at hcount
          exact List.eq_nil_of_length_eq_zero (by omega)
        rw [hnil, recordEnd, List.foldl_nil]
        simp at hroom ⊢
        omega

/-! ## When the buffers hold -/

/-- What a first scan relies on. -/
structure StartRun.BuffersHold (r : StartRun) : Prop where
  ends : r.pass.LoopsEnd
  inside : ∀ s ∈ r.scans, Within s.read.len (s.memReads (r.pass.comparing r.lenData))
  fits : RecordsFit r.pass.valueLength r.records

/-- **When the buffers of a first scan hold**: in a chunk that is shorter than a value, the comparator needs no
more than the chunk or leaves inside it; and there is room behind the threshold for a record, or there is
for all the windows that match. -/
theorem first_scan_buffers_iff (req : StartRequest) :
    (∀ r ∈ req.run, r.BuffersHold) ↔
      ∀ r ∈ req.run,
        (∀ s ∈ r.scans, s.read.len < r.pass.valueLength → ∀ q ∈ s.probes,
          (r.pass.comparing r.lenData).memNeeds ≤ s.read.len ∨
            (r.pass.comparing r.lenData).LeavesWithin q.window s.read.len) ∧
        (r.pass.valueLength ≤ 0x3FFE8 ∨
          8 + (r.pass.matching r.scans).length * (4 + r.pass.valueLength) ≤ 0x40000) := by
  refine forall₂_congr fun r hr => ?_
  have hp := StartRequest.run_prepared hr
  obtain ⟨simd, hscans⟩ := StartRequest.run_scans hr
  have hinside : (∀ s ∈ r.scans, Within s.read.len (s.memReads (r.pass.comparing r.lenData))) ↔ _ :=
    forall₂_congr fun s hs => within_memReads hp (hscans s hs)
  have hfits : RecordsFit r.pass.valueLength r.records ↔ r.pass.valueLength ≤ 0x3FFE8 ∨
      8 + (r.pass.matching r.scans).length * (4 + r.pass.valueLength) ≤ 0x40000 := by
    by_cases hv : r.pass.valueLength ≤ 0x3FFE8
    · exact iff_of_true (recordsFit_of_le hv _) (.inl hv)
    · rw [recordsFit_iff_of_lt (Nat.not_le.mp hv) hp.v_le (StartRequest.run_records hr),
        StartRequest.run_matching hr (by omega), or_iff_right hv]
  rw [← hinside, ← hfits]
  exact ⟨fun h => ⟨h.inside, h.fits⟩, fun h => ⟨loopsEnd hp, h.1, h.2⟩⟩

/-- An exact scan for a string of 0x3FFF5 bytes, over as many bytes. -/
def longString : FirstScanReq where
  sp :=
    { pid := 1
      address := 0
      length := 0x3FFF5
      valueType := 11
      compareType := 0
      alignment := 0
      lenData := 0x3FFF5 }
  ct := .exactValue
  ct_eq := rfl
  lenData_ne := by decide
  v_le := by decide
  notFloat := rfl

/-- The string is zeros, and so is the memory. -/
def zeroString : List Byte := List.replicate longString.g.v 0

def longStringRequest : StartRequest :=
  .scanStart (fun _ => 0) true true longString.sp zeroString [] fun _ => 0

/-- The string is found where the scan starts. -/
theorem longString_found :
    scanStartRecords (fun _ => 0) longString.sp (longString.pass zeroString []) (fun _ => 0) ≠ [] := by
  obtain ⟨chunks, hchunks⟩ := regionChunks_eq_cons longString (by decide)
  have hpos : 0 < min longString.L longString.g.c :=
    lt_min (by decide) (Nat.lt_of_lt_of_le longString.g.v_pos longString.g.le_c.1)
  have hmatch : (longString.pass zeroString []).compare zeroString = true := bytesEqual_iff.mpr fun _ _ => rfl
  rw [scanStartRecords, passHits]
  change ((chunkReads _ _ (regionChunks longString.g.c longString.g.v longString.g.step longString.L) _).flatMap
    _).map _ ≠ []
  rw [hchunks, chunkReads, readChunk_none, readInto_const, List.flatMap_cons]
  -- the first window is the string
  have hfirst := first_mem_scalarProbes (longString.pass zeroString [])
    ⟨0, min longString.L longString.g.c, prefixed 0 (min longString.L longString.g.c)
      (netAllocBuffer (fun _ => 0) longString.g.c)⟩
  dsimp only at hfirst
  rw [longString.pass_valueLength, slice_prefixed_const hpos (.inl rfl)] at hfirst
  exact List.ne_nil_of_mem (List.mem_map_of_mem (List.mem_append_left _ (List.mem_filter.mpr ⟨hfirst, hmatch⟩)))

/-- It is longer than the room behind the threshold. -/
theorem longString_run : ∃ r ∈ longStringRequest.run, r.pass.valueLength = 0x3FFF5 ∧ r.records ≠ [] := by
  have hrun := procScanStart_eq (fun _ => 0) (fun _ => 0) (by decide) (longString.preparePass_eq zeroString [])
  refine ⟨_, hrun, ?_, ?_⟩
  · rfl
  · dsimp only
    exact longString_found

/-- The record of a long string ends behind `result_buf`. -/
theorem long_string_overflows : ¬ ∀ req : StartRequest, ∀ r ∈ req.run, r.BuffersHold := by
  intro h
  obtain ⟨r, hr, hv, hfound⟩ := longString_run
  obtain ⟨rec, rest, hrecs⟩ := List.exists_cons_of_ne_nil hfound
  have hend := (h _ r hr).fits [] rec ⟨rest, hrecs.symm⟩
  rw [recordEnd, hv] at hend
  simp at hend

end Ps5Debugger

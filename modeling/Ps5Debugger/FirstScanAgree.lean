import Mathlib.Algebra.Order.BigOperators.Group.List
import Ps5Debugger.FirstScanExact

/-!
# The turbo first scan against the classic one

With no flags set, `proc_turboscan_start_handle` reads the region the same way
`proc_scan_start_handle` does and sends its records through the same blocks. What differs
is the search of a chunk: an exact scan on the element grid goes through
`scan_simd_find_exact`, which knows no strings and skips a chunk shorter than an element.
Everywhere else both run the same loop, and the streams can only differ by what the two
heaps leave behind a region shorter than one value.
-/

namespace Ps5Debugger

open Lib

/-- Both commands send the same bytes in the same sends — for all scan data, masks, target
memories and heap contents, with the finder's offset table allocated. -/
def StreamsAgree (req : FirstScanReq) : Prop :=
  ∀ (data maskData : List Byte) (mem : Memory) (raw : Buf) (env : TurboEnv mem),
    env.simdOffAlloc = true →
    scanStartStream mem req.sp (req.pass data maskData) raw =
      turboStartStream ⟨req.sp, 0⟩ (req.pass data maskData) env

/-- The requests the turbo scan searches with the exact finder. -/
def FinderReq (req : FirstScanReq) : Prop :=
  req.ct = .exactValue ∧ req.vt ≠ .arrBytes ∧ req.g.step = req.g.v

/-- The bytes of the first window behind the region are ones `net_alloc_buffer` clears. -/
def HeapCleared (req : FirstScanReq) : Prop :=
  ∀ i, req.L ≤ i → i < req.g.v → i % 0x1000 = 0 ∨ i + 1 = req.g.c

/-! ## The records of both commands -/

section Records

variable (req : FirstScanReq) (data maskData : List Byte)

theorem turboStartRecords_eq {mem : Memory} (env : TurboEnv mem) (halloc : env.simdOffAlloc = true) :
    turboStartRecords ⟨req.sp, 0⟩ (req.pass data maskData) env =
      (passHits (req.pass data maskData) (simdOk (req.pass data maskData) true)
        (none : Option (AliasEngine mem)) req.a req.L (netAllocBuffer env.raw req.g.c)).map
        (wireRecord req.a req.a) := by
  have hflags : ∀ bit, hasFlag 0 bit = false := fun bit => by simp [hasFlag]
  simp only [turboStartRecords, residentPass, parallelStream, hflags, halloc, Bool.not_false,
    Bool.true_or, if_true, Bool.false_eq_true, if_false, Option.getD_none]
  rfl

/-- Two copying passes compare the same windows when their heaps agree behind the first
chunk, as far as a value reaches. -/
theorem chunkProbes_agree (p : Pass) (mem : Memory) (scanAddr : Nat) (chunks : List (Nat × Nat)) :
    ∀ (buf buf' : Buf),
      (∀ i < p.valueLength, (∃ ch ∈ chunks.head?, i < ch.2) ∨ buf i = buf' i) →
      (chunkReads (none : Option (AliasEngine mem)) scanAddr chunks buf).flatMap (scalarProbes p) =
        (chunkReads (none : Option (AliasEngine mem)) scanAddr chunks buf').flatMap
          (scalarProbes p) := by
  induction chunks with
  | nil => intro buf buf' _; rfl
  | cons ch chunks ih =>
    intro buf buf' h
    simp only [chunkReads, readChunk_none, List.flatMap_cons]
    -- after the read the buffers agree as far as the chunk and as far as a value
    have hread : ∀ i, i < ch.2 ∨ i < p.valueLength →
        readInto mem buf (u64 (scanAddr + ch.1)) ch.2 i =
          readInto mem buf' (u64 (scanAddr + ch.1)) ch.2 i := by
      intro i hi
      rcases Nat.lt_or_ge i ch.2 with hlt | hge
      · rw [readInto_of_lt hlt, readInto_of_lt hlt]
      · rw [readInto_of_le hge, readInto_of_le hge]
        obtain ⟨ch', hhead, hlt⟩ | heq := h i (by omega)
        · obtain rfl : ch = ch' := by simpa using hhead
          omega
        · exact heq
    congr 1
    · rw [scalarProbes, scalarProbes]
      apply List.map_congr_left
      intro j hj
      congr 1
      refine slice_eq_iff.mpr fun i hi => hread (j + i) ?_
      rcases Nat.lt_or_ge ch.2 p.valueLength with hshort | hlong
      · -- a short chunk has the one window at its start
        rw [if_neg (by simp only; omega), strideUpTo, Nat.zero_div] at hj
        obtain rfl : j = 0 := by simpa using hj
        omega
      · rw [if_pos (show ch.2 ≥ p.valueLength from hlong)] at hj
        have hjle := le_of_mem_strideUpTo hj
        simp only at hjle
        omega
    · exact ih _ _ fun i hi => .inr (hread i (.inr hi))

/-- The windows of both passes agree once a value fits in the first chunk, or the bytes it
runs over are cleared. -/
theorem scalarPassProbes_agree (mem : Memory) (raw raw' : Buf) (hcl : HeapCleared req) :
    scalarPassProbes (req.pass data maskData) (none : Option (AliasEngine mem)) req.a req.L
        (netAllocBuffer raw req.g.c) =
      scalarPassProbes (req.pass data maskData) (none : Option (AliasEngine mem)) req.a req.L
        (netAllocBuffer raw' req.g.c) := by
  refine chunkProbes_agree _ mem req.a _ _ _ fun i hi => ?_
  have hc := req.g.le_c
  rw [req.pass_valueLength] at hi
  rcases Nat.lt_or_ge i req.L with hlt | hge
  · -- the first chunk of the region covers the byte
    obtain ⟨rest, hcons⟩ := regionChunks_eq_cons req (by omega)
    refine .inl ⟨(0, min req.L req.g.c), ?_, by simp only; omega⟩
    simp only [FirstScanReq.pass_chunkSize, FirstScanReq.pass_valueLength, FirstScanReq.pass_step,
      hcons]
    rfl
  · -- it is cleared in both buffers
    have hclear : (i < req.g.c ∧ i % 0x1000 = 0) ∨ i + 1 = req.g.c := by
      have := hcl i hge hi
      omega
    exact .inr (by rw [netAllocBuffer, netAllocBuffer, if_pos hclear, if_pos hclear])

/-- The hits of the turbo pass are the successful comparisons of the scalar one, when the
finder is not used or has only whole chunks of an integer type to search. -/
theorem passHits_turbo {mem : Memory} (buf : Buf)
    (h : ¬ FinderReq req ∨ (req.vt.isInteger = true ∧ req.g.NoShort req.L 0 req.L)) :
    passHits (req.pass data maskData) (simdOk (req.pass data maskData) true)
        (none : Option (AliasEngine mem)) req.a req.L buf =
      passHits (req.pass data maskData) false (none : Option (AliasEngine mem)) req.a req.L buf := by
  cases hsimd : simdOk (req.pass data maskData) true with
  | false => rfl
  | true =>
    obtain ⟨hct, hvt, hstep, -⟩ := (simdOk_pass req data maskData true).mp hsimd
    rcases h with hno | ⟨hint, hlong⟩
    · exact absurd ⟨hct, hvt, hstep⟩ hno
    · apply List.flatMap_congr
      intro r hr
      obtain ⟨-, -, hc, hmem⟩ := mem_reads req hr
      exact simdHits_eq_scalar req data maskData hct hint hstep (hlong _ hmem) hc

end Records

/-! ## Where they differ -/

section Differ

variable (req : FirstScanReq)

/-- A hit is a whole value. -/
theorem length_window_of_mem_chunkHits {p : Pass} {simd : Bool} {r : ChunkRead} {q : Probe}
    (h : q ∈ chunkHits p simd r) : q.window.length = p.valueLength := by
  rw [chunkHits] at h
  split at h
  · obtain ⟨k, -, rfl⟩ := List.mem_map.mp h
    exact length_slice _ _ _
  · obtain ⟨h, -⟩ := List.mem_filter.mp h
    obtain ⟨j, -, rfl⟩ := List.mem_map.mp h
    exact length_slice _ _ _

/-- Records that carry one value each have one width. -/
theorem length_value_of_passHits {p : Pass} {simd : Bool} {mem : Memory} {actx : Option (AliasEngine mem)}
    {scanAddr scanLen address base : Nat} {buf : Buf} :
    ∀ rec ∈ (passHits p simd actx scanAddr scanLen buf).map (wireRecord address base),
      rec.value.length = p.valueLength := by
  intro rec hrec
  obtain ⟨q, hq, rfl⟩ := List.mem_map.mp hrec
  obtain ⟨r, -, hq⟩ := List.mem_flatMap.mp hq
  exact length_window_of_mem_chunkHits hq

/-- Agreeing streams carry as many hits. -/
theorem length_hits_of_agree (h : StreamsAgree req) (data maskData : List Byte) (mem : Memory)
    (raw raw' : Buf) :
    (passHits (req.pass data maskData) false (none : Option (AliasEngine mem)) req.a req.L
        (netAllocBuffer raw req.g.c)).length =
      (passHits (req.pass data maskData) (simdOk (req.pass data maskData) true)
        (none : Option (AliasEngine mem)) req.a req.L (netAllocBuffer raw' req.g.c)).length := by
  have hstream := h data maskData mem raw (copyingEnv mem raw' true) rfl
  rw [scanStartStream, turboStartStream, turboStartRecords_eq req data maskData _ rfl] at hstream
  have hlen := length_eq_of_sendRecords_eq length_value_of_passHits length_value_of_passHits hstream
  rwa [List.length_map, List.length_map] at hlen

/-- Over a target of zeros, scanned exactly for zero through a cleared heap, every window of
the scalar pass is a hit. -/
theorem scalarHits_zero (hct : req.ct = .exactValue) :
    passHits (req.pass [] []) false (none : Option (AliasEngine fun _ => 0)) req.a req.L
        (netAllocBuffer (fun _ => 0) req.g.c) =
      scalarPassProbes (req.pass [] []) (none : Option (AliasEngine fun _ => 0)) req.a req.L
        (netAllocBuffer (fun _ => 0) req.g.c) := by
  rw [passHits_scalar, List.filter_eq_self]
  intro q hq
  obtain ⟨r, hr, hq⟩ := List.mem_flatMap.mp hq
  obtain ⟨j, -, rfl⟩ := List.mem_map.mp hq
  have hsrc : r.src = fun _ => 0 := by
    rw [passReads_prefixed req req.a _ r hr]
    funext i
    simp only [prefixed, netAllocBuffer, ite_self]
  have hwin : slice r.src j req.g.v = List.replicate req.g.v 0 := by
    rw [hsrc, slice, List.map_const', List.length_range]
  rw [req.pass_valueLength, hwin, pass_compare, hct]
  exact compareExact_zero req.notFloat _ _

theorem length_flatMap_lt {α β : Type} {l : List α} {f g : α → List β}
    (hle : ∀ x ∈ l, (f x).length ≤ (g x).length) {x : α} (hx : x ∈ l)
    (hlt : (f x).length < (g x).length) : (l.flatMap f).length < (l.flatMap g).length := by
  rw [List.length_flatMap, List.length_flatMap]
  exact List.sum_lt_sum _ _ hle ⟨x, hx, hlt⟩

/-- The finder never finds more than the loop compares, and nothing in a short chunk or at a
type without a size. -/
theorem simdHits_length (hfind : FinderReq req) {r : ChunkRead} (hc : r.len ≤ req.g.c) :
    (simdHits (req.pass [] []) r).length ≤ (scalarProbes (req.pass [] []) r).length ∧
      (req.vt.isInteger = false ∨ r.len < req.g.v →
        (simdHits (req.pass [] []) r).length < (scalarProbes (req.pass [] []) r).length) := by
  have hpos : 0 < (scalarProbes (req.pass [] []) r).length := by simp [scalarProbes, strideUpTo]
  obtain ⟨hct, -, hstep⟩ := hfind
  rcases req.isInteger_or_unsized with hvt | hvt
  · rcases Nat.lt_or_ge r.len req.g.v with hshort | hlong
    · rw [simdHits_of_short req [] [] hvt hshort]
      exact ⟨Nat.zero_le _, fun _ => hpos⟩
    · rw [simdHits_eq_scalar req [] [] hct hvt hstep hlong hc]
      refine ⟨List.length_filter_le _ _, ?_⟩
      rintro (h | h)
      · rw [hvt] at h
        cases h
      · omega
  · rw [simdHits_of_unsized (show sizeOfValueType (req.pass [] []).vt = 0 from hvt)]
    exact ⟨Nat.zero_le _, fun _ => hpos⟩

/-- Through the finder the streams only agree for an integer type and whole chunks. -/
theorem whole_of_agree (hfind : FinderReq req) (hL : req.L ≠ 0) (h : StreamsAgree req) :
    req.vt.isInteger = true ∧ req.g.NoShort req.L 0 req.L := by
  have hok : simdOk (req.pass [] []) true = true :=
    (simdOk_pass req [] [] true).mpr ⟨hfind.1, hfind.2.1, hfind.2.2, rfl⟩
  have hlen := length_hits_of_agree req h [] [] (fun _ => 0) (fun _ => 0) (fun _ => 0)
  rw [scalarHits_zero req hfind.1, hok] at hlen
  -- a chunk in which the finder falls behind tips the balance
  have hbehind : ∀ ch ∈ regionChunks req.g.c req.g.v req.g.step req.L,
      ¬ (req.vt.isInteger = false ∨ ch.2 < req.g.v) := by
    intro ch hch hbad
    have hmap := chunkReads_map (none : Option (AliasEngine fun _ => 0)) req.a
      (regionChunks req.g.c req.g.v req.g.step req.L) (netAllocBuffer (fun _ => 0) req.g.c)
    rw [← hmap] at hch
    obtain ⟨r, hr, rfl⟩ := List.mem_map.mp hch
    have hlt := length_flatMap_lt
      (fun r hr => (simdHits_length req hfind (mem_reads req hr).2.2.1).1) hr
      ((simdHits_length req hfind (mem_reads req hr).2.2.1).2 hbad)
    exact Nat.ne_of_lt hlt hlen.symm
  obtain ⟨rest, hcons⟩ := regionChunks_eq_cons req hL
  refine ⟨?_, fun ch hch => ?_⟩
  · have hfirst := hbehind (0, min req.L req.g.c) (by rw [hcons]; exact List.mem_cons_self ..)
    cases hvt : req.vt.isInteger with
    | true => rfl
    | false => exact absurd (.inl hvt) hfirst
  · have := hbehind ch hch
    omega

/-- The one window of every chunk of a region shorter than a value. -/
def shortWindow (r : Byte) : List Byte :=
  slice (prefixed 0 req.L (netAllocBuffer (fun _ => r) req.g.c)) 0 req.g.v

theorem scalarProbes_shortWindow (hlt : req.L < req.g.v) {data maskData : List Byte} {r : Byte}
    {cr : ChunkRead} (hr : cr ∈ chunkReads (none : Option (AliasEngine fun _ => 0)) req.a
      (regionChunks req.g.c req.g.v req.g.step req.L) (netAllocBuffer (fun _ => r) req.g.c)) :
    scalarProbes (req.pass data maskData) cr = [⟨cr.off, shortWindow req r⟩] := by
  obtain ⟨-, hend, -, -⟩ := mem_reads req hr
  have hc := req.g.le_c
  have hmin : min req.L req.g.c = req.L := by omega
  have hshort : ¬ cr.len ≥ (req.pass data maskData).valueLength := by
    rw [req.pass_valueLength]
    omega
  have hsrc := passReads_prefixed req req.a _ cr hr
  rw [hmin] at hsrc
  rw [scalarProbes, if_neg hshort, req.pass_step, strideUpTo_of_lt req.g.step_pos, hsrc]
  rfl

/-- A heap byte that decides the comparison decides the whole scan. -/
theorem heap_decides_hits (hlt : req.L < req.g.v) (hL : req.L ≠ 0) {data maskData : List Byte}
    {r : Byte} :
    (passHits (req.pass data maskData) false (none : Option (AliasEngine fun _ => 0)) req.a req.L
      (netAllocBuffer (fun _ => r) req.g.c) = []) ↔
        (req.pass data maskData).compare (shortWindow req r) = false := by
  rw [passHits, List.flatMap_eq_nil_iff]
  constructor
  · intro h
    obtain ⟨rest, hcons⟩ := regionChunks_eq_cons req hL
    have hmap := chunkReads_map (none : Option (AliasEngine fun _ => 0)) req.a
      (regionChunks req.g.c req.g.v req.g.step req.L) (netAllocBuffer (fun _ => r) req.g.c)
    have hfirst : (0, min req.L req.g.c) ∈ regionChunks req.g.c req.g.v req.g.step req.L := by
      rw [hcons]
      exact List.mem_cons_self ..
    rw [← hmap] at hfirst
    obtain ⟨cr, hcr, -⟩ := List.mem_map.mp hfirst
    have hnil := h cr hcr
    rw [chunkHits, if_neg (by decide), scalarProbes_shortWindow req hlt hcr,
      List.filter_eq_nil_iff] at hnil
    simpa using hnil
  · intro h cr hcr
    rw [chunkHits, if_neg (by decide), scalarProbes_shortWindow req hlt hcr, List.filter_eq_nil_iff]
    simpa using h

/-- Of a value of at most a page nothing behind the first byte is cleared. -/
theorem shortWindow_eq (hv : req.g.v ≤ 0x1000) (hlt : req.L < req.g.v) (hL : req.L ≠ 0) (r : Byte) :
    shortWindow req r = List.replicate req.L 0 ++ List.replicate (req.g.v - req.L) r := by
  have hc := req.g.le_c
  apply List.ext_getElem?
  intro i
  rw [shortWindow, getElem?_slice, Nat.zero_add, List.getElem?_append, List.length_replicate,
    List.getElem?_replicate, List.getElem?_replicate, prefixed]
  by_cases hi : i < req.L
  · rw [if_pos (by omega), if_pos hi, if_pos hi, if_pos hi]
  · rw [if_neg hi, if_neg hi]
    by_cases hiv : i < req.g.v
    · rw [if_pos hiv, if_pos (by omega), netAllocBuffer, if_neg (by omega)]
    · rw [if_neg hiv, if_neg (by omega)]

/-- The comparison of a first scan with an integer type, on a window of `n` zeros followed by
heap bytes `r`. -/
def heapCompare (ct : CmpType) (vt : ValType) (data : List Byte) (n : Nat) (r : Byte) : Bool :=
  compareValues ct vt (sizeOfValueType vt) (if ct.needsValue then data else [])
    (List.replicate n 0 ++ List.replicate (sizeOfValueType vt - n) r)
    (if ct = .valueBetween then some (data.drop (sizeOfValueType vt)) else none) none

/-- Every comparison that can report an integer tells some two heap bytes apart. -/
theorem exists_heapCompare {ct : CmpType} {vt : ValType} (hvt : vt.isInteger = true)
    (hrep : firstScanReports ct vt = true) :
    ∃ (r r' : Byte) (data : List Byte), ∀ n < sizeOfValueType vt, n ≠ 0 →
      heapCompare ct vt data n r = true ∧ heapCompare ct vt data n r' = false := by
  cases ct with
  | exactValue =>
    refine ⟨0, 1, [], ?_⟩
    cases vt <;> simp only [ValType.isInteger, Bool.false_eq_true] at hvt <;> decide
  | biggerThan =>
    refine ⟨1, 0, [], ?_⟩
    cases vt <;> simp only [ValType.isInteger, Bool.false_eq_true] at hvt <;> decide
  | smallerThan =>
    refine ⟨0, 1, [1], ?_⟩
    cases vt <;> simp only [ValType.isInteger, Bool.false_eq_true] at hvt <;> decide
  | valueBetween =>
    refine ⟨0, 1, [], ?_⟩
    cases vt <;> simp only [ValType.isInteger, Bool.false_eq_true] at hvt <;> decide
  | unknownInitialValue =>
    refine ⟨1, 0, [], ?_⟩
    cases vt <;> simp only [ValType.isInteger, Bool.false_eq_true] at hvt <;> decide
  | unknownInitialLowValue =>
    refine ⟨1, 0, List.replicate 8 1, ?_⟩
    cases vt <;> simp only [ValType.isInteger, Bool.false_eq_true] at hvt <;> decide
  | _ => cases hrep

/-- One byte that is not zero spoils an exact comparison with zeros. -/
theorem compareExact_of_byte {vt : ValType} (hvt : sizeOfValueType vt = 0) {v i : Nat} {w : List Byte}
    (hiv : i < v) (hbyte : w.getD i 0 = 1) :
    compareExact vt v [] w (if vt = .arrBytes then some (List.replicate v 1) else none) = false := by
  have hne : ([] : List Byte).getD i 0 ≠ w.getD i 0 := by
    rw [hbyte, List.getD_nil]
    decide
  have hmask : (List.replicate v 1#8)[i]?.getD 0#8 = 1#8 := by
    rw [List.getElem?_replicate, if_pos hiv, Option.getD_some]
  cases vt with
  | arrBytes =>
    rw [compareExact, maskedEqual, List.all_eq_false]
    refine ⟨i, List.mem_range.mpr hiv, ?_⟩
    simpa [hmask] using hne
  | other =>
    change bytesEqual v [] w = false
    rw [bytesEqual, List.all_eq_false]
    refine ⟨i, List.mem_range.mpr hiv, ?_⟩
    simpa using hne
  | _ => cases hvt

/-- Two heap bytes between which the comparison of the first window changes, for some scan
data. -/
theorem exists_heap_decides (hrep : firstScanReports req.ct req.vt = true) (hL : req.L ≠ 0)
    (hdirty : ¬ HeapCleared req) :
    ∃ (r r' : Byte) (data maskData : List Byte),
      (req.pass data maskData).compare (shortWindow req r) = true ∧
        (req.pass data maskData).compare (shortWindow req r') = false := by
  simp only [HeapCleared, not_forall] at hdirty
  obtain ⟨i, hLi, hiv, hi⟩ := hdirty
  have hlt : req.L < req.g.v := by omega
  rcases req.isInteger_or_unsized with hvt | hvt
  · obtain ⟨r, r', data, hdec⟩ := exists_heapCompare hvt hrep
    have hsize : req.g.v = sizeOfValueType req.vt := by
      refine req.v_eq_size ?_
      have := v_le_of_integer req hvt
      cases h : req.vt <;> simp_all [ValType.isInteger, sizeOfValueType]
    have hcmp : ∀ r : Byte, (req.pass data []).compare (shortWindow req r) =
        heapCompare req.ct req.vt data req.L r := by
      intro r
      have harr : req.vt ≠ .arrBytes := by
        intro harr
        rw [harr] at hvt
        cases hvt
      have hv := v_le_of_integer req hvt
      rw [pass_compare, shortWindow_eq req (by omega) hlt hL, heapCompare, hsize, if_neg harr]
    refine ⟨r, r', data, [], ?_⟩
    rw [hcmp, hcmp]
    exact hdec req.L (by omega) hL
  · -- without a size, only the exact comparison reports
    have hct : req.ct = .exactValue := by
      cases hct : req.ct <;> cases hv : req.vt <;>
        simp_all [firstScanReports, sizeOfValueType, ValType.isInteger]
    refine ⟨0, 1, [], List.replicate req.g.v 1, ?_, ?_⟩
    · have hzero : shortWindow req 0 = List.replicate req.g.v 0 :=
        slice_prefixed_const (by omega) (.inl rfl)
      rw [pass_compare, hct, hzero]
      exact compareExact_zero req.notFloat _ _
    · rw [pass_compare, hct]
      refine compareExact_of_byte hvt hiv ?_
      rw [shortWindow, getD_slice hiv, Nat.zero_add, prefixed, if_neg (by omega), netAllocBuffer,
        if_neg (by omega)]

end Differ

/-- **The turbo first scan streams what the classic one does exactly when** nothing is
scanned or reported, or its finder has only whole chunks of an integer type to search, or —
where it does not use the finder — no byte of the heap lies in the first window. -/
theorem streams_agree_iff (req : FirstScanReq) :
    StreamsAgree req ↔ req.L = 0 ∨ firstScanReports req.ct req.vt = false ∨
      (FinderReq req ∧ req.vt.isInteger = true ∧ (req.L % req.g.c = 0 ∨ req.g.v ≤ req.L % req.g.c)) ∨
      (¬ FinderReq req ∧ HeapCleared req) := by
  constructor
  · intro h
    by_cases hL : req.L = 0
    · exact .inl hL
    cases hrep : firstScanReports req.ct req.vt with
    | false => exact .inr (.inl rfl)
    | true =>
      by_cases hfind : FinderReq req
      · obtain ⟨hint, hlong⟩ := whole_of_agree req hfind hL h
        obtain h0 | ⟨-, hrest⟩ := (req.g.noShort_iff req.L).mp hlong
        · exact .inl h0
        · exact .inr (.inr (.inl ⟨hfind, hint, hrest⟩))
      · refine .inr (.inr (.inr ⟨hfind, ?_⟩))
        by_contra hdirty
        obtain ⟨r, r', data, maskData, hacc, hrej⟩ := exists_heap_decides req hrep hL hdirty
        have hlt : req.L < req.g.v := by
          by_contra hge
          exact hdirty fun i h1 h2 => by omega
        -- one heap makes the classic scan report, the other keeps the turbo scan silent
        have hlen := length_hits_of_agree req h data maskData (fun _ => 0) (fun _ => r) (fun _ => r')
        rw [passHits_turbo req data maskData _ (.inl hfind),
          (heap_decides_hits req hlt hL).mpr hrej, List.length_nil, List.length_eq_zero_iff,
          heap_decides_hits req hlt hL, hacc] at hlen
        cases hlen
  · intro hcond data maskData mem raw env halloc
    suffices hhits : passHits (req.pass data maskData) false (none : Option (AliasEngine mem)) req.a
        req.L (netAllocBuffer raw req.g.c) =
        passHits (req.pass data maskData) (simdOk (req.pass data maskData) true)
          (none : Option (AliasEngine mem)) req.a req.L (netAllocBuffer env.raw req.g.c) by
      rw [scanStartStream, turboStartStream, turboStartRecords_eq req data maskData env halloc,
        ← hhits]
      rfl
    rcases hcond with hL | hrep | ⟨hfind, hint, hrest⟩ | ⟨hfind, hcl⟩
    · simp [hL, passHits, regionChunks, scanChunks, chunkReads]
    · have hfind : ¬ FinderReq req := by
        rintro ⟨hct, -⟩
        rw [hct] at hrep
        cases hrep
      rw [passHits_turbo req data maskData _ (.inl hfind), passHits_scalar, passHits_scalar]
      simp only [compare_of_not_reports req data maskData hrep, List.filter_false]
    · have hlong : req.g.NoShort req.L 0 req.L :=
        (req.g.noShort_iff req.L).mpr (.inr ⟨by rw [hfind.2.2], hrest⟩)
      rw [passHits_turbo req data maskData _ (.inr ⟨hint, hlong⟩), passHits_scalar, passHits_scalar]
      rcases Nat.eq_zero_or_pos req.L with hL | hL
      · simp [hL, scalarPassProbes, regionChunks, scanChunks, chunkReads]
      · -- the region holds a value, so no heap byte is in reach
        have hfit : req.g.v ≤ req.L := by
          have hmod := Nat.mod_le req.L req.g.c
          have hc := req.g.le_c
          rcases hrest with h0 | hle
          · have := Nat.le_of_dvd hL (Nat.dvd_of_mod_eq_zero h0)
            omega
          · omega
        rw [scalarPassProbes_agree req data maskData mem raw env.raw fun i h1 h2 => by omega]
    · rw [passHits_turbo req data maskData _ (.inl hfind), passHits_scalar, passHits_scalar,
        scalarPassProbes_agree req data maskData mem raw env.raw hcl]

/-- Four bytes scanned for a four-byte string. -/
def stringReq : FirstScanReq where
  sp := { pid := 1, address := 0x1000, length := 4, valueType := 11, compareType := 0, alignment := 0,
          lenData := 4 }
  ct := .exactValue
  ct_eq := rfl
  lenData_ne := by decide
  v_le := by decide
  notFloat := rfl

/-- The classic scan finds the string, the turbo scan never does. -/
theorem string_streams_differ :
    (scanStartRecords (fun _ => 65) stringReq.sp (stringReq.pass [65, 65, 65, 65] []) (fun _ => 0) =
        [⟨0, [65, 65, 65, 65]⟩] ∧
      turboStartRecords ⟨stringReq.sp, 0⟩ (stringReq.pass [65, 65, 65, 65] [])
        (copyingEnv (fun _ => 65) (fun _ => 0) true) = []) ∧
    ¬ StreamsAgree stringReq := by
  refine ⟨⟨by decide, by decide⟩, fun h => ?_⟩
  have hagree := h [65, 65, 65, 65] [] (fun _ => 65) (fun _ => 0)
    (copyingEnv (fun _ => 65) (fun _ => 0) true) rfl
  revert hagree
  decide

end Ps5Debugger

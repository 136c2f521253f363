import Ps5Debugger.ResidentStart

/-!
# When resident and streaming first scans agree

Scan data, a target and surroundings for every range whose hits do not depend on the memory alone:
there a resident START stores what no non-resident START of the range streams. With the other
direction from `ResidentStart` this settles exactly which requests agree
(`resident_agrees_iff`).
-/

namespace Ps5Debugger

open Lib

/-! ## Where they disagree -/

/-- Behind any short chunk of zeros, bytes `b` make the comparison succeed and bytes `b'` make it
fail. -/
def TailDecides (req : FirstScanReq) (data maskData : List Byte) (b b' : Byte) : Prop :=
  ∀ k, k ≠ 0 → k < req.g.v →
    (req.pass data maskData).compare (List.replicate k 0 ++ List.replicate (req.g.v - k) b) = true ∧
      (req.pass data maskData).compare (List.replicate k 0 ++ List.replicate (req.g.v - k) b') = false

/-- Some scan data for which the bytes behind a short chunk decide. -/
theorem exists_tail_decides (req : FirstScanReq) (hrep : firstScanReports req.ct req.vt = true) :
    ∃ (b b' : Byte) (data maskData : List Byte), TailDecides req data maskData b b' := by
  rcases req.isInteger_or_unsized with hvt | hvt
  · obtain ⟨b, b', data, hdec⟩ := exists_heapCompare hvt hrep
    have hsize : req.g.v = sizeOfValueType req.vt := by
      refine req.v_eq_size ?_
      cases h : req.vt <;> simp_all [ValType.isInteger, sizeOfValueType]
    have harr : req.vt ≠ .arrBytes := by
      intro harr
      rw [harr] at hvt
      cases hvt
    have hcmp : ∀ (k : Nat) (b : Byte), (req.pass data []).compare
        (List.replicate k 0 ++ List.replicate (req.g.v - k) b) = heapCompare req.ct req.vt data k b := by
      intro k b
      rw [pass_compare, heapCompare, hsize, if_neg harr]
    refine ⟨b, b', data, [], fun k hk hlt => ?_⟩
    rw [hcmp, hcmp]
    exact hdec k (by omega) hk
  · -- without a size, only the exact comparison reports
    have hct : req.ct = .exactValue := by
      cases hct : req.ct <;> cases hv : req.vt <;>
        simp_all [firstScanReports, sizeOfValueType, ValType.isInteger]
    refine ⟨0, 1, [], List.replicate req.g.v 1, fun k hk hlt => ⟨?_, ?_⟩⟩
    · rw [pass_compare, hct, List.replicate_append_replicate, Nat.add_sub_of_le (by omega)]
      exact compareExact_zero req.notFloat _ _
    · rw [pass_compare, hct]
      refine compareExact_of_byte hvt (show req.g.v - 1 < req.g.v by omega) ?_
      rw [List.getD_append_right _ _ _ _ (by rw [List.length_replicate]; omega), List.length_replicate,
        List.getD_replicate _ (by omega)]

/-- An alias engine over a target of zeros, with `b` behind everything it maps. -/
def tailEngine (b : Byte) : AliasEngine fun _ => 0 where
  map _ len := some (prefixed 0 len fun _ => b)
  map_eq := by
    intro addr len buf h i hi
    rw [← Option.some.inj h, prefixed, if_pos hi, readMem]

/-- Surroundings that leave `b` behind what is read: in the heap, and behind an alias. -/
def tailEnv (b : Byte) (alloc : Bool) : TurboEnv fun _ => 0 :=
  { copyingEnv (fun _ => 0) (fun _ => b) alloc with aliasCtx := some (tailEngine b) }

/-- The reads of the tail engine. -/
theorem chunkReads_tail (b : Byte) (scanAddr : Nat) (chunks : List (Nat × Nat)) : ∀ buf : Buf,
    chunkReads (some (tailEngine b)) scanAddr chunks buf =
      chunks.map fun ch => ⟨ch.1, ch.2, prefixed 0 ch.2 fun _ => b⟩ := by
  induction chunks with
  | nil => intro buf; rfl
  | cons ch chunks ih =>
    intro buf
    rw [chunkReads, ih]
    rfl

/-- A window at the start of a short chunk shows the tail. -/
theorem slice_tail (b : Byte) {k v : Nat} (hk : k < v) :
    slice (prefixed 0 k fun _ => b) 0 v = List.replicate k 0 ++ List.replicate (v - k) b := by
  apply List.ext_getElem?
  intro i
  rw [getElem?_slice, Nat.zero_add, List.getElem?_append, List.length_replicate,
    List.getElem?_replicate, List.getElem?_replicate, prefixed]
  by_cases hi : i < k
  · rw [if_pos (by omega), if_pos hi, if_pos hi, if_pos hi]
  · rw [if_neg hi, if_neg hi]
    by_cases hiv : i < v
    · rw [if_pos hiv, if_pos (by omega)]
    · rw [if_neg hiv, if_neg (by omega)]

/-- The scalar loop makes one comparison in a short chunk. -/
theorem chunkHits_short (req : FirstScanReq) (data maskData : List Byte) {cr : ChunkRead}
    (hlt : cr.len < req.g.v) : chunkHits (req.pass data maskData) false cr =
      if (req.pass data maskData).compare (slice cr.src 0 req.g.v) then
        [⟨cr.off, slice cr.src 0 req.g.v⟩] else [] := by
  have hprobe : scalarProbes (req.pass data maskData) cr = [⟨cr.off, slice cr.src 0 req.g.v⟩] := by
    rw [scalarProbes, req.pass_valueLength, if_neg (show ¬ cr.len ≥ req.g.v by omega), req.pass_step,
      strideUpTo_of_lt req.g.step_pos]
    rfl
  rw [chunkHits, if_neg (by decide), hprobe, List.filter_singleton]
  cases (req.pass data maskData).compare (slice cr.src 0 req.g.v) <;> rfl

/-- Through the tail engine a whole chunk shows zeros only. -/
theorem chunkHits_whole (req : FirstScanReq) (data maskData : List Byte) (b b' : Byte) {off n : Nat}
    (hle : req.g.v ≤ n) :
    chunkHits (req.pass data maskData) false ⟨off, n, prefixed 0 n fun _ => b⟩ =
      chunkHits (req.pass data maskData) false ⟨off, n, prefixed 0 n fun _ => b'⟩ := by
  have hprobes : scalarProbes (req.pass data maskData) ⟨off, n, prefixed 0 n fun _ => b⟩ =
      scalarProbes (req.pass data maskData) ⟨off, n, prefixed 0 n fun _ => b'⟩ := by
    rw [scalarProbes, scalarProbes]
    apply List.map_congr_left
    intro j hj
    change j ∈ strideUpTo req.g.step (if n ≥ req.g.v then n - req.g.v else 0) at hj
    rw [if_pos hle] at hj
    have hjle := le_of_mem_strideUpTo hj
    congr 1
    refine slice_eq_iff.mpr fun i hi => ?_
    change i < req.g.v at hi
    change prefixed 0 n (fun _ => b) (j + i) = prefixed 0 n (fun _ => b') (j + i)
    rw [prefixed, prefixed, if_pos (by omega), if_pos (by omega)]
  simp only [chunkHits, Bool.false_eq_true, if_false, hprobes]

namespace ResidentReq

variable (r : ResidentReq)

section Tail

variable {r} {s : SnapSegment} {b b' : Byte} {data maskData : List Byte}

/-- A copied range that is shorter than a value reports through `b` alone. -/
theorem tail_hits_copied (hdec : TailDecides r.req data maskData b b') (hn : s.length.toNat ≠ 0)
    (hlt : s.length.toNat < r.req.g.v) :
    (passHits (r.req.pass data maskData) false (none : Option (AliasEngine fun _ => 0))
        s.address.toNat s.length.toNat (netAllocBuffer (fun _ => b') r.req.g.c)).length <
      (passHits (r.req.pass data maskData) false (none : Option (AliasEngine fun _ => 0))
        s.address.toNat s.length.toNat (netAllocBuffer (fun _ => b) r.req.g.c)).length := by
  have hwin := shortWindow_eq (r.req.onRange s) r.v_le hlt hn
  obtain ⟨hacc, hrej⟩ := hdec _ hn hlt
  have hnone : passHits (r.req.pass data maskData) false (none : Option (AliasEngine fun _ => 0))
      s.address.toNat s.length.toNat (netAllocBuffer (fun _ => b') r.req.g.c) = [] := by
    refine (heap_decides_hits (r.req.onRange s) hlt hn).mpr ?_
    rw [hwin]
    exact hrej
  have hsome : passHits (r.req.pass data maskData) false (none : Option (AliasEngine fun _ => 0))
      s.address.toNat s.length.toNat (netAllocBuffer (fun _ => b) r.req.g.c) ≠ [] := by
    intro hnil
    have hno := (@heap_decides_hits (r.req.onRange s) hlt hn data maskData b).mp hnil
    rw [hwin] at hno
    exact absurd (hacc.symm.trans hno) (by decide)
  rw [hnone, List.length_nil]
  exact List.length_pos_of_ne_nil hsome

/-- So does a short chunk through the tail engine. -/
theorem tail_hits_chunk (hdec : TailDecides r.req data maskData b b') {off n : Nat} (hn : n ≠ 0)
    (hlt : n < r.req.g.v) :
    (chunkHits (r.req.pass data maskData) false ⟨off, n, prefixed 0 n fun _ => b'⟩).length <
      (chunkHits (r.req.pass data maskData) false ⟨off, n, prefixed 0 n fun _ => b⟩).length := by
  obtain ⟨hacc, hrej⟩ := hdec n hn hlt
  rw [chunkHits_short r.req data maskData hlt, chunkHits_short r.req data maskData hlt,
    slice_tail b hlt, slice_tail b' hlt, hacc, hrej]
  exact Nat.zero_lt_one

/-- An aliased range with a short chunk in it. -/
theorem tail_hits_aliased (hdec : TailDecides r.req data maskData b b')
    (hshort : ¬ r.req.g.NoShort s.length.toNat 0 s.length.toNat) (buf buf' : Buf) :
    (passHits (r.req.pass data maskData) false (some (tailEngine b')) s.address.toNat
        s.length.toNat buf').length <
      (passHits (r.req.pass data maskData) false (some (tailEngine b)) s.address.toNat
        s.length.toNat buf).length := by
  simp only [Geometry.NoShort, not_forall] at hshort
  obtain ⟨ch, hch, hlt⟩ := hshort
  have hpos : ∀ ch ∈ regionChunks r.req.g.c r.req.g.v r.req.g.step s.length.toNat, ch.2 ≠ 0 := by
    intro ch hch
    obtain ⟨hpos, -⟩ := r.req.g.scanChunks_bounds _ _ _ ch hch
    omega
  -- chunk by chunk: a short one reports through `b` alone, a whole one through both
  rw [passHits, passHits, chunkReads_tail, chunkReads_tail, List.flatMap_map, List.flatMap_map]
  refine length_flatMap_lt (fun ch hch => ?_) hch (tail_hits_chunk hdec (hpos ch hch) (by omega))
  rcases Nat.lt_or_ge ch.2 r.req.g.v with hlt | hge
  · exact Nat.le_of_lt (tail_hits_chunk hdec (hpos ch hch) hlt)
  · rw [chunkHits_whole r.req data maskData b b' hge]

end Tail

/-- **The surroundings decide how much an unsettled range reports.** -/
theorem tail_hits_lt {s : SnapSegment} (hbad : ¬ RangeSettled r.req r.aliasing s.length.toNat)
    {b b' : Byte} {data maskData : List Byte} (hdec : TailDecides r.req data maskData b b') :
    (passHits (r.req.pass data maskData) false (if r.aliasing then some (tailEngine b') else none)
        s.address.toNat s.length.toNat (netAllocBuffer (fun _ => b') r.req.g.c)).length <
      (passHits (r.req.pass data maskData) false (if r.aliasing then some (tailEngine b) else none)
        s.address.toNat s.length.toNat (netAllocBuffer (fun _ => b) r.req.g.c)).length := by
  rw [RangeSettled, not_or, not_and] at hbad
  obtain ⟨hn, hbad⟩ := hbad
  cases halias : r.aliasing with
  | false =>
    -- a copied range is unsettled only when it is shorter than a value
    have hlt : s.length.toNat < r.req.g.v := by
      by_contra hge
      exact hbad (by omega) (.inl halias)
    exact tail_hits_copied hdec hn hlt
  | true =>
    refine tail_hits_aliased hdec ?_ _ _
    rw [r.req.g.noShort_iff, not_or]
    refine ⟨hn, fun hwhole => ?_⟩
    have hle : r.req.g.v ≤ s.length.toNat := by
      obtain ⟨-, hmod⟩ := hwhole
      have hc := r.req.g.le_c
      have hmodle := Nat.mod_le s.length.toNat r.req.g.c
      rcases hmod with h0 | hle
      · have := Nat.le_of_dvd (Nat.pos_of_ne_zero hn) (Nat.dvd_of_mod_eq_zero h0)
        omega
      · omega
    exact hbad hle (.inr hwhole)

/-- The stream of a range in the surroundings that leave `b` behind. -/
theorem turboStartRecords_tailEnv (s : SnapSegment) {p : Pass} {alloc : Bool}
    (hscalar : simdOk p alloc = false) (b : Byte) :
    turboStartRecords (r.streaming s) p (tailEnv b alloc) =
      (passHits p false (if r.aliasing then some (tailEngine b) else none) s.address.toNat
        s.length.toNat (netAllocBuffer (fun _ => b) p.chunkSize)).map
          (wireRecord s.address.toNat s.address.toNat) := by
  have halloc : simdOk p (tailEnv b alloc).simdOffAlloc = false := hscalar
  rw [turboStartRecords_streaming, halloc]
  simp only [parallelStream, Bool.not_false, Bool.or_true, Bool.true_or, if_true, Option.getD_none]
  rfl

end ResidentReq

/-- The blocks of a GET carry its entries. -/
theorem flatten_packEntries (cap : Nat) (es : List (List Byte)) :
    (packEntries cap es).flatten = es.flatten := by
  have hfold : ∀ (es : List (List Byte)) (st : List (List Byte) × List Byte),
      (es.foldl (packEntry cap) st).1.flatten ++ (es.foldl (packEntry cap) st).2 =
        st.1.flatten ++ st.2 ++ es.flatten := by
    intro es
    induction es with
    | nil => intro st; simp
    | cons e es ih =>
      intro st
      rw [List.foldl_cons, ih, packEntry]
      split <;> simp
  have hall := hfold es ([], [])
  rw [packEntries]
  simp only [List.flatten_nil, List.nil_append] at hall
  split
  · simpa using hall
  · next hnil =>
    rw [List.eq_nil_of_length_eq_zero (not_not.mp hnil), List.append_nil] at hall
    exact hall

/-- Equal GET replies list equally many survivors. -/
theorem length_eq_of_getReply_eq {recs recs' : List Rec} {v n : Nat} (hn : recs.length ≤ n)
    (hn' : recs'.length ≤ n) (hv : ∀ r ∈ recs, r.cur.length = v ∧ r.first = [])
    (hv' : ∀ r ∈ recs', r.cur.length = v ∧ r.first = [])
    (h : getReply false false recs 0 n = getReply false false recs' 0 n) :
    recs.length = recs'.length := by
  have hwidth : ∀ l : List Rec, (∀ r ∈ l, r.cur.length = v ∧ r.first = []) →
      (l.map (Rec.entry false)).flatten.length = l.length * (8 + 2 * v) := by
    intro l hl
    induction l with
    | nil => simp
    | cons r l ih =>
      obtain ⟨hcur, hfirst⟩ := hl r (List.mem_cons_self ..)
      have hentry : (r.entry false).length = 8 + 2 * v := by
        simp [Rec.entry, hcur, hfirst]
        omega
      rw [List.map_cons, List.flatten_cons, List.length_append, hentry,
        ih fun r' hr' => hl r' (List.mem_cons_of_mem _ hr'), List.length_cons]
      ring
  simp only [getReply, List.drop_zero, List.take_of_length_le hn, List.take_of_length_le hn',
    List.cons.injEq] at h
  have hflat := congrArg List.flatten h.2
  rw [flatten_packEntries, flatten_packEntries] at hflat
  have hlen := congrArg List.length hflat
  rw [hwidth recs hv, hwidth recs' hv'] at hlen
  exact Nat.eq_of_mul_eq_mul_right (by omega) hlen

/-- The survivors listed for some ranges: as many as were streamed, with the values streamed. -/
theorem zipWith_absolute (ranges : List SnapSegment) : ∀ results : List (List ScanRecord),
    ranges.length = results.length →
    (List.zipWith (fun s rs => rs.map (ScanRecord.absolute s)) ranges results).flatten.length =
        (results.map List.length).sum ∧
      ∀ x ∈ (List.zipWith (fun s rs => rs.map (ScanRecord.absolute s)) ranges results).flatten,
        ∃ rs ∈ results, ∃ rec ∈ rs, x.cur = rec.value ∧ x.first = [] := by
  induction ranges with
  | nil =>
    intro results hlen
    obtain rfl : results = [] := List.eq_nil_of_length_eq_zero hlen.symm
    simp
  | cons s ranges ih =>
    intro results hlen
    obtain ⟨rs, results, rfl⟩ := List.exists_cons_of_length_eq_add_one hlen.symm
    obtain ⟨hsum, hmem⟩ := ih results (by simpa using hlen)
    rw [List.zipWith_cons_cons, List.flatten_cons]
    refine ⟨by simp [hsum], fun x hx => ?_⟩
    rcases List.mem_append.mp hx with hx | hx
    · obtain ⟨rec, hrec, rfl⟩ := List.mem_map.mp hx
      exact ⟨rs, List.mem_cons_self .., rec, hrec, rfl, rfl⟩
    · obtain ⟨rs', hrs', hrec⟩ := hmem x hx
      exact ⟨rs', List.mem_cons_of_mem _ hrs', hrec⟩

namespace ResidentReq

variable (r : ResidentReq)

/-- Surroundings in which a session is to be had, with the segment list and a capacity. -/
def storingEnv (segs : List SnapSegment) (alloc : Bool) (cap : Nat) : TurboEnv fun _ => 0 :=
  { copyingEnv (fun _ => 0) (fun _ => 0) alloc with
    segs := some segs, sessionAlloc := true, sessionCap := cap }

/-- With room enough, a resident scan is stored. -/
theorem exists_stored (p : Pass) (hv : p.valueLength ≤ 0x1000) (segs : List SnapSegment) (alloc : Bool) :
    ∃ cap recs buf, r.resultOf p (storingEnv segs alloc cap) = some (true, recs, buf) := by
  obtain ⟨m, hm⟩ := exists_storeRanges p (simdOk p alloc) (none : Option (AliasEngine fun _ => 0))
    (if r.segmented then segs.map fun s => (s.address.toNat, s.length.toNat)
      else [(r.packet.address.toNat, r.packet.length.toNat)])
    (netAllocBuffer (fun _ => 0) p.chunkSize) []
  have hcap : m ≤ m * (8 + p.valueLength) / (8 + p.valueLength) := by
    rw [Nat.mul_div_cancel _ (by omega)]
  refine ⟨m * (8 + p.valueLength), ?_⟩
  have hstored := hm _ hcap
  rcases hs : storeRanges p (simdOk p alloc) (none : Option (AliasEngine fun _ => 0))
      (m * (8 + p.valueLength))
      (if r.segmented then segs.map fun s => (s.address.toNat, s.length.toNat)
        else [(r.packet.address.toNat, r.packet.length.toNat)])
      (netAllocBuffer (fun _ => 0) p.chunkSize) [] with ⟨stored, recs, buf⟩
  rw [hs] at hstored
  obtain rfl : stored = true := hstored
  refine ⟨recs, buf, ?_⟩
  have hres : hasFlag r.packet.flags TS_SERVER_RESIDENT = true := r.resident
  have hctx : (if hasFlag r.flags TS_USE_ALIASING then
      (storingEnv segs alloc (m * (8 + p.valueLength))).aliasCtx else none) = none := ite_self none
  rw [resultOf, hctx, residentPass, hres]
  simp only [Bool.not_true, Bool.false_eq_true, if_false]
  rw [if_pos ⟨hv, fun _ => rfl, rfl⟩]
  exact congrArg some hs

section Unique

variable {r} {segs : List SnapSegment} {alloc : Bool} {data maskData : List Byte}

/-- The fallback of a declined scan is every stream of its range, so these are equally long. -/
theorem Agrees.length_eq (h : r.Agrees segs alloc) (hseg : r.segmented = false)
    {env env' : TurboEnv fun _ => 0} (ha : env.simdOffAlloc = alloc) (ha' : env'.simdOffAlloc = alloc)
    (hv : ∀ rec ∈ turboStartRecords (r.streaming r.whole) (r.req.pass data maskData) env,
      rec.value.length = r.req.g.v)
    (hv' : ∀ rec ∈ turboStartRecords (r.streaming r.whole) (r.req.pass data maskData) env',
      rec.value.length = r.req.g.v) :
    (turboStartRecords (r.streaming r.whole) (r.req.pass data maskData) env).length =
      (turboStartRecords (r.streaming r.whole) (r.req.pass data maskData) env').length := by
  have hres : r.resultOf (r.req.pass data maskData) (copyingEnv (fun _ => 0) (fun _ => 0) alloc) =
      some (false, [], netAllocBuffer (fun _ => 0) r.req.g.c) := by
    have hres : hasFlag r.packet.flags TS_SERVER_RESIDENT = true := r.resident
    rw [resultOf, residentPass, hres]
    simp [copyingEnv]
  obtain ⟨-, hfall, -⟩ := h data maskData (fun _ => 0) (copyingEnv (fun _ => 0) (fun _ => 0) alloc)
    .threadLast rfl (.inl rfl) false [] _ hres
  obtain ⟨-, hfall⟩ := hfall rfl
  have heq := (hfall env .threadLast ha).symm.trans (hfall env' .threadLast ha')
  simp only [hseg, Bool.false_eq_true, if_false, List.cons.injEq, true_and,
    turboStartReply_streaming] at heq
  exact length_eq_of_sendRecords_eq hv hv' heq

/-- The session of a stored scan lists the records of any streams of its segments, so these are
equally many. -/
theorem Agrees.sum_eq (h : r.Agrees segs alloc) (hseg : r.segmented = true)
    {results results' : List (List ScanRecord)}
    (hall : List.Forall₂ (r.Streams alloc (r.req.pass data maskData) fun _ => 0) segs results)
    (hall' : List.Forall₂ (r.Streams alloc (r.req.pass data maskData) fun _ => 0) segs results')
    (hv : ∀ rs ∈ results, ∀ rec ∈ rs, rec.value.length = r.req.g.v)
    (hv' : ∀ rs ∈ results', ∀ rec ∈ rs, rec.value.length = r.req.g.v) :
    (results.map List.length).sum = (results'.map List.length).sum := by
  have hranges : r.ranges segs = segs := by rw [ranges, hseg]; rfl
  obtain ⟨cap, recs, buf, hres⟩ := r.exists_stored (r.req.pass data maskData) r.v_le segs alloc
  obtain ⟨hget, -⟩ := h data maskData (fun _ => 0) (storingEnv segs alloc cap) .threadLast rfl
    (.inr rfl) true recs buf hres
  obtain ⟨-, hget⟩ := hget rfl
  rw [hranges] at hget
  obtain ⟨hlen, hmem⟩ := zipWith_absolute segs _ hall.length_eq
  obtain ⟨hlen', hmem'⟩ := zipWith_absolute segs _ hall'.length_eq
  have hwidth : ∀ {results : List (List ScanRecord)} {x : Rec},
      (∀ rs ∈ results, ∀ rec ∈ rs, rec.value.length = r.req.g.v) →
      (∃ rs ∈ results, ∃ rec ∈ rs, x.cur = rec.value ∧ x.first = []) →
      x.cur.length = r.req.g.v ∧ x.first = [] := by
    rintro results x hv ⟨rs, hrs, rec, hrec, hcur, hfirst⟩
    rw [hcur]
    exact ⟨hv rs hrs rec hrec, hfirst⟩
  -- a count that asks for all of either list
  obtain ⟨n, hn, hn₀, hn₁⟩ : ∃ n, recs.length ≤ n ∧ (results.map List.length).sum ≤ n ∧
      (results'.map List.length).sum ≤ n :=
    ⟨max recs.length (max _ _), Nat.le_max_left .., Nat.le_trans (Nat.le_max_left ..)
      (Nat.le_max_right ..), Nat.le_trans (Nat.le_max_right ..) (Nat.le_max_right ..)⟩
  have heq := length_eq_of_getReply_eq (by rw [hlen]; exact hn₀) (by rw [hlen']; exact hn₁)
    (fun x hx => hwidth hv (hmem x hx)) (fun x hx => hwidth hv' (hmem' x hx))
    ((hget _ n hn hall).symm.trans (hget _ n hn hall'))
  rwa [hlen, hlen'] at heq

end Unique

/-- Where resident and streaming scans agree, the ranges are settled. -/
theorem settled_of_agrees {segs : List SnapSegment} {alloc : Bool} (h : r.Agrees segs alloc) :
    ∀ s ∈ r.ranges segs, r.Settled alloc s.length.toNat := by
  intro s hs
  by_contra hbad
  rw [Settled, not_or, not_or] at hbad
  obtain ⟨hrep, hscalar, hbad⟩ := hbad
  obtain ⟨b, b', data, maskData, hdec⟩ := exists_tail_decides r.req (by simpa using hrep)
  have hsimd : simdOk (r.req.pass data maskData) alloc = false := by
    rw [r.simdOk_data data maskData]
    simpa using hscalar
  -- two streams of the range, one longer than the other
  let f (b : Byte) (s : SnapSegment) :=
    turboStartRecords (r.streaming s) (r.req.pass data maskData) (tailEnv b alloc)
  have hvalue : ∀ (b : Byte) (s : SnapSegment), ∀ rec ∈ f b s, rec.value.length = r.req.g.v := by
    intro b s rec hrec
    simp only [f, r.turboStartRecords_tailEnv s hsimd] at hrec
    obtain ⟨q, hq, rfl⟩ := List.mem_map.mp hrec
    exact (passHits_inside r.req data maskData hq fun hs => by cases hs).2
  have hlt : (f b' s).length < (f b s).length := by
    simp only [f, r.turboStartRecords_tailEnv s hsimd, List.length_map]
    exact r.tail_hits_lt hbad hdec
  cases hseg : r.segmented with
  | false =>
    obtain rfl : s = r.whole := by
      rw [ranges, hseg] at hs
      simpa using hs
    have hlen : (f b r.whole).length = (f b' r.whole).length :=
      h.length_eq hseg rfl rfl (hvalue b r.whole) (hvalue b' r.whole)
    exact Nat.ne_of_lt hlt hlen.symm
  | true =>
    have hranges : r.ranges segs = segs := by rw [ranges, hseg]; rfl
    rw [hranges] at hs
    obtain ⟨l₁, l₂, hsplit⟩ := List.append_of_mem hs
    -- the other segments stream alike
    let results (x : List ScanRecord) := l₁.map (f b') ++ x :: l₂.map (f b')
    have hf : ∀ l : List SnapSegment,
        List.Forall₂ (r.Streams alloc (r.req.pass data maskData) fun _ => 0) l (l.map (f b')) := by
      intro l
      rw [List.forall₂_map_right_iff, List.forall₂_same]
      exact fun s _ => ⟨tailEnv b' alloc, rfl, rfl⟩
    have hall : ∀ b, List.Forall₂ (r.Streams alloc (r.req.pass data maskData) fun _ => 0) segs
        (results (f b s)) := by
      intro b
      rw [hsplit]
      exact List.rel_append (hf l₁) (.cons ⟨tailEnv b alloc, rfl, rfl⟩ (hf l₂))
    have hvalues : ∀ b, ∀ rs ∈ results (f b s), ∀ rec ∈ rs, rec.value.length = r.req.g.v := by
      intro b rs hrs rec hrec
      rcases List.mem_append.mp hrs with hrs | hrs
      · obtain ⟨s', -, rfl⟩ := List.mem_map.mp hrs
        exact hvalue b' s' rec hrec
      · rcases List.mem_cons.mp hrs with rfl | hrs
        · exact hvalue b s rec hrec
        · obtain ⟨s', -, rfl⟩ := List.mem_map.mp hrs
          exact hvalue b' s' rec hrec
    have heq := h.sum_eq hseg (hall b) (hall b') (hvalues b) (hvalues b')
    simp only [results, List.map_append, List.map_cons, List.sum_append, List.sum_cons] at heq
    omega

/-- **Resident and streaming first scans agree exactly when** nothing is ever reported, the
finder searches, or every scanned range is settled by the memory. -/
theorem resident_agrees_iff (segs : List SnapSegment) (alloc : Bool) :
    r.Agrees segs alloc ↔ firstScanReports r.req.ct r.req.vt = false ∨
      (FinderReq r.req ∧ alloc = true) ∨
      ∀ s ∈ r.ranges segs, RangeSettled r.req r.aliasing s.length.toNat := by
  have hfinder : simdOk (r.req.pass [] []) alloc = true ↔ FinderReq r.req ∧ alloc = true := by
    rw [simdOk_pass, FinderReq, and_assoc, and_assoc]
  constructor
  · intro h
    have hset := r.settled_of_agrees h
    by_cases hrep : firstScanReports r.req.ct r.req.vt = false
    · exact .inl hrep
    by_cases hfind : FinderReq r.req ∧ alloc = true
    · exact .inr (.inl hfind)
    refine .inr (.inr fun s hs => ?_)
    obtain hrep' | hfind' | hsettled := hset s hs
    · exact absurd hrep' hrep
    · exact absurd (hfinder.mp hfind') hfind
    · exact hsettled
  · intro h
    refine r.agrees_of_settled fun s hs => ?_
    obtain hrep | hfind | hsettled := h
    · exact .inl hrep
    · exact .inr (.inl (hfinder.mpr hfind))
    · exact .inr (.inr (hsettled s hs))

end ResidentReq

/-- Two bytes scanned for a four-byte value at every byte. -/
def everyByteReq : FirstScanReq where
  sp := { pid := 1, address := 0x1000, length := 2, valueType := 4, compareType := 0, alignment := 1,
          lenData := 4 }
  ct := .exactValue
  ct_eq := rfl
  lenData_ne := stringReq.lenData_ne
  v_le := twoByteReq.v_le
  notFloat := rfl

/-- The same scan, kept on the server. -/
def everyByteResident : ResidentReq where
  req := everyByteReq
  flags := 2
  resident := by decide
  noSnapshot := by decide
  v_le := by decide

/-- One heap makes the resident scan store a value that memory does not hold; over another heap
the stream of the same range is empty. -/
theorem resident_stores_heap :
    (everyByteResident.resultOf (everyByteReq.pass [7, 7, 9, 9] [])
        { copyingEnv (fun _ => 7) (fun _ => 9) true with
          sessionAlloc := true, sessionCap := 256 * 2 ^ 20 }).map
      (fun res => (res.1, res.2.1.map fun s => (s.addr, s.value))) =
        some (true, [(0x1000, [7, 7, 9, 9])]) ∧
    turboStartRecords (everyByteResident.streaming everyByteResident.whole)
      (everyByteReq.pass [7, 7, 9, 9] []) (copyingEnv (fun _ => 7) (fun _ => 5) true) = [] ∧
    ¬ everyByteResident.Agrees [] true := by
  refine ⟨by decide, by decide, fun h => ?_⟩
  obtain hrep | hfind | hset :=
    everyByteResident.settled_of_agrees h everyByteResident.whole (List.mem_cons_self ..)
  · exact absurd hrep (by decide)
  · exact absurd hfind (by decide)
  · obtain h0 | ⟨hle, -⟩ := hset
    · exact absurd h0 (by decide)
    · exact absurd hle (by decide)

end Ps5Debugger

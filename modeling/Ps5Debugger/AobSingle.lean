import Ps5Debugger.AobBlob
import Ps5Debugger.AobMerge
import Ps5Debugger.Compare
import Ps5Debugger.Net

/-!
# Searching for one pattern

`CMD_PROC_SCAN_AOB` (`proc_scan_aob_handle`, `scan.c`) looks for one masked pattern. It reads the
region chunk by chunk, each chunk far enough into the next for the patterns that straddle the two, and
counts the matches as they come, until it has met the occurrence asked for or, where that one must be
the only one, the next. `CMD_PROC_SCAN_AOB_MULTI` answers the same question for a blob of one entry.

The two agree but for regions shorter than the pattern. `aob_try` looks whether the pattern fits; here
the last position is clamped to zero and tested all the same, on what the buffer held before.
-/

namespace Ps5Debugger

open Lib

/-! ## The search -/

/-- `aob_match`. -/
def aobMatch (patternLength : Nat) (pattern memory mask : Buf) : Bool :=
  (List.range patternLength).all fun i => !(memory i != pattern i && mask i == 1)

/-- The counters of the search, and whether it is over (`found_done || invalidated`). -/
structure AobHits where
  matchCount : Nat
  matchAddr : Nat
  finished : Bool

/-- A match at `addr`. -/
def AobHits.hit (maxMatches : Nat) (stopUnique : Bool) (st : AobHits) (addr : Nat) : AobHits :=
  let matchCount := st.matchCount + 1
  if matchCount = maxMatches then
    { matchCount, matchAddr := addr, finished := st.finished || !stopUnique }
  else if matchCount > maxMatches ∧ stopUnique = true then
    { matchCount, matchAddr := 0, finished := true }
  else { st with matchCount }

/-- What the loops of the handler read. -/
structure AobScan where
  pattern : Buf
  mask : Buf
  plen : Nat
  maxMatches : UInt8
  stopUnique : Bool

/-- The positions of a chunk, `for (j = ...; j <= limit; j++)`, until the search is over. -/
def AobScan.positions (s : AobScan) (readBuf : Buf) (address limit : Nat) : Nat → Nat → AobHits → AobHits
  | 0, _, st => st
  | fuel + 1, j, st =>
    if j ≤ limit then
      let st :=
        if aobMatch s.plen s.pattern (view readBuf j) s.mask then
          st.hit s.maxMatches.toNat s.stopUnique (u64 (address + j))
        else st
      if st.finished then st else s.positions readBuf address limit fuel (j + 1) st
    else st

/-- The chunks, `while (remaining > 0)`. A chunk advances, so `fuel = remaining` is enough. -/
def AobScan.chunks (mem : Memory) (s : AobScan) (chunkSize : Nat) :
    Nat → Nat → Nat → Buf → AobHits → AobHits
  | 0, _, _, _, st => st
  | fuel + 1, address, remaining, readBuf, st =>
    if remaining > 0 then
      let toRead := if chunkSize < remaining then chunkSize else remaining
      let readBuf := readInto mem readBuf address toRead
      let limit := if toRead ≥ s.plen then toRead - s.plen else 0
      let st := s.positions readBuf address limit (limit + 1) 0 st
      if st.finished ∨ chunkSize ≥ remaining then st
      else
        let advance := chunkSize - s.plen + 1
        let remaining := if remaining > advance then remaining - advance else 0
        s.chunks mem chunkSize fuel (u64 (address + advance)) remaining readBuf st
    else st

/-! ## The handlers -/

/-- `struct cmd_proc_scan_aob_packet`, less the process. -/
structure AobPacket where
  address : UInt64
  length : UInt32
  maxMatches : UInt8
  stopFlag : UInt8
  patternLength : UInt32

/-- What `proc_scan_aob_handle` finds: which allocations succeed, and what they held before. -/
structure AobHeap where
  mallocs : Nat → Bool
  pattern : Buf
  mask : Buf
  readBuf : Buf

/-- `net_recv_all` into a fresh buffer, and what is left to receive. -/
def recvBuf (raw : Buf) (size : UInt32) (stream : List Byte) : Buf × List Byte :=
  let r := netRecvAll stream size.toInt32.toInt
  (blit (netAllocBuffer raw size.toNat) 0 (ofList r.got) r.got.length, r.rest)

/-- `chunk_size`: a multiple of the step. -/
def aobChunkSize (stepUnit : Nat) : Nat :=
  if 0x100000 % stepUnit ≠ 0 then 0x100000 / stepUnit * stepUnit else 0x100000

/-- `proc_scan_aob_handle`, on what the client sends: the address sent back, `none` for
`CMD_DATA_NULL`. -/
def procScanAobHandle (mem : Memory) (p : AobPacket) (stream : List Byte) (heap : AobHeap) : Option Nat :=
  if p.patternLength = 0 then none
  else
    let plen := p.patternLength.toNat
    let stepUnit := if sizeOfValueType .arrBytes = 0 then plen else sizeOfValueType .arrBytes
    if !bufferOk (heap.mallocs 0) plen then none
    else if !bufferOk (heap.mallocs 1) stepUnit then none
    else
      let (pattern, rest) := recvBuf heap.pattern p.patternLength stream
      let (mask, _) := recvBuf heap.mask (UInt32.ofNat stepUnit) rest
      let chunkSize := aobChunkSize stepUnit
      if !bufferOk (heap.mallocs 2) chunkSize then none
      else
        let s : AobScan := ⟨pattern, mask, plen, p.maxMatches, p.stopFlag == 1⟩
        some (s.chunks mem chunkSize p.length.toNat p.address.toNat p.length.toNat
          (netAllocBuffer heap.readBuf chunkSize) ⟨0, 0, false⟩).matchAddr

/-- `g_aob_scan_threads`. -/
def gAobScanThreads : Nat := 3

/-- `g_aob_chunk_size`. -/
def gAobChunkSize : Nat := 0x40000

/-- What `proc_scan_aob_multi_handle` finds: which allocations succeed, and what they held before. -/
structure AobMultiHeap where
  blobMalloc : Bool
  mallocs : Nat → Bool
  blob : Buf
  bidx : Nat → Nat
  widx : Nat → Nat
  readBufs : Nat → Buf
  found : Nat → AobFound

/-- With the tuning globals as they are. -/
def AobMultiHeap.env (heap : AobMultiHeap) : AobMultiEnv where
  threads := gAobScanThreads
  chunk := gAobChunkSize
  bidx := heap.bidx
  widx := heap.widx
  readBufs := heap.readBufs
  found := heap.found
  mallocs := heap.mallocs

/-- `proc_scan_aob_multi_handle` with the blob still to be received: the addresses sent back, `none` for
`CMD_DATA_NULL`. -/
def procScanAobMulti (mem : Memory) (p : AobMultiPacket) (stream : List Byte) (heap : AobMultiHeap)
    (fuel : Nat) : Option (Option (List Nat)) :=
  if p.patternsLength = 0 then some none
  else if !bufferOk heap.blobMalloc p.patternsLength.toNat then some none
  else
    (procScanAobMultiHandle mem p (recvBuf heap.blob p.patternsLength stream).1 heap.env fuel).map
      AobMultiScan.results

/-! ## The occurrence asked for -/

/-- The matches met so far, until the search is over. -/
def AobHits.next (maxMatches : Nat) (stopUnique : Bool) (st : AobHits) (addr : Nat) : AobHits :=
  if st.finished then st else st.hit maxMatches stopUnique addr

section Hits

variable {t : Nat} {unique : Bool}

/-- After the matches `ms`: the search is over once it has met the occurrence asked for, or one more. -/
structure AobHits.Met (t : Nat) (unique : Bool) (st : AobHits) (ms : List Nat) : Prop where
  finished : st.finished = if unique then decide (t < ms.length) else decide (1 ≤ t ∧ t ≤ ms.length)
  count : st.finished = false → st.matchCount = ms.length
  addr : st.matchAddr = if 1 ≤ t ∧ t ≤ ms.length ∧ (unique = true → ms.length = t) then
    ms.getD (t - 1) 0 else 0

theorem AobHits.met_start : AobHits.Met t unique ⟨0, 0, false⟩ [] := by
  refine ⟨?_, fun _ => rfl, ?_⟩
  · cases unique with
    | true => rfl
    | false => exact (decide_eq_false fun h => Nat.not_succ_le_zero 0 (h.1.trans h.2)).symm
  · rw [if_neg]
    exact fun h => Nat.not_succ_le_zero 0 (h.1.trans h.2.1)

theorem length_snoc (ms : List Nat) (m : Nat) : (ms ++ [m]).length = ms.length + 1 := by
  rw [List.length_append, List.length_singleton]

/-- Once the search is over, the occurrence asked for is among `ms`, or there is one more already. -/
theorem AobHits.Met.past {st : AobHits} {ms : List Nat} (h : st.Met t unique ms) (ho : st.finished = true)
    (m : Nat) : st.Met t unique (ms ++ [m]) := by
  have hover := h.finished
  rw [ho] at hover
  refine ⟨?_, fun hf => absurd (ho.symm.trans hf) Bool.noConfusion, ?_⟩
  · rw [ho, length_snoc]
    cases unique with
    | true => exact (decide_eq_true (by have := of_decide_eq_true hover.symm; omega)).symm
    | false => exact (decide_eq_true (by have := of_decide_eq_true hover.symm; omega)).symm
  · rw [h.addr, length_snoc]
    cases unique with
    | true =>
      have hlt := of_decide_eq_true hover.symm
      rw [if_neg fun h => Nat.ne_of_gt hlt (h.2.2 rfl), if_neg fun h => absurd (h.2.2 rfl) (by omega)]
    | false =>
      obtain ⟨h1, h2⟩ := of_decide_eq_true hover.symm
      rw [if_pos ⟨h1, h2, nofun⟩, if_pos ⟨h1, by omega, nofun⟩, List.getD_append _ _ _ _ (by omega)]

/-- Before, a match is counted, and looked at if it is the one asked for or the next. -/
theorem AobHits.Met.hit {st : AobHits} {ms : List Nat} (h : st.Met t unique ms) (ho : st.finished = false)
    (m : Nat) : (st.hit t unique m).Met t unique (ms ++ [m]) := by
  have hlen := length_snoc ms m
  have hover := h.finished
  have haddr := h.addr
  have hcount := h.count ho
  rw [ho] at hover
  have hroom : if unique then ms.length ≤ t else ¬ (1 ≤ t ∧ t ≤ ms.length) := by
    cases unique with
    | true => exact Nat.not_lt.mp (of_decide_eq_false hover.symm)
    | false => exact of_decide_eq_false hover.symm
  simp only [AobHits.hit, hcount]
  by_cases heq : ms.length + 1 = t
  · -- the occurrence asked for
    rw [if_pos heq]
    subst heq
    refine ⟨?_, fun _ => hlen.symm, ?_⟩
    · rw [ho, hlen, Bool.false_or]
      cases unique with
      | true => exact (decide_eq_false (Nat.lt_irrefl _)).symm
      | false => exact (decide_eq_true ⟨by omega, Nat.le_refl _⟩).symm
    · rw [hlen, if_pos ⟨by omega, Nat.le_refl _, fun _ => rfl⟩, Nat.add_sub_cancel,
        List.getD_append_right _ _ _ _ (Nat.le_refl _), Nat.sub_self]
      rfl
  · rw [if_neg heq]
    cases unique with
    | true =>
      have hle : ms.length ≤ t := hroom
      by_cases hmore : ms.length + 1 > t
      · rw [if_pos ⟨hmore, rfl⟩]
        refine ⟨?_, nofun, ?_⟩
        · rw [hlen]
          exact (decide_eq_true hmore).symm
        · rw [hlen, if_neg (fun h => heq (h.2.2 rfl))]
      · rw [if_neg (fun h => hmore h.1)]
        refine ⟨?_, fun _ => hlen.symm, ?_⟩
        · rw [hlen]
          exact ho.trans (decide_eq_false (by omega)).symm
        · rw [hlen, if_neg (by omega)]
          exact haddr.trans (if_neg (by omega))
    | false =>
      have hno : ¬ (1 ≤ t ∧ t ≤ ms.length) := hroom
      rw [if_neg (fun h => Bool.noConfusion h.2)]
      refine ⟨?_, fun _ => hlen.symm, ?_⟩
      · rw [hlen]
        exact ho.trans (decide_eq_false (by omega)).symm
      · rw [hlen, if_neg (by omega)]
        exact haddr.trans (if_neg (by omega))

theorem AobHits.Met.next {st : AobHits} {ms : List Nat} (h : st.Met t unique ms) (m : Nat) :
    (st.next t unique m).Met t unique (ms ++ [m]) := by
  rw [AobHits.next]
  by_cases ho : st.finished = true
  · rw [if_pos ho]
    exact h.past ho m
  · rw [if_neg ho]
    exact h.hit (Bool.eq_false_iff.mpr ho) m

/-- All matches: the address is that of the occurrence asked for. -/
theorem AobHits.Met.foldl (ms : List Nat) :
    (ms.foldl (AobHits.next t unique) ⟨0, 0, false⟩).Met t unique ms := by
  induction ms using List.reverseRecOn with
  | nil => exact AobHits.met_start
  | append_singleton ms m ih =>
    rw [List.foldl_append]
    exact ih.next m

theorem AobHits.foldl_next_of_over {st : AobHits} (h : st.finished = true) (ms : List Nat) :
    ms.foldl (AobHits.next t unique) st = st := by
  induction ms with
  | nil => rfl
  | cons m ms ih => rw [List.foldl_cons, AobHits.next, if_pos h, ih]

end Hits

/-! ## The chunks -/

/-- The pattern that is looked for. -/
def AobScan.pat (s : AobScan) : AobPat := ⟨s.pattern, s.mask, s.plen, s.maxMatches⟩

/-- A match counts. -/
def AobScan.count (s : AobScan) : AobHits → Nat → AobHits := AobHits.next s.maxMatches.toNat s.stopUnique

section Chunks

variable {s : AobScan}

/-- The loop over the positions counts the matches at them. -/
theorem AobScan.positions_eq (readBuf : Buf) (address limit : Nat) : ∀ (fuel j : Nat) {st : AobHits},
    st.finished = false → j + fuel = limit + 1 →
      s.positions readBuf address limit fuel j st =
        (((List.range' j fuel).filter fun j => aobMatchAt readBuf j s.pat).map fun j =>
          u64 (address + j)).foldl s.count st := by
  intro fuel
  induction fuel with
  | zero =>
    intro j st _ _
    rfl
  | succ fuel ih =>
    intro j st hst hj
    rw [AobScan.positions, if_pos (by omega), List.range'_succ, List.filter_cons]
    have hmatch : aobMatch s.plen s.pattern (view readBuf j) s.mask = aobMatchAt readBuf j s.pat := rfl
    have hnext : s.count st (u64 (address + j)) =
        st.hit s.maxMatches.toNat s.stopUnique (u64 (address + j)) := by
      rw [AobScan.count, AobHits.next, if_neg (by rw [hst]; exact Bool.false_ne_true)]
    rw [hmatch]
    by_cases hm : aobMatchAt readBuf j s.pat = true
    · rw [if_pos hm, if_pos hm, List.map_cons, List.foldl_cons, hnext]
      by_cases hover : (st.hit s.maxMatches.toNat s.stopUnique (u64 (address + j))).finished = true
      · rw [if_pos hover, AobScan.count, AobHits.foldl_next_of_over hover]
      · rw [if_neg hover]
        exact ih (j + 1) (Bool.not_eq_true _ ▸ hover) (by omega)
    · rw [if_neg hm, if_neg hm, if_neg (by rw [hst]; exact Bool.false_ne_true)]
      exact ih (j + 1) hst (by omega)

/-- The addresses at which the pattern occurs, from position `lo` of the region to `hi`. -/
def AobScan.found (s : AobScan) (mem : Memory) (address length lo hi : Nat) : List Nat :=
  (s.pat.occurrences (readMem mem address) length lo hi).map fun pos => u64 (address + pos)

/-- What the positions of a chunk find. -/
theorem AobScan.positions_found {mem : Memory} {address length pos toRead : Nat} (readBuf : Buf)
    (hle : s.plen ≤ toRead) (hfit : pos + toRead ≤ length) {st : AobHits}
    (hst : st.finished = false) :
    s.positions (readInto mem readBuf (u64 (address + pos)) toRead) (u64 (address + pos)) (toRead - s.plen)
        (toRead - s.plen + 1) 0 st =
      (s.found mem address length pos (pos + (toRead - s.plen + 1))).foldl s.count st := by
  rw [AobScan.positions_eq _ _ _ _ _ hst (Nat.zero_add _), AobScan.found, AobPat.occurrences,
    Nat.add_sub_cancel_left, List.range'_eq_map_range, List.range'_eq_map_range, List.filter_map,
    List.filter_map, List.map_map, List.map_map]
  congr 1
  have hfilter : (List.range (toRead - s.plen + 1)).filter
      ((fun j => aobMatchAt (readInto mem readBuf (u64 (address + pos)) toRead) j s.pat) ∘ (0 + ·)) =
      (List.range (toRead - s.plen + 1)).filter
        ((fun pos => decide (s.pat.OccursAt (readMem mem address) length pos)) ∘ (pos + ·)) := by
    refine List.filter_congr fun j hj => ?_
    rw [List.mem_range] at hj
    rw [Function.comp_apply, Function.comp_apply, Nat.zero_add, Bool.eq_iff_iff, decide_eq_true_iff,
      AobPat.aobMatchAt_iff, AobPat.OccursAt]
    have hbytes : ∀ k < s.pat.plen, readInto mem readBuf (u64 (address + pos)) toRead (j + k) =
        readMem mem address (pos + j + k) := by
      intro k hk
      have hk' : k < s.plen := hk
      rw [readInto_of_lt (by omega), readMem_add, view_apply, Nat.add_assoc]
    constructor
    · intro h
      refine ⟨show pos + j + s.plen ≤ length by omega, fun k hk hm => ?_⟩
      rw [← hbytes k hk, h k hk hm]
    · intro h k hk hm
      rw [hbytes k hk, h.2 k hk hm]
  rw [hfilter]
  refine List.map_congr_left fun j _ => ?_
  rw [Function.comp_apply, Function.comp_apply, u64, u64, u64, Nat.mod_add_mod, Nat.zero_add, Nat.add_assoc]

/-- Behind the last position at which it fits a pattern does not occur. -/
theorem AobPat.occurrences_behind {p : AobPat} {region : Buf} {length lo hi : Nat} (h : length < lo + p.plen) :
    p.occurrences region length lo hi = [] := by
  rw [AobPat.occurrences, List.filter_eq_nil_iff]
  intro pos hpos
  rw [List.mem_range'_1] at hpos
  rw [decide_eq_true_iff]
  exact fun hocc => absurd hocc.1 (by omega)

theorem AobScan.found_append {mem : Memory} {address length lo mid hi : Nat} (h1 : lo ≤ mid) (h2 : mid ≤ hi) :
    s.found mem address length lo mid ++ s.found mem address length mid hi =
      s.found mem address length lo hi := by
  rw [AobScan.found, AobScan.found, ← List.map_append, AobPat.occurrences_append h1 h2]
  rfl

/-- **The chunks count the occurrences** of the region from `pos` on, each once. The induction is on the
fuel; a chunk leaves at least a pattern's length to the next. -/
theorem AobScan.chunks_eq {mem : Memory} {chunkSize address length : Nat} (hplen : 0 < s.plen)
    (hchunk : s.plen ≤ chunkSize) : ∀ (fuel pos : Nat) (readBuf : Buf) {st : AobHits},
    st.finished = false → pos + s.plen ≤ length → length - pos ≤ fuel →
      s.chunks mem chunkSize fuel (u64 (address + pos)) (length - pos) readBuf st =
        (s.found mem address length pos length).foldl s.count st := by
  intro fuel
  induction fuel with
  | zero =>
    intro pos readBuf st _ hfit hfuel
    omega
  | succ fuel ih =>
    intro pos readBuf st hst hfit hfuel
    rw [AobScan.chunks, if_pos (by omega)]
    dsimp only
    by_cases hlast : chunkSize < length - pos
    · have hfound := @AobScan.found_append s mem address length pos (pos + (chunkSize - s.plen + 1)) length
        (by omega) (by omega)
      rw [if_pos hlast, if_pos (show chunkSize ≥ s.plen from hchunk),
        @AobScan.positions_found s mem address length pos chunkSize readBuf hchunk (by omega) st hst, ← hfound,
        List.foldl_append]
      generalize hst' : (s.found mem address length pos (pos + (chunkSize - s.plen + 1))).foldl s.count st = st'
      by_cases hover : st'.finished = true
      · rw [if_pos (.inl hover), AobScan.count, AobHits.foldl_next_of_over hover]
      · rw [if_neg (by rintro (h | h); exacts [hover h, by omega]), if_pos (by omega)]
        have hst'' : st'.finished = false := Bool.not_eq_true _ ▸ hover
        have hrest := ih (pos + (chunkSize - s.plen + 1)) (readInto mem readBuf (u64 (address + pos)) chunkSize)
          hst'' (by omega) (by omega)
        rw [← hrest]
        congr 1
        · rw [u64, u64, u64, Nat.mod_add_mod, Nat.add_assoc]
        · omega
    · have hfound := @AobScan.found_append s mem address length pos (pos + (length - pos - s.plen + 1)) length
        (by omega) (by omega)
      have hnil : s.found mem address length (pos + (length - pos - s.plen + 1)) length = [] := by
        rw [AobScan.found, AobPat.occurrences_behind (show length < _ + s.plen by omega)]
        rfl
      rw [if_neg hlast, if_pos (show length - pos ≥ s.plen by omega),
        @AobScan.positions_found s mem address length pos (length - pos) readBuf (by omega) (by omega) st hst,
        if_pos (.inr (by omega)), ← hfound, hnil, List.append_nil]

end Chunks

/-! ## One question, two commands -/

/-- What a client looks for. -/
structure AobQuery where
  address : UInt64
  length : UInt32
  count : UInt8
  stopFlag : UInt8
  pattern : List Byte
  mask : List Byte
  masked : mask.length = pattern.length
  nonempty : 0 < pattern.length
  bounded : pattern.length ≤ 0x100000

namespace AobQuery

/-- As `CMD_PROC_SCAN_AOB`. -/
def packet (q : AobQuery) : AobPacket :=
  ⟨q.address, q.length, q.count, q.stopFlag, UInt32.ofNat q.pattern.length⟩

/-- What follows that packet. -/
def stream (q : AobQuery) : List Byte := q.pattern ++ q.mask

/-- The blob of one entry. -/
def blob (q : AobQuery) : List Byte :=
  q.count.toBitVec :: (leBytes 4 q.pattern.length ++ (q.pattern ++ q.mask))

/-- As `CMD_PROC_SCAN_AOB_MULTI`. -/
def multiPacket (q : AobQuery) : AobMultiPacket :=
  ⟨q.address, q.length, q.stopFlag, UInt32.ofNat q.blob.length⟩

def pat (q : AobQuery) : AobPat := ⟨ofList q.pattern, ofList q.mask, q.pattern.length, q.count⟩

def request (q : AobQuery) : AobRequest := ⟨q.address, q.length, q.stopFlag == 1, [q.pat]⟩

variable (q : AobQuery)

theorem length_blob : q.blob.length = 5 + 2 * q.pattern.length := by
  have hmask := q.masked
  rw [blob, List.length_cons, List.length_append, length_leBytes, List.length_append]
  omega

theorem toNat_patternLength : (UInt32.ofNat q.pattern.length).toNat = q.pattern.length :=
  UInt32.toNat_ofNat_of_lt' (by have := q.bounded; show _ < 2 ^ 32; omega)

theorem toNat_patternsLength : (UInt32.ofNat q.blob.length).toNat = 5 + 2 * q.pattern.length := by
  rw [UInt32.toNat_ofNat_of_lt' (by have := q.bounded; show _ < 2 ^ 32; rw [length_blob]; omega), length_blob]

end AobQuery

/-- What was received is at the front of the buffer. -/
theorem recvBuf_append (raw : Buf) {size : UInt32} {l : List Byte} (rest : List Byte)
    (hsize : size.toNat = l.length) (hsmall : l.length < 2 ^ 31) :
    (∀ k < l.length, (recvBuf raw size (l ++ rest)).1 k = ofList l k) ∧
      (recvBuf raw size (l ++ rest)).2 = rest := by
  have hleft : size.toInt32.toInt.toNat = l.length := by
    rw [toNat_int, if_pos (by omega), hsize]
  simp only [recvBuf, netRecvAll_eq, hleft, List.take_left, List.drop_left, and_true]
  intro k hk
  rw [blit_zero_of_lt hk]

/-- The same pattern, in another buffer. -/
structure AobPat.Same (p p' : AobPat) : Prop where
  plen : p.plen = p'.plen
  count : p.targetCount = p'.targetCount
  pat : ∀ k < p.plen, p.pat k = p'.pat k
  msk : ∀ k < p.plen, p.msk k = p'.msk k

theorem AobPat.Same.occursAt {p p' : AobPat} (h : p.Same p') (region : Buf) (length pos : Nat) :
    p.OccursAt region length pos ↔ p'.OccursAt region length pos := by
  rw [AobPat.OccursAt, AobPat.OccursAt, ← h.plen]
  refine and_congr_right fun _ => forall₂_congr fun k hk => ?_
  rw [h.pat k hk, h.msk k hk]

theorem AobPat.Same.matchAt {p p' : AobPat} (h : p.Same p') (buf : Buf) (pos : Nat) :
    aobMatchAt buf pos p = aobMatchAt buf pos p' := by
  rw [Bool.eq_iff_iff, AobPat.aobMatchAt_iff, AobPat.aobMatchAt_iff, ← h.plen]
  refine forall₂_congr fun k hk => ?_
  rw [h.pat k hk, h.msk k hk]

/-- It gets the same answer. -/
theorem AobPat.Same.answer {p p' : AobPat} (h : p.Same p') (mem : Memory) {r r' : AobRequest}
    (haddr : r.address = r'.address) (hlength : r.length = r'.length)
    (hunique : r.stopUnique = r'.stopUnique) : p.answer mem r = p'.answer mem r' := by
  have hfound : ∀ region length lo hi, p.occurrences region length lo hi =
      p'.occurrences region length lo hi := by
    intro region length lo hi
    rw [AobPat.occurrences, AobPat.occurrences]
    exact List.filter_congr fun pos _ => decide_eq_decide.mpr (h.occursAt region length pos)
  simp only [AobPat.answer, hfound, h.count, haddr, hlength, hunique]

/-! ### The blob of one entry -/

section Blob

variable (q : AobQuery) {blob : Buf} (hblob : ∀ k < q.blob.length, blob k = ofList q.blob k)

include hblob in
theorem entry_patternLength : patternLength blob 0 = q.pattern.length := by
  have hlen := q.length_blob
  have hslice : slice blob (0 + 1) 4 = leBytes 4 q.pattern.length := by
    refine List.ext_getElem (by simp) fun k hk hk' => ?_
    rw [length_slice] at hk
    have hbyte := hblob (1 + k) (by omega)
    have hget : blob (0 + 1 + k) = (leBytes 4 q.pattern.length)[k] := by
      rw [show 0 + 1 + k = 1 + k by omega, hbyte, ofList, AobQuery.blob, Nat.add_comm 1 k, List.getD_cons_succ,
        List.getD_append _ _ _ _ (by rw [length_leBytes]; exact hk), List.getD_eq_getElem _ _ hk']
    simp only [slice, List.getElem_map, List.getElem_range]
    exact hget
  rw [patternLength, hslice, leNat_leBytes, Nat.mod_eq_of_lt (by have := q.bounded; omega)]

include hblob in
/-- The row of the table is what is looked for. -/
theorem entry_same : (entryPat blob 0).Same q.pat := by
  have hlen := q.length_blob
  have hplen := entry_patternLength q hblob
  have hmask := q.masked
  have hrest : ∀ k, ofList q.blob (5 + k) = ofList (q.pattern ++ q.mask) k := by
    intro k
    have hhead : (q.count.toBitVec :: leBytes 4 q.pattern.length).length = 5 := by
      rw [List.length_cons, length_leBytes]
    have happend := ofList_append_add (q.count.toBitVec :: leBytes 4 q.pattern.length) (q.pattern ++ q.mask) k
    rw [hhead, List.cons_append] at happend
    exact happend
  refine ⟨hplen, ?_, fun k hk => ?_, fun k hk => ?_⟩
  · have hbyte : blob 0 = q.count.toBitVec := hblob 0 (by omega)
    show UInt8.ofNat (blob 0).toNat = q.count
    rw [hbyte]
    exact UInt8.ofNat_toNat
  · have hk' : k < q.pattern.length := Nat.lt_of_lt_of_eq hk hplen
    show blob (0 + 5 + k) = ofList q.pattern k
    rw [Nat.zero_add, hblob _ (by omega), hrest, ofList, ofList, List.getD_append _ _ _ _ hk']
  · have hk' : k < q.pattern.length := Nat.lt_of_lt_of_eq hk hplen
    show blob (0 + 5 + patternLength blob 0 + k) = ofList q.mask k
    rw [hplen, Nat.zero_add, hblob _ (by omega), Nat.add_assoc, hrest, ofList_append_add]

include hblob in
/-- The blob is one entry that fits. -/
theorem entries_blob : Entries blob q.multiPacket.patternsLength.toNat 0 [0] := by
  have hlen : q.multiPacket.patternsLength.toNat = 5 + 2 * q.pattern.length := q.toNat_patternsLength
  have hplen := entry_patternLength q hblob
  have hbounded := q.bounded
  refine .entry ?_ (.stop ?_ ?_ ?_)
  · rw [Fits, hplen]
    omega
  all_goals
    rw [hplen]
    omega

end Blob

/-- No allocation of the handler fails. -/
def AobMultiHeap.ready (heap : AobMultiHeap) : Bool := heap.blobMalloc && (List.range 9).all heap.mallocs

theorem bufferOk_of {ok : Bool} {size : Nat} (hpos : 0 < size) (hlt : size < 2 ^ 32) : bufferOk ok size = ok := by
  rw [bufferOk, u32_of_lt hlt, bne_iff_ne.mpr (Nat.ne_of_gt hpos), Bool.true_and]

/-- With one pattern every allocation has a size. -/
theorem alloc_ready {heap : AobMultiHeap} {r : AobRequest} {p : AobPat} (hr : r.pats = [p]) {maxPlen : Nat}
    (hpos : 0 < maxPlen) (hmax : maxPlen ≤ 0x100000) :
    (allocTables heap.env 1 && allocBuffers heap.env r maxPlen) = (List.range 9).all heap.mallocs := by
  have hworkers : 0 < aobNumWorkers (aobSpan heap.env.threads r.length.toNat) r.length.toNat ∧
      aobNumWorkers (aobSpan heap.env.threads r.length.toNat) r.length.toNat ≤ 16 := by
    simp only [aobNumWorkers, aobScanThreadsMax]
    split <;> split <;> omega
  have hslots : aobSlotOff [p] 1 = p.targetCount.toNat + 1 := by
    have hcap := p.targetCount.toNat_lt
    show u32 (0 + (p.targetCount.toNat + 1)) = _
    rw [Nat.zero_add, u32_of_lt (by omega)]
  have hchunk : 0 < multiChunk heap.env.toAobEnv maxPlen ∧ multiChunk heap.env.toAobEnv maxPlen ≤ 0x100000 := by
    rw [multiChunk, show heap.env.chunk = 0x40000 from rfl]
    split <;> omega
  rw [allocTables, allocBuffers]
  simp only [hr, List.length_singleton, hslots]
  generalize aobNumWorkers (aobSpan heap.env.threads r.length.toNat) r.length.toNat = n at hworkers ⊢
  generalize multiChunk heap.env.toAobEnv maxPlen = c at hchunk ⊢
  have hbufs : bufferOk (heap.env.mallocs 5) (n * (c + maxPlen)) = heap.mallocs 5 :=
    bufferOk_of (Nat.mul_pos hworkers.1 (by omega))
      (Nat.lt_of_le_of_lt (Nat.mul_le_mul hworkers.2 (by omega : c + maxPlen ≤ 0x200000)) (by decide))
  have haddrs : bufferOk (heap.env.mallocs 6) (n * (p.targetCount.toNat + 1) * 8) = heap.mallocs 6 := by
    have hcap := p.targetCount.toNat_lt
    exact bufferOk_of (Nat.mul_pos (Nat.mul_pos hworkers.1 (Nat.succ_pos _)) (by decide))
      (Nat.lt_of_le_of_lt (Nat.mul_le_mul_right 8
        (Nat.mul_le_mul hworkers.2 (by omega : p.targetCount.toNat + 1 ≤ 256))) (by decide))
  rw [hbufs, haddrs, bufferOk_of (by omega) (by omega), bufferOk_of (by omega) (by omega),
    bufferOk_of (by omega) (by omega), bufferOk_of (by omega) (by omega), bufferOk_of (by omega) (by omega),
    bufferOk_of (by omega) (by omega), bufferOk_of (by omega) (by omega)]
  simp only [List.range_succ, List.range_zero, List.nil_append, List.cons_append, List.all_cons, List.all_nil,
    Bool.and_true, Bool.and_assoc]
  rfl

/-- Without its buffers it sends no address. -/
theorem multiReply_refused (mem : Memory) {p : AobMultiPacket} {blob : Buf} {env : AobMultiEnv}
    {st : EntryCount} {es : List Nat} (hes : Entries blob p.patternsLength.toNat 0 es)
    (hcounted : Counted blob .start es st) (hsmall : es.length < 2 ^ 16) (hbuf : ¬ BuffersOk p blob env es) :
    (multiReply mem p blob env st).results = none := by
  have hcount : st.patCount = es.length := by
    rw [hcounted.patCount, EntryCount.start, Nat.zero_add, Nat.mod_eq_of_lt hsmall]
  have hmax : st.maxPlen = es.foldl (longer blob) 1 := hcounted.maxPlen
  rw [multiReply, hcount, hmax, tableEntries_entries p.patternsLength.toNat_lt hes]
  cases htab : allocTables env es.length with
  | false => rfl
  | true =>
    have hno : allocBuffers env (p.request blob es) (es.foldl (longer blob) 1) = false := by
      rw [← Bool.not_eq_true]
      exact fun h => hbuf ⟨htab, h⟩
    dsimp only
    rw [hno]
    rfl

/-- The longest pattern is the only one. -/
theorem longest_single (q : AobQuery) {blob : Buf} (hblob : ∀ k < q.blob.length, blob k = ofList q.blob k) :
    [0].foldl (longer blob) 1 = q.pattern.length := by
  have hnonempty := q.nonempty
  rw [List.foldl_cons, List.foldl_nil, longer, entry_patternLength q hblob]
  split <;> omega

/-- With its buffers it sends the answer. -/
theorem multiReply_answer (q : AobQuery) (mem : Memory) (heap : AobMultiHeap) {blob : Buf} {st : EntryCount}
    (hblob : ∀ k < q.blob.length, blob k = ofList q.blob k) (hcounted : Counted blob .start [0] st)
    (hok : BuffersOk q.multiPacket blob heap.env [0]) :
    (multiReply mem q.multiPacket blob heap.env st).results = some [q.pat.answer mem q.request] := by
  have hbounded := q.bounded
  have hnonempty := q.nonempty
  have hanswer : (entryPat blob 0).answer mem (q.multiPacket.request blob [0]) = q.pat.answer mem q.request :=
    (entry_same q hblob).answer mem rfl rfl rfl
  have hrow : (entryPat blob 0).plen = q.pattern.length := entry_patternLength q hblob
  have hpats : (q.multiPacket.request blob [0]).pats = [entryPat blob 0] := rfl
  have hlongest : aobMaxPlen (q.multiPacket.request blob [0]).pats = q.pattern.length := longest_single q hblob
  rw [multiReply_entries mem (entries_blob q hblob) hcounted (by decide) hok]
  show some (aobSearch mem (q.multiPacket.request blob [0]) heap.env.toAobEnv) = _
  rw [aob_search_answers, hpats, List.map_singleton, hanswer]
  · intro p hp
    obtain rfl := List.mem_singleton.mp (hpats ▸ hp)
    omega
  · rw [AobEnv.chunkSize, hlongest, show heap.env.chunk = 0x40000 from rfl]
    split <;> omega
  · have hcap := (entryPat blob 0).targetCount.toNat_lt
    rw [hpats, List.map_singleton, List.sum_singleton, AobPat.cap]
    omega

/-- **The multi scan answers the question**, if it gets its buffers. -/
theorem procScanAobMulti_eq (q : AobQuery) (mem : Memory) (heap : AobMultiHeap) :
    ∃ fuel, procScanAobMulti mem q.multiPacket q.blob heap fuel =
      some (if heap.ready then some [q.pat.answer mem q.request] else none) := by
  have hlen : q.multiPacket.patternsLength.toNat = 5 + 2 * q.pattern.length := q.toNat_patternsLength
  have hbounded := q.bounded
  have hnonempty := q.nonempty
  have hne : q.multiPacket.patternsLength ≠ 0 := by
    intro h
    rw [h] at hlen
    have hzero : (0 : UInt32).toNat = 0 := rfl
    omega
  have hrecv := (@recvBuf_append heap.blob q.multiPacket.patternsLength q.blob []
    (hlen.trans q.length_blob.symm) (by rw [q.length_blob]; omega)).1
  rw [List.append_nil] at hrecv
  generalize hbuf : (recvBuf heap.blob q.multiPacket.patternsLength q.blob).1 = blob at hrecv
  have hentries := entries_blob q hrecv
  obtain ⟨fuel, st, hloop, hcounted⟩ := countEntries_halts q.multiPacket.patternsLength.toNat_lt hentries
    (rfl : EntryCount.start.cursor = 0) (by decide)
  refine ⟨fuel, ?_⟩
  rw [procScanAobMulti, if_neg hne, bufferOk_of (by omega) (by omega)]
  cases hblob : heap.blobMalloc with
  | false =>
    rw [AobMultiHeap.ready, hblob]
    rfl
  | true =>
    have hready := @alloc_ready heap (q.multiPacket.request blob [0]) _ rfl _ hnonempty hbounded
    rw [← longest_single q hrecv] at hready
    rw [AobMultiHeap.ready, hblob, Bool.true_and, ← hready]
    show (procScanAobMultiHandle mem q.multiPacket _ heap.env fuel).map AobMultiScan.results = _
    rw [hbuf, procScanAobMultiHandle, hloop, Option.map_some, Option.map_some]
    congr 1
    by_cases hok : BuffersOk q.multiPacket blob heap.env [0]
    · rw [multiReply_answer q mem heap hrecv hcounted hok, if_pos]
      rw [Bool.and_eq_true]
      exact hok
    · rw [multiReply_refused mem hentries hcounted (by decide) hok, if_neg]
      rw [Bool.and_eq_true]
      exact hok

/-! ### The answer of the single scan -/

/-- No allocation of the handler fails. -/
def AobHeap.ready (heap : AobHeap) : Bool := (List.range 3).all heap.mallocs

/-- A region shorter than the pattern: the first match was asked for, and the region's bytes match with
what the fresh buffer holds behind them. -/
def AobQuery.Stray (q : AobQuery) (mem : Memory) (raw : Buf) : Prop :=
  0 < q.length.toNat ∧ q.length.toNat < q.pattern.length ∧ q.count = 1 ∧ q.address ≠ 0 ∧
    aobMatchAt (readInto mem (netAllocBuffer raw (aobChunkSize q.pattern.length)) q.address.toNat
      q.length.toNat) 0 q.pat = true

instance (q : AobQuery) (mem : Memory) (raw : Buf) : Decidable (q.Stray mem raw) :=
  inferInstanceAs (Decidable (_ ∧ _))

/-- A chunk is at least as long as the pattern. -/
theorem aobChunkSize_spec {plen : Nat} (hpos : 0 < plen) (hle : plen ≤ 0x100000) :
    plen ≤ aobChunkSize plen ∧ aobChunkSize plen ≤ 0x100000 := by
  have hmul := Nat.div_mul_le_self 0x100000 plen
  have hone : 1 ≤ 0x100000 / plen := (Nat.one_le_div_iff hpos).mpr hle
  rw [aobChunkSize]
  split
  · exact ⟨Nat.le_mul_of_pos_left plen hone, hmul⟩
  · exact ⟨hle, Nat.le_refl _⟩

/-- A pattern longer than the region is not in it. -/
theorem AobPat.answer_of_short {p : AobPat} {mem : Memory} {r : AobRequest} (h : r.length.toNat < p.plen) :
    p.answer mem r = 0 := by
  rw [AobPat.answer, AobPat.occurrences_behind (by omega)]
  exact if_neg fun hc => Nat.not_succ_le_zero 0 (hc.1.trans hc.2.1)

section Single

variable {q : AobQuery} {s : AobScan} (hsame : s.pat.Same q.pat) (hunique : s.stopUnique = (q.stopFlag == 1))

include hsame hunique in
/-- The chunks of a region in which the pattern has room. -/
theorem chunks_answer (mem : Memory) (readBuf : Buf) (hroom : q.pattern.length ≤ q.length.toNat) :
    (s.chunks mem (aobChunkSize q.pattern.length) q.length.toNat q.address.toNat q.length.toNat readBuf
      ⟨0, 0, false⟩).matchAddr = q.pat.answer mem q.request := by
  have hplen : s.plen = q.pattern.length := hsame.plen
  have hnonempty := q.nonempty
  obtain ⟨hchunk, -⟩ := aobChunkSize_spec hnonempty q.bounded
  have hcount := @AobScan.chunks_eq s mem (aobChunkSize q.pattern.length) q.address.toNat q.length.toNat
    (by omega) (by omega) q.length.toNat 0 readBuf ⟨0, 0, false⟩ rfl (by omega) (by omega)
  rw [Nat.sub_zero, Nat.add_zero, u64_of_lt q.address.toNat_lt] at hcount
  have hmet := (@AobHits.Met.foldl s.maxMatches.toNat s.stopUnique
    (s.found mem q.address.toNat q.length.toNat 0 q.length.toNat)).addr
  have hanswer : s.pat.answer mem q.request = q.pat.answer mem q.request := hsame.answer mem rfl rfl rfl
  rw [hcount, AobScan.count, hmet, ← hanswer, AobPat.answer, AobScan.found, List.length_map, hunique]
  refine if_ctx_congr Iff.rfl (fun hc => ?_) fun _ => rfl
  have hlt := Nat.sub_one_lt_of_le hc.1 hc.2.1
  rw [List.getD_eq_getElem _ _ (by rw [List.length_map]; exact hlt), List.getElem_map]
  exact congrArg (fun pos => u64 (q.address.toNat + pos)) (List.getD_eq_getElem _ _ hlt).symm

/-- The first match, if that is the one asked for. -/
theorem AobHits.hit_first (t : Nat) (unique : Bool) (addr : Nat) :
    (AobHits.hit t unique ⟨0, 0, false⟩ addr).matchAddr = if t = 1 then addr else 0 := by
  rw [AobHits.hit]
  by_cases h1 : t = 1
  · rw [if_pos h1, if_pos h1.symm]
  · rw [if_neg h1, if_neg (fun h => h1 h.symm)]
    split <;> rfl

/-- A loop over one position. -/
theorem AobScan.positions_one (readBuf : Buf) (address : Nat) (st : AobHits) :
    s.positions readBuf address 0 (0 + 1) 0 st =
      if aobMatchAt readBuf 0 s.pat = true then st.hit s.maxMatches.toNat s.stopUnique (u64 address) else st := by
  have hend : ∀ st : AobHits, (if st.finished then st else s.positions readBuf address 0 0 (0 + 1) st) = st := by
    intro st
    split <;> rfl
  rw [AobScan.positions, if_pos (Nat.le_refl 0)]
  exact hend _

include hsame in
/-- The only position of a shorter region. -/
theorem chunks_short (mem : Memory) (raw : Buf) (hshort : q.length.toNat < q.pattern.length) :
    (s.chunks mem (aobChunkSize q.pattern.length) q.length.toNat q.address.toNat q.length.toNat
      (netAllocBuffer raw (aobChunkSize q.pattern.length)) ⟨0, 0, false⟩).matchAddr =
      if q.Stray mem raw then q.address.toNat else 0 := by
  have hplen : s.plen = q.pattern.length := hsame.plen
  have hcount : s.maxMatches = q.count := hsame.count
  obtain ⟨hchunk, -⟩ := aobChunkSize_spec q.nonempty q.bounded
  have hstray : q.Stray mem raw ↔ 0 < q.length.toNat ∧ q.length.toNat < q.pattern.length ∧ q.count = 1 ∧
      q.address ≠ 0 ∧ aobMatchAt (readInto mem (netAllocBuffer raw (aobChunkSize q.pattern.length))
        q.address.toNat q.length.toNat) 0 s.pat = true := by
    rw [AobQuery.Stray, hsame.matchAt]
  rw [if_congr hstray rfl rfl]
  generalize netAllocBuffer raw (aobChunkSize q.pattern.length) = fresh
  generalize aobChunkSize q.pattern.length = chunk at hchunk
  generalize hn : q.length.toNat = n at hshort
  cases n with
  | zero =>
    rw [if_neg fun h => Nat.lt_irrefl 0 h.1]
    rfl
  | succ n =>
    rw [AobScan.chunks, if_pos (Nat.succ_pos n)]
    dsimp only
    rw [if_neg (by omega : ¬ chunk < n + 1), if_neg (by omega : ¬ n + 1 ≥ s.plen), if_pos (.inr (by omega)),
      AobScan.positions_one, u64_of_lt q.address.toNat_lt]
    have hone : s.maxMatches.toNat = 1 ↔ q.count = 1 := by
      rw [hcount, ← UInt8.toNat_inj]
      rfl
    have hzero : q.address = 0 → q.address.toNat = 0 := by
      intro h
      rw [h]
      rfl
    by_cases hm : aobMatchAt (readInto mem fresh q.address.toNat (n + 1)) 0 s.pat = true
    · rw [if_pos hm, AobHits.hit_first]
      by_cases h1 : q.count = 1
      · rw [if_pos (hone.mpr h1)]
        by_cases h0 : q.address = 0
        · rw [if_neg (fun h => h.2.2.2.1 h0), hzero h0]
        · rw [if_pos ⟨Nat.succ_pos n, hshort, h1, h0, hm⟩]
      · rw [if_neg (fun h => h1 (hone.mp h)), if_neg fun h => h1 h.2.2.1]
    · rw [if_neg hm, if_neg fun h => hm h.2.2.2.2]

end Single

/-- **The single scan answers the same question**, but for stray matches. -/
theorem procScanAobHandle_eq (q : AobQuery) (mem : Memory) (heap : AobHeap) :
    procScanAobHandle mem q.packet q.stream heap =
      if heap.ready then
        some (if q.Stray mem heap.readBuf then q.address.toNat else q.pat.answer mem q.request)
      else none := by
  have hplen : q.packet.patternLength.toNat = q.pattern.length := q.toNat_patternLength
  have hnonempty := q.nonempty
  have hbounded := q.bounded
  obtain ⟨hchunk, hchunkMax⟩ := aobChunkSize_spec hnonempty hbounded
  have hne : q.packet.patternLength ≠ 0 := by
    intro h
    rw [h] at hplen
    have hzero : (0 : UInt32).toNat = 0 := rfl
    omega
  obtain ⟨hpattern, hrest⟩ := @recvBuf_append heap.pattern q.packet.patternLength q.pattern q.mask hplen (by omega)
  have hmask := (@recvBuf_append heap.mask q.packet.patternLength q.mask [] (hplen.trans q.masked.symm)
    (by rw [q.masked]; omega)).1
  rw [List.append_nil] at hmask
  rw [procScanAobHandle, if_neg hne]
  have hstep : sizeOfValueType .arrBytes = 0 := rfl
  have hofNat : UInt32.ofNat q.pattern.length = q.packet.patternLength := rfl
  simp only [hstep, if_true, hplen, hofNat, bufferOk_of hnonempty (by omega : q.pattern.length < 2 ^ 32),
    bufferOk_of (Nat.lt_of_lt_of_le hnonempty hchunk)
      (by omega : aobChunkSize q.pattern.length < 2 ^ 32)]
  have hready : heap.ready = (heap.mallocs 0 && heap.mallocs 1 && heap.mallocs 2) := by
    simp only [AobHeap.ready, List.range_succ, List.range_zero, List.nil_append, List.cons_append, List.all_cons,
      List.all_nil, Bool.and_true, Bool.and_assoc]
  rw [hready]
  cases heap.mallocs 0 with
  | false => rfl
  | true =>
    cases heap.mallocs 1 with
    | false => rfl
    | true =>
      cases heap.mallocs 2 with
      | false => rfl
      | true =>
        show some _ = some _
        rw [AobQuery.stream]
        generalize recvBuf heap.pattern q.packet.patternLength (q.pattern ++ q.mask) = received at hpattern hrest
        rw [hrest]
        generalize (recvBuf heap.mask q.packet.patternLength q.mask).1 = mask at hmask
        have hsame : (AobScan.pat ⟨received.1, mask, q.pattern.length, q.count, q.stopFlag == 1⟩).Same q.pat :=
          ⟨rfl, rfl, hpattern, fun k hk => hmask k (Nat.lt_of_lt_of_eq hk q.masked.symm)⟩
        congr 1
        by_cases hroom : q.pattern.length ≤ q.length.toNat
        · rw [if_neg fun h => Nat.not_lt.mpr hroom h.2.1]
          exact chunks_answer hsame rfl mem _ hroom
        · have hshort := Nat.not_le.mp hroom
          rw [AobPat.answer_of_short (show q.request.length.toNat < q.pat.plen from hshort)]
          exact chunks_short hsame mem _ hshort

/-- The two commands answer alike: with the same address, or both with `CMD_DATA_NULL`. -/
def AobAgrees (mem : Memory) (q : AobQuery) (one : AobHeap) (multi : AobMultiHeap) : Prop :=
  ∃ fuel, procScanAobMulti mem q.multiPacket q.blob multi fuel =
    some ((procScanAobHandle mem q.packet q.stream one).map fun address => [address])

/-- The multi scan has one answer, whatever the fuel. -/
theorem procScanAobMulti_unique {mem : Memory} {p : AobMultiPacket} {stream : List Byte} {heap : AobMultiHeap}
    {fuel fuel' : Nat} {reply reply' : Option (List Nat)} (h : procScanAobMulti mem p stream heap fuel = some reply)
    (h' : procScanAobMulti mem p stream heap fuel' = some reply') : reply = reply' := by
  rw [procScanAobMulti] at h h'
  by_cases hzero : p.patternsLength = 0
  · rw [if_pos hzero] at h h'
    exact (Option.some.inj h).symm.trans (Option.some.inj h')
  rw [if_neg hzero] at h h'
  by_cases hbuf : (!bufferOk heap.blobMalloc p.patternsLength.toNat) = true
  · rw [if_pos hbuf] at h h'
    exact (Option.some.inj h).symm.trans (Option.some.inj h')
  rw [if_neg hbuf, procScanAobMultiHandle, Option.map_map, Option.map_eq_some_iff] at h h'
  obtain ⟨st, hst, rfl⟩ := h
  obtain ⟨st', hst', rfl⟩ := h'
  rw [loop_unique hst hst']

theorem aobAgrees_iff (mem : Memory) (q : AobQuery) (one : AobHeap) (multi : AobMultiHeap) :
    AobAgrees mem q one multi ↔
      (if multi.ready then some (q.pat.answer mem q.request) else none) =
        if one.ready then
          some (if q.Stray mem one.readBuf then q.address.toNat else q.pat.answer mem q.request)
        else none := by
  obtain ⟨fuel, hfuel⟩ := procScanAobMulti_eq q mem multi
  have hone : AobAgrees mem q one multi ↔
      (if multi.ready then some [q.pat.answer mem q.request] else none) =
        (procScanAobHandle mem q.packet q.stream one).map fun address => [address] :=
    ⟨fun ⟨_, h⟩ => procScanAobMulti_unique hfuel h, fun h => ⟨fuel, hfuel.trans (congrArg some h)⟩⟩
  rw [hone, procScanAobHandle_eq]
  cases multi.ready <;> cases one.ready <;> simp

/-- **When the two scans agree**: both get their buffers, or neither does, and no region shorter than the
pattern matches with the help of the buffer. -/
theorem aob_scans_agree_iff (mem : Memory) (q : AobQuery) (one : AobHeap) (multi : AobMultiHeap) :
    AobAgrees mem q one multi ↔
      one.ready = multi.ready ∧ (one.ready = true → ¬ q.Stray mem one.readBuf) := by
  rw [aobAgrees_iff]
  have hstray : q.Stray mem one.readBuf → q.pat.answer mem q.request ≠ q.address.toNat := by
    rintro ⟨-, hshort, -, haddr, -⟩ heq
    rw [AobPat.answer_of_short (show q.request.length.toNat < q.pat.plen from hshort)] at heq
    exact haddr (UInt64.toNat_inj.mp heq.symm)
  cases multi.ready with
  | false => cases one.ready <;> simp
  | true =>
    cases one.ready with
    | false => simp
    | true =>
      by_cases hs : q.Stray mem one.readBuf
      · simp [hs, hstray hs]
      · simp [hs]

/-- Two bytes, the second of which may be anything, in a region of one. -/
def oneByteQuery : AobQuery where
  address := 0x1000
  length := 1
  count := 1
  stopFlag := 0
  pattern := [7, 0]
  mask := [1, 0]
  masked := rfl
  nonempty := by decide
  bounded := by decide

/-- The single scan finds it there, whatever its buffers held. -/
theorem short_region_matches : ¬ ∀ (mem : Memory) (q : AobQuery) (one : AobHeap) (multi : AobMultiHeap),
    one.ready = true → multi.ready = true → AobAgrees mem q one multi := by
  intro h
  have hagree := h (fun _ => 7) oneByteQuery ⟨fun _ => true, fun _ => 0, fun _ => 0, fun _ => 0⟩
    ⟨true, fun _ => true, fun _ => 0, fun _ => 0, fun _ => 0, fun _ _ => 0,
      fun _ => ⟨fun _ => 0, fun _ => 0, fun _ => false⟩⟩ (by decide) (by decide)
  rw [aobAgrees_iff, if_pos (by decide), if_pos (by decide), if_pos (by decide), AobPat.answer_of_short (by decide)]
    at hagree
  exact absurd hagree (by decide)

end Ps5Debugger

import Ps5Debugger.Aob
import Ps5Debugger.Lib.Loop

/-!
# The patterns of a search, as the client sends them

`proc_scan_aob_multi_handle` gets its patterns as one blob of entries: a count, a length, the pattern
and the mask. It walks the blob twice. The first loop counts the entries and ends when the next header
would not fit; the second fills the table, one row for each entry counted. Neither looks whether an
entry fits. The cursor and the lengths have 32 bits, and the count has 16.

The two loops agree, stay in the blob and give one result for each entry exactly when the blob is a
sequence of fewer than 65536 entries that fit (`Entries`), and the buffers can be had.
-/

namespace Ps5Debugger

open Lib

/-! ## The loops -/

/-- `memcpy(&plen, blob + cursor + 1, 4)`. Behind the blob is whatever the memory holds. -/
def patternLength (blob : Buf) (cursor : Nat) : Nat := leNat 4 (slice blob (cursor + 1) 4)

/-- `cursor += 5 + 2 * plen` -/
def nextEntry (blob : Buf) (cursor : Nat) : Nat := u32 (cursor + (5 + 2 * patternLength blob cursor))

/-- The first loop. -/
structure EntryCount where
  cursor : Nat
  maxPlen : Nat
  patCount : Nat
  /-- where the entries were, for the theorems -/
  visited : List Nat
deriving DecidableEq, Repr

/-- `if (plen > max_plen) max_plen = plen` -/
def longer (blob : Buf) (maxPlen cursor : Nat) : Nat :=
  if patternLength blob cursor > maxPlen then patternLength blob cursor else maxPlen

/-- The body of the first loop. -/
def EntryCount.next (blob : Buf) (st : EntryCount) : EntryCount where
  cursor := nextEntry blob st.cursor
  maxPlen := longer blob st.maxPlen st.cursor
  patCount := (st.patCount + 1) % 2 ^ 16
  visited := st.visited ++ [st.cursor]

/-- The first loop, `while (cursor + 5 <= patterns_length)`. -/
def countEntries (blob : Buf) (patternsLength : Nat) (st : EntryCount) : EntryCount ⊕ EntryCount :=
  if u32 (st.cursor + 5) ≤ patternsLength then .inl (st.next blob) else .inr st

/-- A row of the table. -/
def entryPat (blob : Buf) (cursor : Nat) : AobPat where
  pat := view blob (cursor + 5)
  msk := view blob (cursor + 5 + patternLength blob cursor)
  plen := patternLength blob cursor
  targetCount := UInt8.ofNat (blob cursor).toNat

/-- The second loop: where the entries are. -/
def tableEntries (blob : Buf) : Nat → Nat → List Nat
  | 0, _ => []
  | n + 1, cursor => cursor :: tableEntries blob n (nextEntry blob cursor)

/-! ## The handler -/

/-- `struct cmd_proc_scan_aob_multi_packet`, less the process. -/
structure AobMultiPacket where
  address : UInt64
  length : UInt32
  stopFlag : UInt8
  patternsLength : UInt32

/-- What the handler finds: the search's environment, and which of its allocations succeed. -/
structure AobMultiEnv extends AobEnv where
  mallocs : Nat → Bool

/-- Whether `net_alloc_buffer((uint32_t)size)` gives a buffer: never one without bytes. -/
def bufferOk (mallocOk : Bool) (size : Nat) : Bool := u32 size != 0 && mallocOk

/-- `pats`, `bidx`, `widx`, `slot_off` and `output`. -/
def allocTables (env : AobMultiEnv) (patCount : Nat) : Bool :=
  bufferOk (env.mallocs 0) (patCount * 24) && bufferOk (env.mallocs 1) (patCount * 4) &&
    bufferOk (env.mallocs 2) (patCount * 4) && bufferOk (env.mallocs 3) ((patCount + 1) * 4) &&
    bufferOk (env.mallocs 4) (patCount * 8)

/-- `chunkSize` -/
def multiChunk (env : AobEnv) (maxPlen : Nat) : Nat := if env.chunk < maxPlen then maxPlen else env.chunk

/-- `readbufs`, `waddrs`, `wcounts` and `wdone`. -/
def allocBuffers (env : AobMultiEnv) (r : AobRequest) (maxPlen : Nat) : Bool :=
  let length := r.length.toNat
  let numWorkers := aobNumWorkers (aobSpan env.threads length) length
  let patCount := r.pats.length
  let totalSlots := aobSlotOff r.pats patCount
  bufferOk (env.mallocs 5) (numWorkers * (multiChunk env.toAobEnv maxPlen + maxPlen)) &&
    bufferOk (env.mallocs 6) (numWorkers * totalSlots * 8) &&
    bufferOk (env.mallocs 7) (numWorkers * patCount * 4) &&
    bufferOk (env.mallocs 8) (numWorkers * patCount)

/-- The search, with the `max_plen` of the first loop. -/
def multiSearch (mem : Memory) (r : AobRequest) (env : AobEnv) (maxPlen : Nat) : List Nat :=
  let length := r.length.toNat
  let workers := (List.range (aobNumWorkers (aobSpan env.threads length) length)).map fun w =>
    aobScanRange mem { aobWorker r env w with maxPlen := maxPlen, chunkSize := multiChunk env maxPlen }
      (env.readBufs w) (env.found w)
  aobMerge r.pats r.stopUnique (aobSlotOff r.pats) workers

/-- What the handler did. -/
structure AobMultiScan where
  /-- the entries the first loop saw -/
  counted : List Nat
  /-- the entries the second loop saw -/
  tabled : List Nat
  /-- the addresses sent; `none` is `CMD_DATA_NULL` -/
  results : Option (List Nat)

/-- The search that the client asked for. -/
def AobMultiPacket.request (p : AobMultiPacket) (blob : Buf) (entries : List Nat) : AobRequest :=
  ⟨p.address, p.length, p.stopFlag == 1, entries.map (entryPat blob)⟩

/-- The handler after the first loop. -/
def multiReply (mem : Memory) (p : AobMultiPacket) (blob : Buf) (env : AobMultiEnv) (st : EntryCount) :
    AobMultiScan :=
  if !allocTables env st.patCount then ⟨st.visited, [], none⟩
  else
    let entries := tableEntries blob st.patCount 0
    let r := p.request blob entries
    if !allocBuffers env r st.maxPlen then ⟨st.visited, entries, none⟩
    else ⟨st.visited, entries, some (multiSearch mem r env.toAobEnv st.maxPlen)⟩

def EntryCount.start : EntryCount := ⟨0, 1, 0, []⟩

/-- `proc_scan_aob_multi_handle`, once the blob was received; `none` while the first loop goes on. -/
def procScanAobMultiHandle (mem : Memory) (p : AobMultiPacket) (blob : Buf) (env : AobMultiEnv) (fuel : Nat) :
    Option AobMultiScan :=
  (loop (countEntries blob p.patternsLength.toNat) fuel .start).map (multiReply mem p blob env)

/-! ## Blobs of entries that fit -/

variable {blob : Buf} {len cursor : Nat} {es : List Nat}

/-- The entry lies in the blob, with its pattern and its mask. -/
def Fits (blob : Buf) (len cursor : Nat) : Prop := cursor + 5 + 2 * patternLength blob cursor ≤ len

instance (blob : Buf) (len cursor : Nat) : Decidable (Fits blob len cursor) :=
  inferInstanceAs (Decidable (_ ≤ _))

/-- From `cursor` on the blob is a sequence of entries that fit, at these places. What is left at the end
is no header, and is not at the very end of the 32-bit range, where the test of the first loop wraps
around. -/
inductive Entries (blob : Buf) (len : Nat) : Nat → List Nat → Prop
  | stop {cursor : Nat} : cursor ≤ len → len < cursor + 5 → cursor + 5 < 2 ^ 32 → Entries blob len cursor []
  | entry {cursor : Nat} {es : List Nat} : Fits blob len cursor →
      Entries blob len (cursor + 5 + 2 * patternLength blob cursor) es → Entries blob len cursor (cursor :: es)

theorem Entries.fits (h : Entries blob len cursor es) : ∀ {c : Nat}, c ∈ es → Fits blob len c := by
  induction h with
  | stop _ _ _ =>
    intro c hc
    cases hc
  | entry hfits _ ih =>
    intro c hc
    rcases List.mem_cons.mp hc with rfl | hc
    · exact hfits
    · exact ih hc

theorem nextEntry_of_fits (hlen : len < 2 ^ 32) (h : Fits blob len cursor) :
    nextEntry blob cursor = cursor + 5 + 2 * patternLength blob cursor := by
  rw [Fits] at h
  rw [nextEntry, u32_of_lt (by omega)]
  omega

/-- The second loop finds the entries that are there. -/
theorem tableEntries_entries (hlen : len < 2 ^ 32) (h : Entries blob len cursor es) :
    tableEntries blob es.length cursor = es := by
  induction h with
  | stop _ _ _ => rfl
  | entry hfits _ ih =>
    rw [List.length_cons, tableEntries, nextEntry_of_fits hlen hfits, ih]

theorem length_tableEntries (blob : Buf) : ∀ n cursor, (tableEntries blob n cursor).length = n
  | 0, _ => rfl
  | n + 1, cursor => by rw [tableEntries, List.length_cons, length_tableEntries blob n]

/-- What the first loop has at its end, after these entries. -/
structure Counted (blob : Buf) (st : EntryCount) (es : List Nat) (st' : EntryCount) : Prop where
  visited : st'.visited = st.visited ++ es
  patCount : st'.patCount = (st.patCount + es.length) % 2 ^ 16
  maxPlen : st'.maxPlen = es.foldl (longer blob) st.maxPlen

theorem Counted.cons {st st' : EntryCount} (h : Counted blob (st.next blob) es st') :
    Counted blob st (st.cursor :: es) st' := by
  refine ⟨?_, ?_, h.maxPlen⟩
  · rw [h.visited, EntryCount.next, List.append_assoc]
    rfl
  · rw [h.patCount, EntryCount.next, Nat.mod_add_mod, List.length_cons, Nat.add_assoc, Nat.add_comm 1]

theorem Counted.nil {st : EntryCount} (hcount : st.patCount < 2 ^ 16) : Counted blob st [] st :=
  ⟨by rw [List.append_nil], by rw [List.length_nil, Nat.add_zero, Nat.mod_eq_of_lt hcount], rfl⟩

theorem next_patCount (blob : Buf) (st : EntryCount) : (st.next blob).patCount < 2 ^ 16 :=
  Nat.mod_lt _ (by decide)

/-- The first loop ends, if the entries fit. -/
theorem countEntries_halts (hlen : len < 2 ^ 32) (h : Entries blob len cursor es) : ∀ {st : EntryCount},
    st.cursor = cursor → st.patCount < 2 ^ 16 →
      ∃ fuel st', loop (countEntries blob len) fuel st = some st' ∧ Counted blob st es st' := by
  induction h with
  | stop _ hend hwrap =>
    rintro st rfl hcount
    refine ⟨1, st, ?_, .nil hcount⟩
    rw [loop, countEntries, u32_of_lt hwrap, if_neg (by omega)]
  | entry hfits _ ih =>
    rintro st rfl -
    obtain ⟨fuel, st', hloop, hcounted⟩ :=
      ih (nextEntry_of_fits hlen hfits : (st.next blob).cursor = _) (next_patCount blob st)
    refine ⟨fuel + 1, st', ?_, hcounted.cons⟩
    rw [Fits] at hfits
    rw [loop, countEntries, u32_of_lt (by omega), if_pos (by omega)]
    exact hloop

/-- The entries seen so far stay. -/
theorem countEntries_visited : ∀ {fuel : Nat} {st st' : EntryCount},
    loop (countEntries blob len) fuel st = some st' → ∀ c ∈ st.visited, c ∈ st'.visited
  | 0, _, _, h => by cases h
  | fuel + 1, st, st', h => by
    rw [loop, countEntries] at h
    by_cases hle : u32 (st.cursor + 5) ≤ len
    · rw [if_pos hle] at h
      exact fun c hc => countEntries_visited h c (List.mem_append_left _ hc)
    · rw [if_neg hle] at h
      obtain rfl := Option.some.inj h
      exact fun c hc => hc

/-- If the first loop ends and all that it saw fits, then the blob is a sequence of entries. The induction
is on the fuel; the cursor never passes the end of the blob, since each entry fits. -/
theorem entries_of_countEntries (hlen : len < 2 ^ 32) : ∀ {fuel : Nat} {st st' : EntryCount},
    loop (countEntries blob len) fuel st = some st' → st.cursor ≤ len → st.patCount < 2 ^ 16 →
      (∀ c ∈ st'.visited, Fits blob len c) →
        ∃ es, Entries blob len st.cursor es ∧ Counted blob st es st'
  | 0, _, _, h, _, _, _ => by cases h
  | fuel + 1, st, st', h, hcursor, hcount, hfits => by
    rw [loop, countEntries] at h
    by_cases hle : u32 (st.cursor + 5) ≤ len
    · rw [if_pos hle] at h
      have hseen : st.cursor ∈ (st.next blob).visited := List.mem_append_right _ (List.mem_singleton_self _)
      have hthis := hfits _ (countEntries_visited h _ hseen)
      have hnext : (st.next blob).cursor = _ := nextEntry_of_fits hlen hthis
      obtain ⟨es, hes, hcounted⟩ := entries_of_countEntries hlen h (by rw [hnext]; exact hthis)
        (next_patCount blob st) hfits
      rw [hnext] at hes
      exact ⟨_, .entry hthis hes, hcounted.cons⟩
    · rw [if_neg hle] at h
      obtain rfl := Option.some.inj h
      rw [u32] at hle
      exact ⟨[], .stop hcursor (by omega) (by omega), .nil hcount⟩

/-! ## When the blob is parsed safely -/

/-- The handler comes back, all entries it saw lie in the blob, both loops saw the same ones, and as many
results were sent. -/
def ParsedSafely (mem : Memory) (p : AobMultiPacket) (blob : Buf) (env : AobMultiEnv) : Prop :=
  ∃ fuel scan, procScanAobMultiHandle mem p blob env fuel = some scan ∧
    (∀ cursor ∈ scan.counted, Fits blob p.patternsLength.toNat cursor) ∧
    scan.tabled = scan.counted ∧ (scan.results.getD []).length = scan.counted.length

/-- The buffers for these entries can be had. -/
def BuffersOk (p : AobMultiPacket) (blob : Buf) (env : AobMultiEnv) (es : List Nat) : Prop :=
  allocTables env es.length = true ∧
    allocBuffers env (p.request blob es) (es.foldl (longer blob) 1) = true

theorem length_aobSearch (mem : Memory) (r : AobRequest) (env : AobEnv) :
    (aobSearch mem r env).length = r.pats.length := by
  rw [aobSearch, aobMerge, List.length_map, List.length_zipIdx]

theorem multiReply_counted (mem : Memory) (p : AobMultiPacket) (blob : Buf) (env : AobMultiEnv)
    (st : EntryCount) : (multiReply mem p blob env st).counted = st.visited := by
  rw [multiReply]
  split
  · rfl
  · dsimp only
    split <;> rfl

/-- `max_plen` is the longest pattern of the table, so the search is `aobSearch`. -/
theorem multiSearch_request (mem : Memory) (p : AobMultiPacket) (blob : Buf) (env : AobEnv) (es : List Nat) :
    multiSearch mem (p.request blob es) env (es.foldl (longer blob) 1) = aobSearch mem (p.request blob es) env := by
  have hmax : aobMaxPlen (p.request blob es).pats = es.foldl (longer blob) 1 := by
    rw [aobMaxPlen, AobMultiPacket.request, List.foldl_map]
    rfl
  rw [← hmax]
  rfl

/-- Fewer than 65536 entries that fit, and buffers for them: the answer is that of the search. -/
theorem multiReply_entries (mem : Memory) {p : AobMultiPacket} {env : AobMultiEnv} {st : EntryCount}
    (hes : Entries blob p.patternsLength.toNat 0 es) (hcounted : Counted blob .start es st)
    (hsmall : es.length < 2 ^ 16) (hbuf : BuffersOk p blob env es) :
    multiReply mem p blob env st = ⟨es, es, some (aobSearch mem (p.request blob es) env.toAobEnv)⟩ := by
  have hvisited : st.visited = es := hcounted.visited
  have hcount : st.patCount = es.length := by
    rw [hcounted.patCount, EntryCount.start, Nat.zero_add, Nat.mod_eq_of_lt hsmall]
  have hmax : st.maxPlen = es.foldl (longer blob) 1 := hcounted.maxPlen
  rw [multiReply, hvisited, hcount, hmax, tableEntries_entries p.patternsLength.toNat_lt hes, hbuf.1]
  dsimp only
  rw [hbuf.2, multiSearch_request]
  rfl

/-- After the entries were counted: the table has them all, and there is a result for each, unless the
count wrapped around or a buffer could not be had. -/
theorem multiReply_all_iff (mem : Memory) {p : AobMultiPacket} {env : AobMultiEnv} {st : EntryCount}
    (hes : Entries blob p.patternsLength.toNat 0 es) (hcounted : Counted blob .start es st) :
    ((multiReply mem p blob env st).tabled = es ∧
        ((multiReply mem p blob env st).results.getD []).length = es.length) ↔
      es.length < 2 ^ 16 ∧ (es = [] ∨ BuffersOk p blob env es) := by
  have htable := tableEntries_entries p.patternsLength.toNat_lt hes
  have hcount : st.patCount = es.length % 2 ^ 16 := by
    rw [hcounted.patCount, EntryCount.start, Nat.zero_add]
  constructor
  · rintro ⟨hsame, hsent⟩
    rw [multiReply] at hsame hsent
    have hsmall : es.length < 2 ^ 16 := by
      split at hsame
      · rw [← hsame]
        exact Nat.two_pow_pos 16
      · -- the table has as many rows as were counted
        have hrows : (tableEntries blob st.patCount 0).length = es.length := by
          refine congrArg List.length ?_
          dsimp only at hsame
          split at hsame <;> exact hsame
        rw [length_tableEntries, hcount] at hrows
        omega
    rw [Nat.mod_eq_of_lt hsmall] at hcount
    refine ⟨hsmall, ?_⟩
    rw [BuffersOk, ← show st.maxPlen = es.foldl (longer blob) 1 from hcounted.maxPlen]
    rw [hcount, htable] at hsent
    cases htab : allocTables env es.length with
    | false =>
      rw [htab] at hsent
      exact .inl (List.length_eq_zero_iff.mp hsent.symm)
    | true =>
      rw [htab] at hsent
      cases hbuf : allocBuffers env (p.request blob es) st.maxPlen with
      | false =>
        dsimp only at hsent
        rw [hbuf] at hsent
        exact .inl (List.length_eq_zero_iff.mp hsent.symm)
      | true => exact .inr ⟨rfl, rfl⟩
  · rintro ⟨hsmall, rfl | hbuf⟩
    · -- no buffer is had for no entries
      rw [multiReply, hcount]
      exact ⟨rfl, rfl⟩
    · rw [multiReply_entries mem hes hcounted hsmall hbuf]
      exact ⟨rfl, (length_aobSearch mem _ env.toAobEnv).trans (List.length_map _)⟩

/-- **When the blob is parsed safely**: it is a sequence of fewer than 65536 entries that fit, and the
buffers for them can be had, or there are no entries. -/
theorem parsed_safely_iff (mem : Memory) (p : AobMultiPacket) (blob : Buf) (env : AobMultiEnv) :
    ParsedSafely mem p blob env ↔
      ∃ es, Entries blob p.patternsLength.toNat 0 es ∧ es.length < 2 ^ 16 ∧
        (es = [] ∨ BuffersOk p blob env es) := by
  have hlen : p.patternsLength.toNat < 2 ^ 32 := p.patternsLength.toNat_lt
  constructor
  · rintro ⟨fuel, scan, hscan, hfits, hsame, hsent⟩
    obtain ⟨st, hloop, rfl⟩ := Option.map_eq_some_iff.mp hscan
    rw [multiReply_counted] at hfits hsame hsent
    obtain ⟨es, hes, hcounted⟩ :=
      entries_of_countEntries hlen hloop (Nat.zero_le _) (by decide) hfits
    rw [show st.visited = es from hcounted.visited] at hsame hsent
    exact ⟨es, hes, (multiReply_all_iff mem hes hcounted).mp ⟨hsame, hsent⟩⟩
  · rintro ⟨es, hes, hall⟩
    obtain ⟨fuel, st, hloop, hcounted⟩ :=
      countEntries_halts hlen hes (rfl : EntryCount.start.cursor = 0) (by decide)
    obtain ⟨hsame, hsent⟩ := (multiReply_all_iff mem hes hcounted).mpr hall
    refine ⟨fuel, _, Option.map_eq_some_iff.mpr ⟨st, hloop, rfl⟩, ?_⟩
    rw [multiReply_counted, show st.visited = es from hcounted.visited]
    exact ⟨fun cursor hc => hes.fits hc, hsame, hsent⟩

/-- Default settings, fresh buffers, and no allocation fails. -/
def defaultMultiEnv : AobMultiEnv where
  threads := 3
  chunk := 0x40000
  bidx := fun _ => 0
  widx := fun _ => 0
  readBufs := fun _ _ => 0
  found := fun _ => ⟨fun _ => 0, fun _ => 0, fun _ => false⟩
  mallocs := fun _ => true

/-- A blob of one header, for a pattern of one byte that is not there. -/
theorem short_blob_unsafe :
    ¬ ∀ (mem : Memory) (p : AobMultiPacket) (blob : Buf) (env : AobMultiEnv), ParsedSafely mem p blob env := by
  intro h
  obtain ⟨fuel, scan, hscan, hfits, -⟩ := h (fun _ => 0) ⟨0x400000, 0x1000, 0, 5⟩
    (ofList [1, 1, 0, 0, 0]) defaultMultiEnv
  obtain ⟨st, hloop, rfl⟩ := Option.map_eq_some_iff.mp hscan
  rw [multiReply_counted] at hfits
  cases fuel with
  | zero => cases hloop
  | succ fuel =>
    have hnext : loop (countEntries (ofList [1, 1, 0, 0, 0]) 5) fuel
        (EntryCount.start.next (ofList [1, 1, 0, 0, 0])) = some st := hloop
    have hzero : Fits (ofList [1, 1, 0, 0, 0]) 5 0 := hfits 0 (countEntries_visited hnext 0 (by decide))
    exact absurd hzero (by decide)

end Ps5Debugger

import Ps5Debugger.SnapshotBounds

/-!
# The indices of a snapshot

`fs_next_set` goes through the bitmap of a snapshot, and `fs_slot_addr` through its segment table. Both are
modelled here with their reads: a bitmap of `n` bits is a list of `(n + 7) / 8` bytes, and a read past its end,
or past the end of the table, has no result. Indices wrap as the code's do.

`iteration_exact`: no read is past an end, the next index is the least set one, and an address is the one of
the only segment that has the slot, also where segments without slots repeat a start.
-/

namespace Ps5Debugger

open Lib

namespace SnapIndex

/-! ## The bitmap -/

/-- The word at bit `i`. -/
def readWord (bm : List Byte) (i : Nat) : Option Nat :=
  if i / 8 + 8 ≤ bm.length then some (wordAt (ofList bm) i) else none

/-- `while (i + 64 <= n && word == 0) i += 64` -/
def skipWords (bm : List Byte) (n : Nat) : Nat → Nat → Option Nat
  | 0, _ => none
  | fuel + 1, i =>
    if u64 (i + 64) ≤ n then
      (readWord bm i).bind fun word => if word = 0 then skipWords bm n fuel (u64 (i + 64)) else some i
    else some i

/-- The loop of `fs_next_set`. -/
def fsNextSetLoop (bm : List Byte) (n : Nat) : Nat → Nat → Option Nat
  | 0, _ => none
  | fuel + 1, i =>
    if i < n then
      (if i % 64 = 0 then skipWords bm n n i else some i).bind fun i =>
        if i ≥ n then some n
        else bm[i / 8]?.bind fun b => if b.getLsbD (i % 8) then some i else fsNextSetLoop bm n fuel (u64 (i + 1))
    else some n

/-- `fs_next_set` -/
def fsNextSet (bm : List Byte) (start n : Nat) : Option Nat := fsNextSetLoop bm n (n + 1) start

/-- The least set index from `start` on below `n`, or `n`. -/
def IsNextSet (bm : Buf) (start n r : Nat) : Prop :=
  (start ≤ r ∧ r < n ∧ bit bm r = true ∨ r = n) ∧ ∀ j, start ≤ j → j < r → bit bm j = false

variable {bm : List Byte} {n : Nat}

/-- Words are skipped inside the bitmap only: they end at or below `n`. -/
theorem skipWords_eq (hlen : bm.length = (n + 7) / 8) (hn : n + 64 < 2 ^ 64) :
    ∀ {fuel i : Nat}, i % 64 = 0 → i ≤ n → n < i + 64 * fuel →
      skipWords bm n fuel i = some (skipZeroWords (ofList bm) n fuel i) := by
  intro fuel
  induction fuel with
  | zero =>
    intro i _ hi hfuel
    omega
  | succ fuel ih =>
    intro i hmod hi hfuel
    rw [skipWords, skipZeroWords]
    by_cases hend : i + 64 ≤ n
    · have hread : readWord bm i = some (wordAt (ofList bm) i) := if_pos (by omega)
      rw [u64_of_lt (by omega), if_pos hend, hread, Option.bind_some]
      by_cases hzero : wordAt (ofList bm) i = 0
      · rw [if_pos hzero, if_pos ⟨hend, hzero⟩]
        exact ih (by omega) hend (by omega)
      · rw [if_neg hzero, if_neg fun h => hzero h.2]
    · rw [u64_of_lt (by omega), if_neg hend, if_neg fun h => hend h.1]

/-- The loop reads inside the bitmap, and ends. -/
theorem fsNextSetLoop_eq (hlen : bm.length = (n + 7) / 8) (hn : n + 64 < 2 ^ 64) :
    ∀ {fuel i : Nat}, 0 < fuel → n < i + fuel → fsNextSetLoop bm n fuel i = some (nextSetLoop (ofList bm) n fuel i) := by
  intro fuel
  induction fuel with
  | zero =>
    intro i hpos
    omega
  | succ fuel ih =>
    intro i _ hfuel
    rw [fsNextSetLoop, nextSetLoop]
    by_cases hin : i < n
    · -- the index after the skip, which is not behind the one before
      obtain ⟨j, hskip, hj, hij⟩ : ∃ j, (if i % 64 = 0 then skipWords bm n n i else some i) = some j ∧
          (if i % 64 = 0 then skipZeroWords (ofList bm) n n i else i) = j ∧ i ≤ j := by
        by_cases hmod : i % 64 = 0
        · rw [if_pos hmod, if_pos hmod]
          exact ⟨_, skipWords_eq hlen hn hmod hin.le (by omega), rfl, (skipZeroWords_spec n i hmod).1⟩
        · rw [if_neg hmod, if_neg hmod]
          exact ⟨i, rfl, rfl, le_refl i⟩
      rw [if_pos hin, if_pos hin, hskip, Option.bind_some]
      simp only [hj]
      by_cases hend : j ≥ n
      · rw [if_pos hend, if_pos hend]
      · have hbyte : j / 8 < bm.length := by omega
        have hbit : bit (ofList bm) j = bm[j / 8].getLsbD (j % 8) := by
          rw [bit, ofList, List.getD_eq_getElem?_getD, List.getElem?_eq_getElem hbyte, Option.getD_some]
        rw [if_neg hend, if_neg hend, List.getElem?_eq_getElem hbyte, Option.bind_some, hbit]
        split
        · rfl
        · rw [u64_of_lt (by omega)]
          exact ih (by omega) (by omega)
    · rw [if_neg hin, if_neg hin]

/-- `fs_next_set` on a bitmap of `n` bits. -/
theorem fsNextSet_spec (hlen : bm.length = (n + 7) / 8) (hn : n + 64 < 2 ^ 64) (start : Nat) :
    ∃ r, fsNextSet bm start n = some r ∧ IsNextSet (ofList bm) start n r := by
  refine ⟨nextSet (ofList bm) start n, fsNextSetLoop_eq hlen hn (by omega) (by omega), ?_⟩
  rcases setFrom_eq (ofList bm) start n with ⟨hnil, heq⟩ | ⟨hlt, hcons⟩
  · rw [heq]
    refine ⟨.inr rfl, fun j hlo hhi => ?_⟩
    by_contra hbit
    have hmem := mem_setFrom.mpr ⟨hlo, hhi, eq_true_of_ne_false hbit⟩
    rw [hnil] at hmem
    cases hmem
  · generalize nextSet (ofList bm) start n = r at *
    have hr := mem_setFrom.mp (hcons ▸ List.mem_cons_self)
    refine ⟨.inl ⟨hr.1, hlt, hr.2.2⟩, fun j hlo hhi => ?_⟩
    by_contra hbit
    -- a set index before the first one
    have hmem := mem_setFrom.mpr ⟨hlo, hhi.trans hlt, eq_true_of_ne_false hbit⟩
    rw [hcons, List.mem_cons, mem_setFrom] at hmem
    omega

/-! ## The segment table -/

/-- The loop of `fs_slot_addr`. -/
def fsSlotSearch (seg : List FsSegment) (i : Nat) : Nat → Nat → Nat → Option Nat
  | 0, _, _ => none
  | fuel + 1, lo, hi =>
    if u32 (lo + 1) < hi then
      let mid := u32 (lo + hi) / 2
      seg[mid]?.bind fun g =>
        if g.slotStart ≤ i then fsSlotSearch seg i fuel mid hi else fsSlotSearch seg i fuel lo mid
    else some lo

/-- `fs_slot_addr` -/
def fsSlotAddr (seg : List FsSegment) (stride i : Nat) : Option Nat :=
  (fsSlotSearch seg i seg.length 0 seg.length).bind fun lo =>
    seg[lo]?.map fun g => u64 (g.addr + subU64 i g.slotStart * stride)

/-- An entry of the table has the slot. -/
def HasSlot (g : FsSegment) (i : Nat) : Prop := g.slotStart ≤ i ∧ i < g.slotStart + g.nslots

/-- The search reads inside the table, and ends. -/
theorem fsSlotSearch_eq {seg : List FsSegment} {i : Nat} (hlen : seg.length ≤ snapMaxSegs) :
    ∀ {fuel lo hi : Nat}, lo < hi → hi ≤ seg.length → hi ≤ lo + fuel →
      fsSlotSearch seg i fuel lo hi = some (searchSegment seg i fuel lo hi) := by
  rw [snapMaxSegs] at hlen
  intro fuel
  induction fuel with
  | zero =>
    intro lo hi hlt _ hfuel
    omega
  | succ fuel ih =>
    intro lo hi hlt hhi hfuel
    rw [fsSlotSearch, searchSegment, u32_of_lt (by omega), u32_of_lt (by omega)]
    by_cases hmore : lo + 1 < hi
    · have hmid : (lo + hi) / 2 < seg.length := by omega
      rw [if_pos hmore, if_pos hmore]
      simp only [List.getElem?_eq_getElem hmid, Option.bind_some, List.getD_eq_getElem?_getD, Option.getD_some]
      split
      · exact ih (by omega) hhi (by omega)
      · exact ih (by omega) hmid.le (by omega)
    · rw [if_neg hmore, if_neg hmore]

variable {v step : Nat} {segs : List SnapSegment}

theorem length_slotAddrs_lt (hsegs : segs.length ≤ snapMaxSegs) : (slotAddrs v step segs).length < 2 ^ 64 := by
  have hle := @length_slotAddrs_le v step segs
  rw [snapMaxSegs] at hsegs
  omega

/-- The starts of the table do not descend. -/
theorem slotStart_mono {r r' : Nat} (h : r ≤ r') :
    (slotAddrs v step (segs.take r)).length ≤ (slotAddrs v step (segs.take r')).length := by
  obtain ⟨k, rfl⟩ := Nat.exists_eq_add_of_le h
  rw [List.take_add, slotAddrs, slotAddrs, List.flatMap_append, List.length_append]
  exact Nat.le_add_right _ _

/-- Entries that have the same slot are one. Between two entries there is the end of the first. -/
theorem hasSlot_unique (hsegs : segs.length ≤ snapMaxSegs) {i r r' : Nat} {g g' : FsSegment}
    (hr : (buildSegments v step 0 segs)[r]? = some g) (hr' : (buildSegments v step 0 segs)[r']? = some g')
    (hg : HasSlot g i) (hg' : HasSlot g' i) : r = r' := by
  -- the end of an entry is where the next one starts
  have hentry : ∀ {r : Nat} {g : FsSegment}, (buildSegments v step 0 segs)[r]? = some g → HasSlot g i →
      (slotAddrs v step (segs.take r)).length ≤ i ∧ i < (slotAddrs v step (segs.take (r + 1))).length := by
    intro r g hget hslot
    have hlt := (List.getElem?_eq_some_iff.mp hget).1
    rw [length_buildSegments] at hlt
    have hlen := @length_slotAddrs_lt v step segs hsegs
    obtain ⟨s, -, heq, hseg⟩ := @buildSegments_get v step segs 0 r (by omega) hlt
    rw [hget, Nat.zero_add, Option.some.injEq] at heq
    rw [HasSlot, heq] at hslot
    rw [length_slotAddrs_take_succ segs hseg]
    exact hslot
  have h := hentry hr hg
  have h' := hentry hr' hg'
  rcases Nat.lt_trichotomy r r' with hlt | heq | hgt
  · have hmono := @slotStart_mono v step segs (r + 1) r' hlt
    omega
  · exact heq
  · have hmono := @slotStart_mono v step segs (r' + 1) r hgt
    omega

/-- `fs_slot_addr` on a table of `fs_snapshot_create`. -/
theorem fsSlotAddr_spec (hsegs : segs.length ≤ snapMaxSegs) {i : Nat} (hi : i < slotTotal v step 0 segs) :
    ∃ (r : Nat) (g : FsSegment), (buildSegments v step 0 segs)[r]? = some g ∧ HasSlot g i ∧
      fsSlotAddr (buildSegments v step 0 segs) step i = some (u64 (g.addr + (i - g.slotStart) * step)) := by
  have hlen := @length_slotAddrs_lt v step segs hsegs
  rw [slotTotal_eq segs 0 (by omega), Nat.zero_add] at hi
  obtain ⟨r, s, hsearch, hseg, hget, hstart, hend⟩ := searchSegment_slot hlen hi
  refine ⟨r, _, hget, ⟨hstart, hend⟩, ?_⟩
  have hpos : r < segs.length := (List.getElem?_eq_some_iff.mp hseg).1
  rw [fsSlotAddr, fsSlotSearch_eq (by rwa [length_buildSegments]) (by rw [length_buildSegments]; omega) le_rfl
    (by omega), length_buildSegments, hsearch, Option.bind_some, hget, Option.map_some,
    subU64_of_le hstart (by omega)]

/-! ## Both -/

/-- On a bitmap of `n` bits and on a table that `fs_snapshot_create` builds, every read is inside, and both
functions are exact. -/
theorem iteration_exact (hlen : bm.length = (n + 7) / 8) (hn : n + 64 < 2 ^ 64) (start : Nat)
    (hsegs : segs.length ≤ snapMaxSegs) :
    (∃ r, fsNextSet bm start n = some r ∧ IsNextSet (ofList bm) start n r) ∧
      ∀ i < slotTotal v step 0 segs, ∃ (r : Nat) (g : FsSegment),
        (buildSegments v step 0 segs)[r]? = some g ∧ HasSlot g i ∧
          (∀ (r' : Nat) (g' : FsSegment), (buildSegments v step 0 segs)[r']? = some g' → HasSlot g' i → r' = r) ∧
          fsSlotAddr (buildSegments v step 0 segs) step i = some (u64 (g.addr + (i - g.slotStart) * step)) := by
  refine ⟨fsNextSet_spec hlen hn start, fun i hi => ?_⟩
  obtain ⟨r, g, hget, hslot, haddr⟩ := fsSlotAddr_spec hsegs hi
  refine ⟨r, g, hget, hslot, ?_, haddr⟩
  intro r' g' hget' hslot'
  exact hasSlot_unique hsegs hget' hget hslot' hslot

/-- A bitmap with a zero word and a ragged tail, and a table with an empty segment in the middle. -/
theorem iteration_exact_tail :
    fsNextSet [0, 0, 0, 0, 0, 0, 0, 0, 0b1000] 0 68 = some 67 ∧
      fsSlotAddr (buildSegments 4 4 0 [⟨0x1000, 8⟩, ⟨0x2000, 3⟩, ⟨0x3000, 12⟩]) 4 3 = some 0x3004 := by
  obtain ⟨⟨r, hnext, hr⟩, hslots⟩ := @iteration_exact [0, 0, 0, 0, 0, 0, 0, 0, 0b1000] 68 4 4
    [⟨0x1000, 8⟩, ⟨0x2000, 3⟩, ⟨0x3000, 12⟩] (by decide) (by decide) 0 (by decide)
  obtain ⟨q, g, hget, hslot, honly, haddr⟩ := hslots 3 (by decide)
  have hq := honly 2 ⟨0x3000, 2, 3⟩ (by decide) ⟨by decide, by decide⟩
  subst hq
  obtain rfl : ⟨0x3000, 2, 3⟩ = g := Option.some.inj hget
  refine ⟨hnext.trans ?_, haddr⟩
  have hset : bit (ofList [0, 0, 0, 0, 0, 0, 0, 0, 0b1000]) 67 = true := by decide
  have hclear : ∀ j < 67, bit (ofList [0, 0, 0, 0, 0, 0, 0, 0, 0b1000]) j = false := by decide
  -- the result is not below 67, and not above it
  rcases hr with ⟨⟨-, hlt, hbit⟩ | rfl, hleast⟩
  · rcases Nat.lt_trichotomy r 67 with hbelow | heq | habove
    · rw [hclear r hbelow] at hbit
      cases hbit
    · rw [heq]
    · rw [hleast 67 (Nat.zero_le _) habove] at hset
      cases hset
  · rw [hleast 67 (by decide) (by decide)] at hset
    cases hset

end SnapIndex

end Ps5Debugger

import Ps5Debugger.Lib.Throttle
import Ps5Debugger.SnapshotRescan

/-!
# The progress records of a snapshot rescan

While `fs_snapshot_rescan` (`scan_turbo.c`) goes over its windows it sends the first slot of a window when it has
come a step further than with the last record. The step is the slot count shifted down by eight, and at least 1.

`progress_throttled_iff`: the records are strictly increasing and below the slot count, and there are at most 256
of them when no 257 windows lie a step apart. The shift drops up to 255 slots, so that 257 such windows can be
there unless the slots left over are no more than the step (`progress_of_mod_le`).
-/

namespace Ps5Debugger

open Lib

/-! ## The records -/

/-- `prog_step` -/
def progStep (slotCount : Nat) : Nat := if slotCount >>> 8 = 0 then 1 else slotCount >>> 8

/-- The records that `fs_snapshot_rescan` sends, before its sentinel. A session has less than 2^53 slots, so
`i + prog_step` does not wrap. -/
def snapProgress {mem : Memory} (actx : Option (AliasEngine mem)) (cmp : List Byte → List Byte → Bool)
    (s : SnapSession) (memBuf blBuf : Buf) : List Nat :=
  if s.slotCount = 0 then []
  else
    throttle (progStep s.slotCount) (progStep s.slotCount)
      ((snapScan actx cmp s memBuf blBuf).windows.map RescanWindow.i)

/-- The first slots of the windows that live slots fall into. -/
def windowStarts (a : Nat → Nat) (v : Nat) : List Nat → List Nat
  | [] => []
  | i :: rest => i :: windowStarts a v (rest.drop (groupAfter a v i rest).length)
termination_by live => live.length
decreasing_by
  rw [List.length_drop, List.length_cons]
  omega

/-! ## Where windows start -/

theorem windowStarts_sublist {a : Nat → Nat} {v : Nat} (live : List Nat) : (windowStarts a v live).Sublist live := by
  induction live using windowStarts.induct a v with
  | case1 => rw [windowStarts]
  | case2 i rest ih =>
    rw [windowStarts]
    exact (ih.trans (List.drop_sublist _ _)).cons_cons i

/-- Live slots that are too far apart for a window to take in two of them. -/
theorem windowStarts_of_far {a : Nat → Nat} {v : Nat} {live : List Nat}
    (hfar : live.Pairwise fun i j => windowExtends v (a i) (u64 (a i + v)) (a j) = false) :
    windowStarts a v live = live := by
  induction live with
  | nil => rw [windowStarts]
  | cons i rest ih =>
    have halone : groupAfter a v i rest = [] := by
      cases rest with
      | nil => rfl
      | cons j rest =>
        have hno := List.rel_of_pairwise_cons hfar List.mem_cons_self
        rw [groupAfter, takeGroup, hno]
        rfl
    rw [windowStarts, halone, List.length_nil, List.drop_zero, ih hfar.of_cons]

/-- A comparison loop up to `last` clears no bit behind it. -/
theorem bit_snapGroup {s : SnapSession} {cmp : List Byte → List Byte → Bool} {win : Buf} {ws i last x : Nat}
    (hx : last < x) (fuel k : Nat) (st : GroupState) :
    bit (snapGroup s cmp win ws i last fuel k st).bitmap x = bit st.bitmap x := by
  induction fuel generalizing k st with
  | zero => rfl
  | succ fuel ih =>
    rw [snapGroup]
    split
    · rename_i hk
      rw [ih, bit_snapCompare s cmp win ws i k x st (by omega)]
    · rfl

section Windows

variable {mem : Memory} (actx : Option (AliasEngine mem)) (cmp : List Byte → List Byte → Bool)

/-- A window leaves the live slots behind it. -/
theorem setFrom_snapWindow (sc : SnapScan) (i : Nat) :
    setFrom (snapWindow actx cmp sc i).sess.bitmap ((sc.sess.windowAt i).2 + 1) sc.sess.slotCount =
      setFrom sc.sess.bitmap ((sc.sess.windowAt i).2 + 1) sc.sess.slotCount :=
  setFrom_congr fun x hx => bit_snapGroup (by omega) _ _ _

theorem starts_snapWindow (sc : SnapScan) (i : Nat) :
    (snapWindow actx cmp sc i).windows.map RescanWindow.i = sc.windows.map RescanWindow.i ++ [i] := by
  rw [snapWindow, List.map_append]
  rfl

/-- The loop makes the windows of the live slots, whatever is compared. -/
theorem starts_snapLoop (fuel : Nat) {pos : Nat} {sc : SnapScan} {live : List Nat}
    (hset : setFrom sc.sess.bitmap pos sc.sess.slotCount = live) (hfuel : live.length < fuel) :
    (snapLoop actx cmp fuel (nextSet sc.sess.bitmap pos sc.sess.slotCount) sc).windows.map RescanWindow.i =
      sc.windows.map RescanWindow.i ++ windowStarts sc.sess.addr sc.sess.valueLength live := by
  induction fuel generalizing pos sc live with
  | zero => exact absurd hfuel (Nat.not_lt_zero _)
  | succ fuel ih =>
    cases live with
    | nil =>
      rw [nextSet_of_nil hset, snapLoop, if_neg (Nat.lt_irrefl _), windowStarts, List.append_nil]
    | cons i rest =>
      obtain ⟨hnext, hlt, hrest⟩ := nextSet_of_cons hset
      obtain ⟨back, hback, hafter, -⟩ := group_split (a := sc.sess.addr) (v := sc.sess.valueLength) hset
      have hlast : (sc.sess.windowAt i).2 = (groupAfter sc.sess.addr sc.sess.valueLength i rest).getLastD i := by
        rw [windowAt_eq sc.sess hrest]
      have hsame := @snapWindow_same _ actx cmp sc i
      have hdrop : rest.drop (groupAfter sc.sess.addr sc.sess.valueLength i rest).length = back :=
        (congrArg (List.drop _) hback).trans List.drop_left
      have hlen : back.length < fuel := by
        rw [← hdrop, List.length_drop]
        rw [List.length_cons] at hfuel
        omega
      have hset' : setFrom (snapWindow actx cmp sc i).sess.bitmap ((sc.sess.windowAt i).2 + 1)
          (snapWindow actx cmp sc i).sess.slotCount = back := by
        rw [hsame.slotCount, setFrom_snapWindow, hlast, hafter]
      have hrun := ih hset' hlen
      rw [hsame.slotCount, hsame.addr, hsame.valueLength, starts_snapWindow, List.append_assoc,
        List.singleton_append] at hrun
      rw [hnext, snapLoop, if_pos hlt, windowStarts, hdrop]
      exact hrun

/-- The windows of a rescan start where the live slots say. -/
theorem starts_snapScan (s : SnapSession) (memBuf blBuf : Buf) :
    (snapScan actx cmp s memBuf blBuf).windows.map RescanWindow.i = windowStarts s.addr s.valueLength s.live :=
  @starts_snapLoop _ actx cmp (s.slotCount + 1) 0 ⟨s, memBuf, blBuf, 0, []⟩ s.live rfl
    (Nat.lt_succ_of_le (length_setFrom_le ..))

end Windows

/-! ## How many records -/

/-- So many windows of a session that each starts a step behind the one before. -/
def SnapSession.HasPacedWindows (s : SnapSession) (count : Nat) : Prop :=
  ∃ starts : List Nat, starts.Sublist (windowStarts s.addr s.valueLength s.live) ∧ starts.length = count ∧
    Paced (progStep s.slotCount) (progStep s.slotCount) starts

section Progress

variable {mem : Memory} (actx : Option (AliasEngine mem)) (cmp : List Byte → List Byte → Bool) (s : SnapSession)
  (memBuf blBuf : Buf)

theorem windowStarts_pairwise : (windowStarts s.addr s.valueLength s.live).Pairwise (· < ·) :=
  (setFrom_pairwise s.bitmap 0 s.slotCount).sublist (windowStarts_sublist s.live)

theorem lt_of_mem_windowStarts {i : Nat} (hi : i ∈ windowStarts s.addr s.valueLength s.live) : i < s.slotCount :=
  (mem_setFrom.mp ((windowStarts_sublist s.live).subset hi)).2.1

/-- A session without slots has no windows either. -/
theorem snapProgress_eq : snapProgress actx cmp s memBuf blBuf =
    throttle (progStep s.slotCount) (progStep s.slotCount) (windowStarts s.addr s.valueLength s.live) := by
  rw [snapProgress, starts_snapScan]
  split
  · rename_i hzero
    have hlive : s.live = [] := setFrom_of_le (Nat.le_of_eq hzero)
    rw [hlive, windowStarts]
    rfl
  · rfl

/-- The records are window starts in order. -/
theorem snapProgress_sublist :
    (snapProgress actx cmp s memBuf blBuf).Sublist (windowStarts s.addr s.valueLength s.live) := by
  rw [snapProgress_eq]
  exact throttle_sublist

/-- A rescan sends at most 256 records, strictly increasing and below the slot count, if and only if no 257 of its
windows each start a step behind the one before. -/
theorem progress_throttled_iff :
    ((snapProgress actx cmp s memBuf blBuf).length ≤ 256 ∧
        (snapProgress actx cmp s memBuf blBuf).Pairwise (· < ·) ∧
        ∀ i ∈ snapProgress actx cmp s memBuf blBuf, i < s.slotCount) ↔ ¬ s.HasPacedWindows 257 := by
  have hsub := snapProgress_sublist actx cmp s memBuf blBuf
  have hlen : (snapProgress actx cmp s memBuf blBuf).length ≤ 256 ↔ ¬ s.HasPacedWindows 257 := by
    rw [snapProgress_eq]
    exact length_throttle_le_iff (windowStarts_pairwise s)
  refine Iff.trans ?_ hlen
  exact and_iff_left ⟨(windowStarts_pairwise s).sublist hsub, fun i hi => lt_of_mem_windowStarts s (hsub.subset hi)⟩

end Progress

/-! ## Slots that are far apart -/

/-- Segments of four bytes, 64 KiB apart. -/
def farSegments (count : Nat) : List SnapSegment :=
  (List.range count).map fun k => ⟨UInt64.ofNat (0x100000000 + k * 0x10000), 4⟩

/-- A session over such segments, each with a slot, all alive. -/
def farSession (count : Nat) : SnapSession :=
  { bitmap := fun _ => 0xFF, slotCount := count, survivorCount := count, stride := 4
    store := ⟨fun _ => 0, 4 * count, fun _ => 0⟩
    firstFile := fun _ => 0, hasFirst := false, prevFile := fun _ => 0, hasPrev := false
    seg := buildSegments 4 4 0 (farSegments count), valueLength := 4 }

section Far

variable {count : Nat} (hcount : count ≤ 2 ^ 20)

include hcount in
theorem slotAddrs_farSegments :
    slotAddrs 4 4 (farSegments count) = (List.range count).map fun k => 0x100000000 + k * 0x10000 := by
  rw [slotAddrs, farSegments, List.flatMap_map, ← List.flatMap_singleton' ((List.range count).map _), List.flatMap_map]
  refine List.flatMap_congr fun k hk => ?_
  have hk := List.mem_range.mp hk
  have haddr : (UInt64.ofNat (0x100000000 + k * 0x10000)).toNat = 0x100000000 + k * 0x10000 := by
    rw [UInt64.toNat_ofNat']
    exact Nat.mod_eq_of_lt (by omega)
  have hslots : segSlots 4 4 (4 : UInt32).toNat = 1 := by decide
  rw [hslots, List.range_one, List.map_singleton, haddr, Nat.zero_mul, Nat.add_zero]

include hcount in
theorem addr_farSession {i : Nat} (hi : i < count) : (farSession count).addr i = 0x100000000 + i * 0x10000 := by
  have hlen : (slotAddrs 4 4 (farSegments count)).length = count := by
    rw [slotAddrs_farSegments hcount, List.length_map, List.length_range]
  rw [SnapSession.addr, farSession, slotAddr_eq (by omega) (by omega), slotAddrs_farSegments hcount,
    List.getD_eq_getElem?_getD, List.getElem?_map, List.getElem?_range hi, Option.map_some, Option.getD_some,
    u64_of_lt (by omega)]

theorem live_farSession : (farSession count).live = List.range' 0 count := by
  rw [SnapSession.live, setFrom, Nat.sub_zero]
  exact List.filter_eq_self.mpr fun i _ => bit_ones i

include hcount in
/-- No window takes in two of the slots. -/
theorem windowStarts_farSession :
    windowStarts (farSession count).addr (farSession count).valueLength (farSession count).live =
      List.range' 0 count := by
  rw [live_farSession]
  refine windowStarts_of_far (List.Pairwise.imp_of_mem ?_ List.pairwise_lt_range')
  intro i j hi hj hij
  have hi := (List.mem_range'_1.mp hi).2
  have hj := (List.mem_range'_1.mp hj).2
  have hv : (farSession count).valueLength = 4 := rfl
  rw [addr_farSession hcount (by omega), addr_farSession hcount (by omega), hv, u64_of_lt (by omega)]
  have hbehind : 0x100000000 + j * 0x10000 > 0x100000000 + i * 0x10000 + 4 := by omega
  have hgap : 0x100000000 + j * 0x10000 - (0x100000000 + i * 0x10000 + 4) > rescanGapMax := by
    rw [rescanGapMax]
    omega
  simp only [windowExtends]
  rw [if_pos hbehind, if_pos hgap]

end Far

theorem paced_range' (start n : Nat) : Paced 1 start (List.range' start n) := by
  induction n generalizing start with
  | zero => trivial
  | succ n ih => exact ⟨Nat.le_refl _, ih (start + 1)⟩

/-- 511 slots that are far apart give 510 records. -/
theorem far_slots_flood : ¬ ((snapProgress (none : Option (AliasEngine fun _ => 0)) (fun _ _ => true)
    (farSession 511) (fun _ => 0) fun _ => 0).length ≤ 256 ∧
      (snapProgress (none : Option (AliasEngine fun _ => 0)) (fun _ _ => true) (farSession 511) (fun _ => 0)
        fun _ => 0).Pairwise (· < ·) ∧
      ∀ i ∈ snapProgress (none : Option (AliasEngine fun _ => 0)) (fun _ _ => true) (farSession 511) (fun _ => 0)
        fun _ => 0, i < (farSession 511).slotCount) := by
  rintro ⟨hle, -⟩
  have hstep : progStep (farSession 511).slotCount = 1 := by decide
  rw [snapProgress_eq, windowStarts_farSession (by decide), hstep] at hle
  have hsub : (List.range' 1 510).Sublist (List.range' 0 511) := List.sublist_cons_self 0 _
  have hlong := (paced_range' 1 510).length_le_throttle List.pairwise_lt_range' hsub
  rw [List.length_range'] at hlong
  omega

end Ps5Debugger

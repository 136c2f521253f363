import Ps5Debugger.ClientScan
import Ps5Debugger.MemoryRanges

/-!
# The ranges that a scan reads

`resolveTargetRanges` (`MemoryScannerView.kt`) says what a scan reads: the maps inside a range that was typed in, or
what the open targets have of readable maps. `mergeMemoryRanges` puts the ranges in order and joins those that
meet.

`scan_ranges_exact`: what comes out is in order with gaps, and it covers what was wanted and nothing else.
-/

namespace Ps5Debugger

open Lib

namespace ScannerView

/-! ## Merging -/

/-- The loop of `mergeMemoryRanges` over the ranges behind `current`. -/
def mergeFrom (current : MemoryRange) : List MemoryRange → List MemoryRange
  | [] => [current]
  | next :: rest =>
    if next.start ≤ current.stop then
      mergeFrom
        { current with stop := max current.stop next.stop, protections := current.protections ||| next.protections }
        rest
    else current :: mergeFrom next rest

def mergeMemoryRanges (ranges : List MemoryRange) : List MemoryRange :=
  match (ranges.filter fun r => r.start < r.stop).insertionSort (·.start ≤ ·.start) with
  | [] => []
  | current :: rest => mergeFrom current rest

/-! ## What is to be read -/

def parseHexAddress (value : Text) : Option Int :=
  let trimmed := trim value
  if trimmed = [] then none else toLongOrNull16 (removePrefix ['0', 'X'] (removePrefix ['0', 'x'] trimmed))

/-- A range that may be read and is not empty. -/
def isReadable (r : MemoryRange) : Bool := r.protections &&& 1 ≠ 0 && decide (r.start < r.stop)

/-- The part of a map between two addresses. -/
def slice (map : MemoryRange) (s e : Int) : Option MemoryRange :=
  let sliceS := max map.start s
  let sliceE := min map.stop e
  if sliceS < sliceE then some ⟨map.name, sliceS, sliceE, map.protections, none, []⟩ else none

/-- What a scan reads of one open target. -/
def targetRanges (allVmMaps : List MemoryRange) (target : MemoryRange) : List MemoryRange :=
  if target.subRanges ≠ [] then target.subRanges.filter isReadable
  else if allVmMaps ≠ [] then
    let overlapping :=
      allVmMaps.filter fun map => isReadable map && decide (target.start < map.stop) && decide (map.start < target.stop)
    if overlapping ≠ [] then overlapping.filterMap fun map => slice map target.start target.stop
    else if isReadable target then [target] else []
  else if isReadable target then [target] else []

def openTargets (activeMap : Option MemoryRange) (activeMaps : List MemoryRange) : List MemoryRange :=
  if activeMaps ≠ [] then activeMaps else activeMap.toList

def resolveTargetRanges (useCustomRange : Bool) (customRangeStart customRangeEnd : Text)
    (activeMap : Option MemoryRange) (activeMaps allVmMaps : List MemoryRange) : List MemoryRange :=
  if useCustomRange then
    let s := (parseHexAddress customRangeStart).getD 0
    let e := (parseHexAddress customRangeEnd).getD 0
    if e ≤ s then []
    else
      mergeMemoryRanges
        (if allVmMaps ≠ [] then (allVmMaps.filter isReadable).filterMap fun map => slice map s e
        else [⟨"Custom Range", s, e, 3, none, []⟩])
  else if openTargets activeMap activeMaps = [] then []
  else mergeMemoryRanges ((openTargets activeMap activeMaps).flatMap (targetRanges allVmMaps))

/-! ## What merging covers -/

/-- The segments of ranges. -/
def segments (ranges : List MemoryRange) : List Segment := ranges.map MemoryRange.segment

theorem covered_segments {ranges : List MemoryRange} {a : Int} :
    Covered (segments ranges) a ↔ ∃ r ∈ ranges, r.segment.Has a := by
  constructor
  · rintro ⟨s, hs, ha⟩
    obtain ⟨r, hr, rfl⟩ := List.mem_map.mp hs
    exact ⟨r, hr, ha⟩
  · rintro ⟨r, hr, ha⟩
    exact ⟨r.segment, List.mem_map_of_mem hr, ha⟩

/-- Ranges with gaps are in the order of their starts. -/
theorem sorted_of_normalised {ranges : List MemoryRange} (h : Normalised (segments ranges)) :
    ranges.Pairwise fun r r' => r.start ≤ r'.start := by
  have hgaps := List.pairwise_map.mp h.gaps
  refine hgaps.imp_of_mem fun {r r'} hr _ hgap => ?_
  exact le_of_lt (lt_trans (h.nonempty _ (List.mem_map_of_mem hr)) hgap)

/-- The loop joins what meets and starts anew behind a gap; the ranges come in the order of their starts. -/
theorem mergeFrom_spec {current : MemoryRange} {rest : List MemoryRange} (hne : current.start < current.stop)
    (hrest : ∀ r ∈ rest, r.start < r.stop) (hle : ∀ r ∈ rest, current.start ≤ r.start)
    (hsorted : rest.Pairwise fun r r' => r.start ≤ r'.start) :
    Normalised (segments (mergeFrom current rest)) ∧ (∀ r ∈ mergeFrom current rest, current.start ≤ r.start) ∧
      ∀ a, Covered (segments (mergeFrom current rest)) a ↔ current.segment.Has a ∨ Covered (segments rest) a := by
  induction rest generalizing current with
  | nil =>
    refine ⟨normalised_cons.mpr ⟨hne, nofun, normalised_nil⟩, ?_, fun a => covered_cons⟩
    intro r hr
    rw [List.mem_singleton.mp hr]
  | cons next rest ih =>
    obtain ⟨hnext, hrest'⟩ := List.forall_mem_cons.mp hrest
    obtain ⟨hnextle, hle'⟩ := List.forall_mem_cons.mp hle
    have hbehind : ∀ r ∈ rest, next.start ≤ r.start := fun r hr => List.rel_of_pairwise_cons hsorted hr
    rw [mergeFrom]
    split
    · rename_i hmeet
      obtain ⟨hnorm, hstarts, hcov⟩ := @ih { current with
        stop := max current.stop next.stop, protections := current.protections ||| next.protections }
        (lt_of_lt_of_le hne (le_max_left _ _)) hrest' hle' hsorted.of_cons
      refine ⟨hnorm, hstarts, fun a => ?_⟩
      -- the joined range has what either has, as `next` starts inside `current` or where it ends
      have hjoin : (MemoryRange.segment { current with
          stop := max current.stop next.stop, protections := current.protections ||| next.protections }).Has a ↔
          current.segment.Has a ∨ next.segment.Has a := by
        simp only [MemoryRange.segment, Segment.Has]
        omega
      rw [hcov a, hjoin, or_assoc]
      exact or_congr_right covered_cons.symm
    · rename_i hgap
      obtain ⟨hnorm, hstarts, hcov⟩ := ih hnext hrest' hbehind hsorted.of_cons
      refine ⟨normalised_cons.mpr ⟨hne, ?_, hnorm⟩, ?_, fun a => ?_⟩
      · intro t ht
        obtain ⟨r, hr, rfl⟩ := List.mem_map.mp ht
        exact lt_of_lt_of_le (not_le.mp hgap) (hstarts r hr)
      · intro r hr
        rcases List.mem_cons.mp hr with rfl | hr
        · exact le_refl _
        · exact le_trans hnextle (hstarts r hr)
      · exact covered_cons.trans (or_congr_right ((hcov a).trans covered_cons.symm))

/-- Merged ranges are in order with gaps, and cover what the ranges that are not empty cover. -/
theorem mergeMemoryRanges_spec (ranges : List MemoryRange) :
    Normalised (segments (mergeMemoryRanges ranges)) ∧
      ∀ a, Covered (segments (mergeMemoryRanges ranges)) a ↔ ∃ r ∈ ranges, r.start < r.stop ∧ r.segment.Has a := by
  have hperm := List.perm_insertionSort (fun r r' : MemoryRange => r.start ≤ r'.start)
    (ranges.filter fun r => r.start < r.stop)
  have hsorted := List.pairwise_insertionSort (fun r r' : MemoryRange => r.start ≤ r'.start)
    (ranges.filter fun r => r.start < r.stop)
  have hmem : ∀ r, r ∈ (ranges.filter fun r => r.start < r.stop).insertionSort (·.start ≤ ·.start) ↔
      r ∈ ranges ∧ r.start < r.stop := fun r => by
    rw [hperm.mem_iff, List.mem_filter, decide_eq_true_iff]
  have hcov : ∀ a, (∃ r ∈ ranges, r.start < r.stop ∧ r.segment.Has a) ↔
      Covered (segments ((ranges.filter fun r => r.start < r.stop).insertionSort (·.start ≤ ·.start))) a := fun a => by
    rw [covered_segments]
    refine exists_congr fun r => ?_
    rw [hmem r, and_assoc]
  rw [mergeMemoryRanges]
  split
  · rename_i hnil
    refine ⟨normalised_nil, fun a => ?_⟩
    rw [hcov a, hnil]
  · rename_i current rest hcons
    rw [hcons] at hsorted hmem hcov
    obtain ⟨hnorm, -, hmerged⟩ := mergeFrom_spec ((hmem current).mp List.mem_cons_self).2
      (fun r hr => ((hmem r).mp (List.mem_cons_of_mem _ hr)).2) (fun r hr => List.rel_of_pairwise_cons hsorted hr)
      hsorted.of_cons
    refine ⟨hnorm, fun a => ?_⟩
    rw [hmerged a, hcov a]
    exact covered_cons.symm

/-! ## What a scan reads -/

open scoped Classical in
/-- What the open target is scanned for: its readable parts if it has parts, or what it shares with readable maps if
it shares an address with one, or else itself if it is readable. -/
noncomputable def Wanted (allVmMaps : List MemoryRange) (target : MemoryRange) (a : Int) : Prop :=
  if target.subRanges ≠ [] then ∃ sub ∈ target.subRanges, isReadable sub ∧ sub.segment.Has a
  else if ∃ map ∈ allVmMaps, isReadable map ∧ ∃ b, map.segment.Has b ∧ target.segment.Has b then
    target.segment.Has a ∧ ∃ map ∈ allVmMaps, isReadable map ∧ map.segment.Has a
  else isReadable target ∧ target.segment.Has a

variable {allVmMaps : List MemoryRange}

theorem isReadable_iff {r : MemoryRange} : isReadable r ↔ r.protections &&& 1 ≠ 0 ∧ r.start < r.stop := by
  rw [isReadable, Bool.and_eq_true, decide_eq_true_iff, decide_eq_true_iff]

theorem lt_of_has {r : MemoryRange} {a : Int} (h : r.segment.Has a) : r.start < r.stop := lt_of_le_of_lt h.1 h.2

/-- A slice has what the map has between the addresses. -/
theorem slice_spec {map : MemoryRange} {s e a : Int} :
    (∃ r, slice map s e = some r ∧ r.segment.Has a) ↔ map.segment.Has a ∧ s ≤ a ∧ a < e := by
  rw [slice]
  constructor
  · rintro ⟨r, hr, ha⟩
    split at hr
    · cases hr
      simp only [MemoryRange.segment, Segment.Has] at ha ⊢
      omega
    · cases hr
  · rintro ⟨⟨hlo, hhi⟩, hs, he⟩
    simp only [MemoryRange.segment] at hlo hhi
    have hlt : max map.start s < min map.stop e := by omega
    refine ⟨_, if_pos hlt, ?_⟩
    simp only [MemoryRange.segment, Segment.Has]
    omega

/-- Slices of some maps together. -/
theorem slices_spec {maps : List MemoryRange} {s e a : Int} :
    (∃ r ∈ maps.filterMap fun map => slice map s e, r.segment.Has a) ↔
      (s ≤ a ∧ a < e) ∧ ∃ map ∈ maps, map.segment.Has a := by
  constructor
  · rintro ⟨r, hr, ha⟩
    obtain ⟨map, hmap, hslice⟩ := List.mem_filterMap.mp hr
    obtain ⟨hhas, hin⟩ := slice_spec.mp ⟨r, hslice, ha⟩
    exact ⟨hin, map, hmap, hhas⟩
  · rintro ⟨hin, map, hmap, hhas⟩
    obtain ⟨r, hslice, ha⟩ := slice_spec.mpr ⟨hhas, hin⟩
    exact ⟨r, List.mem_filterMap.mpr ⟨map, hmap, hslice⟩, ha⟩

/-- For a readable map and a target with an address each, the test of the code is that they share one. -/
theorem meets_iff {map target : MemoryRange} (hmap : map.start < map.stop) (htarget : target.start < target.stop) :
    (target.start < map.stop ∧ map.start < target.stop) ↔ ∃ b, map.segment.Has b ∧ target.segment.Has b := by
  constructor
  · rintro ⟨h, h'⟩
    exact ⟨max map.start target.start, ⟨le_max_left _ _, max_lt hmap h⟩, le_max_right _ _, max_lt h' htarget⟩
  · rintro ⟨b, ⟨hlo, hhi⟩, hlo', hhi'⟩
    exact ⟨lt_of_le_of_lt hlo' hhi, lt_of_le_of_lt hlo hhi'⟩

/-- A target is read for what is wanted of it. -/
theorem targetRanges_spec (hall : allVmMaps ≠ []) (target : MemoryRange) (a : Int) :
    (∃ r ∈ targetRanges allVmMaps target, r.start < r.stop ∧ r.segment.Has a) ↔ Wanted allVmMaps target a := by
  have hdrop : (∃ r ∈ targetRanges allVmMaps target, r.start < r.stop ∧ r.segment.Has a) ↔
      ∃ r ∈ targetRanges allVmMaps target, r.segment.Has a :=
    exists_congr fun r => and_congr_right fun _ => and_iff_right_of_imp lt_of_has
  have hself : (∃ r ∈ (if isReadable target then [target] else []), r.segment.Has a) ↔
      isReadable target ∧ target.segment.Has a := by
    split
    · rename_i hread
      simp [hread]
    · rename_i hread
      exact ⟨nofun, fun h => absurd h.1 hread⟩
  rw [hdrop, targetRanges, Wanted]
  split
  · refine exists_congr fun sub => ?_
    rw [List.mem_filter, and_assoc]
  · dsimp only
    by_cases htarget : target.start < target.stop
    · have hover : ∀ map, map ∈ (allVmMaps.filter fun map =>
          isReadable map && decide (target.start < map.stop) && decide (map.start < target.stop)) ↔
          map ∈ allVmMaps ∧ isReadable map ∧ ∃ b, map.segment.Has b ∧ target.segment.Has b := fun map => by
        rw [List.mem_filter, Bool.and_eq_true, Bool.and_eq_true, decide_eq_true_iff, decide_eq_true_iff, and_assoc]
        refine and_congr_right fun _ => and_congr_right fun hread => ?_
        exact meets_iff (isReadable_iff.mp hread).2 htarget
      have hsome : (allVmMaps.filter fun map =>
          isReadable map && decide (target.start < map.stop) && decide (map.start < target.stop)) ≠ [] ↔
          ∃ map ∈ allVmMaps, isReadable map ∧ ∃ b, map.segment.Has b ∧ target.segment.Has b := by
        exact (List.length_pos_iff.symm.trans List.length_pos_iff_exists_mem).trans (exists_congr hover)
      by_cases hex : ∃ map ∈ allVmMaps, isReadable map ∧ ∃ b, map.segment.Has b ∧ target.segment.Has b
      · rw [if_pos (hsome.mpr hex), if_pos hex, slices_spec]
        refine and_congr_right fun htargetHas => exists_congr fun map => ?_
        rw [hover map, and_assoc, and_assoc]
        exact and_congr_right fun _ => and_congr_right fun _ => and_iff_right_of_imp fun hhas => ⟨a, hhas, htargetHas⟩
      · rw [if_neg (mt hsome.mp hex), if_neg hex]
        exact hself
    · -- an empty target is read for nothing, whatever the maps are
      have hnot : ¬ target.segment.Has a := mt lt_of_has htarget
      constructor
      · intro h
        split at h
        · exact absurd (slices_spec.mp h).1 hnot
        · exact absurd (hself.mp h).2 hnot
      · intro h
        split at h
        · exact absurd h.1 hnot
        · exact absurd h.2 hnot

/-- What a scan is to read: the readable parts of the range that was typed in, or what is wanted of the open targets. -/
def ToScan (useCustomRange : Bool) (customRangeStart customRangeEnd : Text) (activeMap : Option MemoryRange)
    (activeMaps allVmMaps : List MemoryRange) (a : Int) : Prop :=
  if useCustomRange then
    ((parseHexAddress customRangeStart).getD 0 ≤ a ∧ a < (parseHexAddress customRangeEnd).getD 0) ∧
      ∃ map ∈ allVmMaps, isReadable map ∧ map.segment.Has a
  else ∃ target ∈ openTargets activeMap activeMaps, Wanted allVmMaps target a

/-- The ranges of a scan. -/
theorem resolveTargetRanges_spec (useCustomRange : Bool) (customRangeStart customRangeEnd : Text)
    (activeMap : Option MemoryRange) (activeMaps : List MemoryRange) (hall : allVmMaps ≠ []) :
    Normalised (segments
        (resolveTargetRanges useCustomRange customRangeStart customRangeEnd activeMap activeMaps allVmMaps)) ∧
      ∀ a, Covered (segments
          (resolveTargetRanges useCustomRange customRangeStart customRangeEnd activeMap activeMaps allVmMaps)) a ↔
        ToScan useCustomRange customRangeStart customRangeEnd activeMap activeMaps allVmMaps a := by
  rw [resolveTargetRanges]
  simp only [ToScan]
  split
  · split
    · rename_i hempty
      refine ⟨normalised_nil, fun a => ⟨nofun, ?_⟩⟩
      rintro ⟨⟨hlo, hhi⟩, -⟩
      exact absurd (lt_of_le_of_lt hlo hhi) (not_lt.mpr hempty)
    · obtain ⟨hnorm, hcov⟩ := mergeMemoryRanges_spec ((allVmMaps.filter isReadable).filterMap fun map =>
        slice map ((parseHexAddress customRangeStart).getD 0) ((parseHexAddress customRangeEnd).getD 0))
      refine ⟨hnorm, fun a => ?_⟩
      rw [hcov a, exists_congr fun r => and_congr_right fun _ => and_iff_right_of_imp lt_of_has, slices_spec]
      refine and_congr_right fun _ => exists_congr fun map => ?_
      rw [List.mem_filter, and_assoc]
  · split
    · rename_i hnone
      rw [hnone]
      exact ⟨normalised_nil, fun a => ⟨nofun, nofun⟩⟩
    · obtain ⟨hnorm, hcov⟩ :=
        mergeMemoryRanges_spec ((openTargets activeMap activeMaps).flatMap (targetRanges allVmMaps))
      refine ⟨hnorm, fun a => ?_⟩
      rw [hcov a]
      constructor
      · rintro ⟨r, hr, ha⟩
        obtain ⟨target, htarget, hr⟩ := List.mem_flatMap.mp hr
        exact ⟨target, htarget, (targetRanges_spec hall target a).mp ⟨r, hr, ha⟩⟩
      · rintro ⟨target, htarget, hwant⟩
        obtain ⟨r, hr, ha⟩ := (targetRanges_spec hall target a).mpr hwant
        exact ⟨r, List.mem_flatMap.mpr ⟨target, htarget, hr⟩, ha⟩

/-- Merging gives ranges in order, with gaps between neighbours, that cover what the ranges with an address cover;
and the ranges of a scan are such ranges for what is to be scanned. -/
theorem scan_ranges_exact :
    (∀ ranges : List MemoryRange,
      (mergeMemoryRanges ranges).Pairwise (fun r r' => r.start ≤ r'.start) ∧
        Normalised (segments (mergeMemoryRanges ranges)) ∧
        ∀ a, Covered (segments (mergeMemoryRanges ranges)) a ↔ ∃ r ∈ ranges, r.start < r.stop ∧ r.segment.Has a) ∧
    ∀ useCustomRange customRangeStart customRangeEnd activeMap activeMaps allVmMaps, allVmMaps ≠ [] →
      (resolveTargetRanges useCustomRange customRangeStart customRangeEnd activeMap activeMaps allVmMaps).Pairwise
          (fun r r' => r.start ≤ r'.start) ∧
        Normalised (segments
          (resolveTargetRanges useCustomRange customRangeStart customRangeEnd activeMap activeMaps allVmMaps)) ∧
        ∀ a, Covered (segments
            (resolveTargetRanges useCustomRange customRangeStart customRangeEnd activeMap activeMaps allVmMaps)) a ↔
          ToScan useCustomRange customRangeStart customRangeEnd activeMap activeMaps allVmMaps a := by
  refine ⟨fun ranges => ?_, fun useCustomRange customRangeStart customRangeEnd activeMap activeMaps allVmMaps hall =>
    ?_⟩
  · obtain ⟨hnorm, hcov⟩ := mergeMemoryRanges_spec ranges
    exact ⟨sorted_of_normalised hnorm, hnorm, hcov⟩
  · obtain ⟨hnorm, hcov⟩ :=
      resolveTargetRanges_spec useCustomRange customRangeStart customRangeEnd activeMap activeMaps hall
    exact ⟨sorted_of_normalised hnorm, hnorm, hcov⟩

/-- An open target that meets one of two touching maps. -/
theorem scan_ranges_of_target :
    Normalised (segments (resolveTargetRanges false [] [] (some ⟨"game", 0x2000, 0x5000, 1, none, []⟩) []
      [⟨"text", 0x1000, 0x3000, 5, none, []⟩, ⟨"data", 0x3000, 0x4000, 3, none, []⟩])) :=
  (scan_ranges_exact.2 false [] [] (some ⟨"game", 0x2000, 0x5000, 1, none, []⟩) []
    [⟨"text", 0x1000, 0x3000, 5, none, []⟩, ⟨"data", 0x3000, 0x4000, 3, none, []⟩] (List.cons_ne_nil _ _)).2.1

end ScannerView

end Ps5Debugger

import Ps5Debugger.CompactRuns
import Ps5Debugger.Lib.Stutter
import Ps5Debugger.ScanRanges

/-!
# The slices of a first scan

The first scan (`performScan`, `MemoryScannerView.kt`) cuts every range into slices of at most `0x7FFF0000` bytes and
has the server scan one slice after the other. The server starts its grid of addresses anew in every slice, and
the values that it compares lie inside the slice.

`first_scan_exact_iff` says when the slices together find what lies on the grids of the ranges, whatever the memory
holds; `sliceable_iff_cuts` says it again, by the cuts, for the ranges that a scan reads, which have gaps. The
addresses are `Long`s in the source; here they are integers, and none of them is past the end of its range.
-/

namespace Ps5Debugger

open Lib

namespace ScannerView

/-! ## The scan -/

/-- The most bytes of one command. -/
def sliceMax : Nat := 0x7FFF0000

/-- The start and the length of every slice of a range, from `rangeOffset` on. -/
def scanSlices (rangeOffset stop : Int) : List (Int × Nat) :=
  if rangeOffset < stop then
    let sliceLen := min (stop - rangeOffset) sliceMax
    (rangeOffset, sliceLen.toNat) :: scanSlices (rangeOffset + sliceLen) stop
  else []
termination_by (stop - rangeOffset).toNat
decreasing_by
  simp only [sliceMax]
  omega

/-- A value that the server has found, with its address. -/
abbrev Candidate : Type := Int × List Byte

/-- `newCandidates.add` -/
def addCandidate (newCandidates : List Candidate) (x : Candidate) : List Candidate :=
  if newCandidates.getLast?.map Prod.fst = some x.1 then newCandidates else newCandidates ++ [x]

/-- The offsets in a slice, with the values, that the server sends back. -/
abbrev ScanStart : Type := Int → Nat → List (Nat × List Byte)

/-- What is found in one slice. -/
def sliceCandidates (scan : ScanStart) (slice : Int × Nat) : List Candidate :=
  (scan slice.1 slice.2).map fun hit => (slice.1 + hit.1, hit.2)

def firstScan (scan : ScanStart) (targetRanges : List MemoryRange) : List Candidate :=
  targetRanges.foldl (fun newCandidates range => (scanSlices range.start range.stop).foldl (fun newCandidates slice =>
    (sliceCandidates scan slice).foldl addCandidate newCandidates) newCandidates) []

/-! ## What it is to find -/

/-- The offsets of the grid in `len` bytes that leave room for a value of `v` bytes. -/
def offsets (step v len : Nat) : List Nat := if v ≤ len then strideUpTo step (len - v) else []

/-- The server finds in a slice what matches on the grid of the slice, and sends it in order. -/
def Reports (step v : Nat) (isMatch : Int → Bool) (scan : ScanStart) : Prop :=
  ∀ (s : Int) (len : Nat), len ≤ sliceMax →
    (scan s len).map Prod.fst = (offsets step v len).filter fun offset : Nat => isMatch (s + offset)

/-- An address on the grid of a range, with room for the value. -/
def OnGrid (step v : Nat) (range : MemoryRange) (a : Int) : Prop :=
  ∃ k : Nat, a = range.start + (k * step : Nat) ∧ (k * step + v : Nat) ≤ range.stop - range.start

/-- The candidates are what matches on the grids of the ranges, each once. -/
def CollectsExactly (step v : Nat) (isMatch : Int → Bool) (ranges : List MemoryRange) (found : List Candidate) : Prop :=
  (found.map Prod.fst).Nodup ∧
    ∀ a, a ∈ found.map Prod.fst ↔ isMatch a = true ∧ ∃ range ∈ ranges, OnGrid step v range a

variable {step v : Nat} {isMatch : Int → Bool} {scan : ScanStart} {ranges : List MemoryRange} {range : MemoryRange}
  {start stop a : Int} {s : Int × Nat}

/-! ## What is collected -/

/-- The addresses that the server looks at in a slice. -/
def places (step v : Nat) (slice : Int × Nat) : List Int := (offsets step v slice.2).map fun offset :
    Nat => slice.1 + offset

/-- The addresses that the server looks at in all slices, in the order of the scan. -/
def scanned (step v : Nat) (ranges : List MemoryRange) : List Int :=
  ranges.flatMap fun range => (scanSlices range.start range.stop).flatMap (places step v)

theorem map_addCandidate (newCandidates : List Candidate) (x : Candidate) :
    (addCandidate newCandidates x).map Prod.fst = pushNew (newCandidates.map Prod.fst) x.1 := by
  rw [addCandidate, pushNew, List.getLast?_map]
  split
  · rfl
  · rw [List.map_append, List.map_singleton]

theorem map_foldl_addCandidate (xs newCandidates : List Candidate) :
    (xs.foldl addCandidate newCandidates).map Prod.fst =
    (xs.map Prod.fst).foldl pushNew (newCandidates.map Prod.fst) := by
  induction xs generalizing newCandidates with
  | nil => rfl
  | cons x xs ih => rw [List.foldl_cons, ih, map_addCandidate, List.map_cons, List.foldl_cons]

/-- The candidate as an item of a `CompactScanResults`. -/
def toItem (x : Candidate) : CompactScanResults.Item := (BitVec.ofInt 64 x.1, x.2)

/-- An address that is a `Long`. -/
def IsLong (a : Int) : Prop := -2 ^ 63 ≤ a ∧ a < 2 ^ 63

theorem ofInt_inj {a b : Int} (ha : IsLong a) (hb : IsLong b) : BitVec.ofInt 64 a = BitVec.ofInt 64 b ↔ a = b := by
  refine ⟨fun h => ?_, fun h => h ▸ rfl⟩
  have htoInt := congrArg BitVec.toInt h
  rwa [BitVec.toInt_ofInt_eq_self (by decide) ha.1 ha.2, BitVec.toInt_ofInt_eq_self (by decide) hb.1 hb.2] at htoInt

/-- The candidates are what a `CompactScanResults` that takes them has. -/
theorem appendAll_toItem {xs newCandidates : List Candidate} (hxs : ∀ x ∈ xs, IsLong x.1)
    (hnew : ∀ x ∈ newCandidates, IsLong x.1) :
    CompactScanResults.appendAll (newCandidates.map toItem) (xs.map toItem) =
      (xs.foldl addCandidate newCandidates).map toItem := by
  induction xs generalizing newCandidates with
  | nil => rfl
  | cons x xs ih =>
    obtain ⟨hx, hxs⟩ := List.forall_mem_cons.mp hxs
    have hlast : ((newCandidates.map toItem).getLast?.map Prod.fst = some (toItem x).1) ↔
        newCandidates.getLast?.map Prod.fst = some x.1 := by
      rw [List.getLast?_map]
      cases hy : newCandidates.getLast? with
      | none => exact ⟨nofun, nofun⟩
      | some y => simpa [toItem] using ofInt_inj (hnew y (List.mem_of_getLast? hy)) hx
    have hadd : CompactScanResults.appendItem (newCandidates.map toItem) (toItem x).1 (toItem x).2 =
        (addCandidate newCandidates x).map toItem := by
      rw [CompactScanResults.appendItem, addCandidate]
      simp only [hlast]
      split
      · rfl
      · rw [List.map_append, List.map_singleton]
    rw [List.map_cons, CompactScanResults.appendAll, List.foldl_cons, hadd, List.foldl_cons]
    refine ih hxs fun y hy => ?_
    rw [addCandidate] at hy
    split at hy
    · exact hnew y hy
    · exact (List.mem_append.mp hy).elim (hnew y) fun hy => List.mem_singleton.mp hy ▸ hx

theorem mem_scanSlices_le (h : s ∈ scanSlices start stop) : s.2 ≤ sliceMax := by
  induction start using scanSlices.induct stop with
  | case1 start hlt sliceLen ih =>
    rw [scanSlices, if_pos hlt] at h
    rcases List.mem_cons.mp h with rfl | h
    · simp only [sliceMax]
      omega
    · exact ih h
  | case2 start hlt =>
    rw [scanSlices, if_neg hlt] at h
    cases h

theorem map_sliceCandidates (h : Reports step v isMatch scan) (hs : s.2 ≤ sliceMax) :
    (sliceCandidates scan s).map Prod.fst = (places step v s).filter isMatch := by
  have hreport := h s.1 s.2 hs
  have hmap : (sliceCandidates scan s).map Prod.fst = ((scan s.1 s.2).map Prod.fst).map fun offset :
    Nat => s.1 + offset := by
    rw [sliceCandidates, List.map_map, List.map_map]
    rfl
  rw [hmap, hreport, places, List.filter_map]
  rfl

/-- The candidates are the matches in all slices, but for one that is found twice in a row. -/
theorem map_firstScan (h : Reports step v isMatch scan) (ranges : List MemoryRange) :
    (firstScan scan ranges).map Prod.fst = pushAll ((scanned step v ranges).filter isMatch) := by
  have hslices : ∀ range : MemoryRange, ((scanSlices range.start range.stop).flatMap
    (sliceCandidates scan)).map Prod.fst =
      ((scanSlices range.start range.stop).flatMap (places step v)).filter isMatch := by
    intro range
    rw [List.map_flatMap, List.filter_flatMap]
    exact List.flatMap_congr fun s hs => map_sliceCandidates h (mem_scanSlices_le hs)
  have hscan : firstScan scan ranges =
      (ranges.flatMap fun range => (scanSlices range.start range.stop).flatMap (sliceCandidates scan)).foldl
        addCandidate [] := by
    rw [firstScan, List.foldl_flatMap]
    congr 1
    funext newCandidates range
    rw [List.foldl_flatMap]
  rw [hscan, map_foldl_addCandidate, List.map_flatMap, scanned, List.filter_flatMap, pushAll]
  congr 1
  exact List.flatMap_congr fun range _ => hslices range

/-- The slices look at what lies on the grids of the ranges, and at nothing again once they have looked elsewhere. -/
structure Sliceable (step v : Nat) (ranges : List MemoryRange) : Prop where
  grids : ∀ a, a ∈ scanned step v ranges ↔ ∃ range ∈ ranges, OnGrid step v range a
  noReturn : NoReturn (scanned step v ranges)

/-- A server that does what it is to do. -/
def idealScan (step v : Nat) (isMatch : Int → Bool) : ScanStart := fun s len =>
  ((offsets step v len).filter fun offset : Nat => isMatch (s + offset)).map fun offset => (offset, List.replicate v 0)

theorem reports_idealScan (step v : Nat) (isMatch : Int → Bool) :
    Reports step v isMatch (idealScan step v isMatch) := by
  intro s len _
  rw [idealScan, List.map_map]
  exact List.map_id _

/-- What is looked at decides, if everything matches. -/
theorem collectsExactly_iff_sliceable (step v : Nat) (ranges : List MemoryRange) :
    (∀ isMatch scan, Reports step v isMatch scan → CollectsExactly step v isMatch ranges (firstScan scan ranges)) ↔
      Sliceable step v ranges := by
  constructor
  · intro h
    obtain ⟨hnodup, hgrids⟩ := h (fun _ => true) _ (reports_idealScan step v fun _ => true)
    simp only [map_firstScan (reports_idealScan step v fun _ => true), List.filter_true, mem_pushAll, true_and]
      at hnodup hgrids
    exact ⟨hgrids, nodup_pushAll_iff.mp hnodup⟩
  · rintro ⟨hgrids, hreturn⟩ isMatch scan hreports
    rw [CollectsExactly, map_firstScan hreports]
    refine ⟨nodup_pushAll_iff.mpr (hreturn.sublist List.filter_sublist), fun a => ?_⟩
    rw [mem_pushAll, List.mem_filter, hgrids, and_comm]

/-! ## Cuts -/

/-- The range fits in a slice; or the slice has whole steps, or no value fits behind the first cut, and no value on
the grid lies across a cut. -/
def Cuts (step v : Nat) (range : MemoryRange) : Prop :=
  range.stop - range.start ≤ sliceMax ∨
    ((step ∣ sliceMax ∨ range.stop - range.start - sliceMax < v) ∧
      ∀ k : Nat, (k * step + v : Nat) ≤ range.stop - range.start → k * step % sliceMax + v ≤ sliceMax)

theorem mem_scanSlices_iff : s ∈ scanSlices start stop ↔
    ∃ i : Nat, (i * sliceMax : Nat) < stop - start ∧
      s = (start + (i * sliceMax : Nat), (min (stop - start - (i * sliceMax : Nat)) sliceMax).toNat) := by
  induction start using scanSlices.induct stop with
  | case1 start hlt sliceLen ih =>
    have hslice : sliceLen = min (stop - start) sliceMax := rfl
    rw [scanSlices, if_pos hlt, List.mem_cons, ih]
    clear ih
    clear_value sliceLen
    constructor
    · rintro (rfl | ⟨i, hi, rfl⟩)
      · exact ⟨0, by omega, by simp⟩
      · -- there is a slice behind this one, which is then as long as one can be
        refine ⟨i + 1, ?_⟩
        rw [Nat.succ_mul]
        generalize i * sliceMax = m at hi ⊢
        have hfull : sliceLen = sliceMax := by omega
        exact ⟨by omega, Prod.ext (by simp only; omega) (by simp only; omega)⟩
    · rintro ⟨i, hi, rfl⟩
      cases i with
      | zero => exact .inl (by simp)
      | succ i =>
        refine .inr ⟨i, ?_⟩
        rw [Nat.succ_mul] at hi ⊢
        generalize i * sliceMax = m at hi ⊢
        have hfull : sliceLen = sliceMax := by omega
        exact ⟨by omega, Prod.ext (by simp only; omega) (by simp only; omega)⟩
  | case2 start hlt =>
    rw [scanSlices, if_neg hlt]
    refine ⟨nofun, ?_⟩
    rintro ⟨i, hi, -⟩
    omega

theorem mem_places (hstep : 0 < step) : a ∈ places step v s ↔ ∃ j :
    Nat, a = s.1 + (j * step : Nat) ∧ j * step + v ≤ s.2 := by
  rw [places, List.mem_map, offsets]
  split
  · simp only [mem_strideUpTo hstep]
    constructor
    · rintro ⟨_, ⟨⟨j, rfl⟩, hle⟩, rfl⟩
      exact ⟨j, by rw [Nat.mul_comm], by rw [Nat.mul_comm]; omega⟩
    · rintro ⟨j, rfl, hle⟩
      exact ⟨j * step, ⟨Nat.dvd_mul_left _ _, by omega⟩, rfl⟩
  · refine ⟨?_, ?_⟩
    · rintro ⟨_, h, -⟩
      cases h
    · rintro ⟨j, -, hle⟩
      omega

/-- The addresses that are looked at in a range. -/
theorem mem_range_places (hstep : 0 < step) :
    a ∈ (scanSlices range.start range.stop).flatMap (places step v) ↔
      ∃ i j : Nat, a = range.start + (i * sliceMax + j * step : Nat) ∧ (i * sliceMax : Nat) < range.stop - range.start ∧
        j * step + v ≤ sliceMax ∧ (i * sliceMax + j * step + v : Nat) ≤ range.stop - range.start := by
  simp only [List.mem_flatMap, mem_scanSlices_iff, mem_places hstep]
  constructor
  · rintro ⟨_, ⟨i, hi, rfl⟩, j, rfl, hle⟩
    exact ⟨i, j, by simp only; omega, hi, by simp only at hle; omega, by simp only at hle; omega⟩
  · rintro ⟨i, j, rfl, hi, hle, hroom⟩
    exact ⟨_, ⟨i, hi, rfl⟩, j, by simp only; omega, by simp only; omega⟩

/-- The slices of a range that is not empty look at its grid exactly if the cuts are harmless. -/
theorem grid_iff_cuts (hstep : 0 < step) (hne : range.start < range.stop) :
    (∀ a, a ∈ (scanSlices range.start range.stop).flatMap (places step v) ↔ OnGrid step v range a) ↔
      Cuts step v range := by
  obtain ⟨len, hlen⟩ : ∃ len : Nat, range.stop - range.start = len := ⟨(range.stop - range.start).toNat, by omega⟩
  have hcuts : Cuts step v range ↔ len ≤ sliceMax ∨ ((step ∣ sliceMax ∨ len < sliceMax + v) ∧
      ∀ k, k * step + v ≤ len → k * step % sliceMax + v ≤ sliceMax) := by
    simp only [Cuts, hlen, Nat.cast_le]
    exact or_congr_right (and_congr_left fun _ => or_congr_right (by omega))
  rw [hcuts, ← sliced_iff (by omega) (by decide)]
  simp only [mem_range_places hstep, OnGrid, hlen]
  constructor
  · intro h o
    have := h (range.start + o)
    simpa only [add_right_inj, Nat.cast_inj, Nat.cast_le, Nat.cast_lt] using this
  · intro h a
    constructor
    · rintro ⟨i, j, rfl, hi, hj, hroom⟩
      obtain ⟨k, hk, hroom⟩ := (h _).mp ⟨i, j, rfl, by exact_mod_cast hi, hj, by exact_mod_cast hroom⟩
      exact ⟨k, by rw [hk], by exact_mod_cast hroom⟩
    · rintro ⟨k, rfl, hroom⟩
      obtain ⟨i, j, hk, hi, hj, hroom⟩ := (h _).mpr ⟨k, rfl, by exact_mod_cast hroom⟩
      exact ⟨i, j, by rw [hk], by exact_mod_cast hi, hj, by exact_mod_cast hroom⟩

/-! ## Ranges with gaps -/

/-- What is looked at in a range, and its grid, lie in the range. -/
theorem mem_range_places_bounds (hstep : 0 < step)
    (h : a ∈ (scanSlices range.start range.stop).flatMap (places step v)) : range.start ≤ a ∧ a ≤ range.stop := by
  obtain ⟨i, j, rfl, -, -, hroom⟩ := (mem_range_places hstep).mp h
  omega

theorem OnGrid.bounds (h : OnGrid step v range a) : range.start ≤ a ∧ a ≤ range.stop := by
  obtain ⟨k, rfl, hroom⟩ := h
  omega

theorem sorted_places (step v : Nat) (s : Int × Nat) : (places step v s).Pairwise (· ≤ ·) := by
  rw [places, List.pairwise_map, offsets]
  split
  · rw [strideUpTo, List.pairwise_map]
    refine List.pairwise_lt_range.imp fun {k l} hkl => ?_
    have := Nat.mul_le_mul_right step hkl.le
    omega
  · exact .nil

theorem sorted_scanSlices (start stop : Int) :
    (scanSlices start stop).Pairwise fun s t : Int × Nat => s.1 + s.2 ≤ t.1 := by
  induction start using scanSlices.induct stop with
  | case1 start hlt sliceLen ih =>
    rw [scanSlices, if_pos hlt]
    refine List.pairwise_cons.mpr ⟨fun t ht => ?_, ih⟩
    obtain ⟨i, -, rfl⟩ := mem_scanSlices_iff.mp ht
    simp only [sliceMax]
    omega
  | case2 start hlt =>
    rw [scanSlices, if_neg hlt]
    exact .nil

/-- The scan of a range goes upwards. -/
theorem sorted_range_places (hstep : 0 < step) (range : MemoryRange) :
    ((scanSlices range.start range.stop).flatMap (places step v)).Pairwise (· ≤ ·) := by
  refine List.pairwise_flatMap.mpr ⟨fun s _ => sorted_places step v s, ?_⟩
  refine (sorted_scanSlices range.start range.stop).imp fun {s t} hst a ha b hb => ?_
  obtain ⟨j, rfl, hj⟩ := (mem_places hstep).mp ha
  obtain ⟨j', rfl, -⟩ := (mem_places hstep).mp hb
  omega

/-- Ranges with gaps are scanned well exactly if the cuts of each are harmless. -/
theorem sliceable_iff_cuts (hstep : 0 < step) (h : Normalised (segments ranges)) :
    Sliceable step v ranges ↔ ∀ range ∈ ranges, Cuts step v range := by
  have hgaps : ranges.Pairwise fun r r' => r.stop < r'.start := List.pairwise_map.mp h.gaps
  have hne : ∀ range ∈ ranges, range.start < range.stop := fun range hr => h.nonempty _ (List.mem_map_of_mem hr)
  -- no address is in two of them
  have hsame : ∀ r ∈ ranges, ∀ r' ∈ ranges, r = r' ∨ r.stop < r'.start ∨ r'.stop < r.start := by
    intro r hr r' hr'
    refine List.Pairwise.forall_of_forall_of_flip (R := fun r r' => r = r' ∨ r.stop < r'.start ∨ r'.stop < r.start)
      (fun _ _ => .inl rfl) ?_ ?_ hr hr'
    · exact hgaps.imp fun hlt => .inr (.inl hlt)
    · exact hgaps.imp fun hlt => .inr (.inr hlt)
  have heach : (∀ a, a ∈ scanned step v ranges ↔ ∃ range ∈ ranges, OnGrid step v range a) ↔
      ∀ range ∈ ranges, Cuts step v range := by
    simp only [scanned, List.mem_flatMap (f := fun range : MemoryRange => _)]
    constructor
    · intro hall range hr
      refine (grid_iff_cuts hstep (hne range hr)).mp fun a => ⟨fun ha => ?_, fun ha => ?_⟩
      · obtain ⟨r', hr', ha'⟩ := (hall a).mp ⟨range, hr, ha⟩
        have hin := mem_range_places_bounds hstep ha
        have hin' := ha'.bounds
        obtain rfl := (hsame range hr r' hr').resolve_right (by omega)
        exact ha'
      · obtain ⟨r', hr', ha'⟩ := (hall a).mpr ⟨range, hr, ha⟩
        have hin := mem_range_places_bounds hstep ha'
        have hin' := ha.bounds
        obtain rfl := (hsame range hr r' hr').resolve_right (by omega)
        exact ha'
    · intro hcuts a
      refine exists_congr fun range => and_congr_right fun hr => ?_
      exact (grid_iff_cuts hstep (hne range hr)).mpr (hcuts range hr) a
  refine ⟨fun hs => heach.mp hs.grids, fun hcuts => ⟨heach.mpr hcuts, noReturn_of_sorted ?_⟩⟩
  refine List.pairwise_flatMap.mpr ⟨fun range _ => sorted_range_places hstep range, ?_⟩
  refine hgaps.imp fun {r r'} hlt a ha b hb => ?_
  have hin := mem_range_places_bounds hstep ha
  have hin' := mem_range_places_bounds hstep hb
  omega

/-- The first scan collects what matches on the grids of the ranges, whatever that is, exactly if the slices look at
these grids and at nothing again; for ranges with gaps, exactly if the cuts are harmless. -/
theorem first_scan_exact_iff (step v : Nat) (hstep : 0 < step) (ranges : List MemoryRange) :
    ((∀ isMatch scan, Reports step v isMatch scan → CollectsExactly step v isMatch ranges (firstScan scan ranges)) ↔
      Sliceable step v ranges) ∧
      (Normalised (segments ranges) → (Sliceable step v ranges ↔ ∀ range ∈ ranges, Cuts step v range)) :=
  ⟨collectsExactly_iff_sliceable step v ranges, sliceable_iff_cuts hstep⟩

/-- A range of two slices. -/
def longRange : MemoryRange := ⟨"heap", 0x1000, 0x80000000, 3, none, []⟩

/-- Aligned values are found behind the cut as before it. -/
theorem first_scan_exact_aligned :
    CollectsExactly 4 4 (fun a => a % 8 = 0) [longRange]
      (firstScan (idealScan 4 4 fun a => a % 8 = 0) [longRange]) := by
  obtain ⟨hexact, hgaps⟩ := first_scan_exact_iff 4 4 (by decide) [longRange]
  have hnorm : Normalised (segments [longRange]) := ⟨by decide, List.pairwise_singleton _ _⟩
  refine hexact.mpr ((hgaps hnorm).mpr fun range hr => ?_) _ _ (reports_idealScan 4 4 _)
  obtain rfl := List.mem_singleton.mp hr
  refine .inr ⟨.inl (by decide), fun k _ => ?_⟩
  simp only [sliceMax]
  omega

/-- A word that begins a byte before the cut is on the grid of its range, and no slice looks at it. -/
theorem first_scan_not_exact :
    ¬ ∀ (step v : Nat), 1 ≤ step → step ≤ 255 → ∀ (ranges : List MemoryRange) (isMatch : Int → Bool) (scan : ScanStart),
      Reports step v isMatch scan → CollectsExactly step v isMatch ranges (firstScan scan ranges) := by
  intro h
  have hslice := (collectsExactly_iff_sliceable 1 4 [longRange]).mp (h 1 4 (by decide) (by decide) [longRange])
  have hgrid : OnGrid 1 4 longRange (0x1000 + (sliceMax - 1 : Nat)) := ⟨sliceMax - 1, rfl, by decide⟩
  have hscanned := (hslice.grids _).mpr ⟨longRange, List.mem_singleton.mpr rfl, hgrid⟩
  rw [scanned, List.flatMap_singleton, mem_range_places (by decide)] at hscanned
  obtain ⟨i, k, ha, -, hcut, -⟩ := hscanned
  simp only [longRange, sliceMax] at ha hcut
  omega

end ScannerView

end Ps5Debugger

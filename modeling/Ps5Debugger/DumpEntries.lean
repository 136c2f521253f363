import Ps5Debugger.ClientScan
import Ps5Debugger.Lib.Groups
import Ps5Debugger.MemoryRanges

/-!
# What the dumper lists

`mergeLibraryMaps` (`MemoryDumperService.kt`) puts the maps of a process together for the dumper: one entry for
each name, and one for all maps without a name. The ranges of an entry are in the order of their addresses, and
so are the entries.

`merge_is_partition`: every range is in one entry, as often as it was given, and an entry is made of the ranges
of its name.
-/

namespace Ps5Debugger

open Lib ScannerView

namespace MemoryDumper

/-- A map with its offset in the file that it shows. -/
structure DumpRange extends MemoryRange where
  offset : Int

/-- `DumpRegionEntry` -/
structure DumpRegionEntry where
  id : Text
  name : Text
  start : Int
  stop : Int
  totalSize : Int
  protections : Nat
  subRanges : List DumpRange
  isMergedLibrary : Bool

/-- `map.name.trim()` -/
def DumpRange.trimmedName (map : DumpRange) : Text := trim map.name.toList

/-- `equals("unnamed", ignoreCase = true)`; no other letters differ from these by their case. -/
def equalsUnnamed (name : Text) : Bool := name.map Char.toLower = "unnamed".toList

/-- A name that is none. -/
def isUnnamed (name : Text) : Bool := name.isEmpty || equalsUnnamed name

/-! ## `mergeLibraryMaps` -/

/-- The collections of the loop: `namedGroups` and `groupOrder`, and `unnamedRanges`. -/
structure Collected where
  named : Grouped Text DumpRange
  unnamedRanges : List DumpRange

def collect (c : Collected) (map : DumpRange) : Collected :=
  if isUnnamed map.trimmedName then { c with unnamedRanges := c.unnamedRanges ++ [map] }
  else { c with named := c.named.add map.trimmedName map }

def collectAll (maps : List DumpRange) : Collected := maps.foldl collect ⟨Grouped.empty, []⟩

def sortedByStart (ranges : List DumpRange) : List DumpRange := ranges.insertionSort (·.start ≤ ·.start)

/-- `first().start` -/
def minStart (sorted : List DumpRange) : Int := (sorted.head?.map fun r => r.start).getD 0

/-- `maxOf { it.end }` -/
def maxEnd : List DumpRange → Int
  | [] => 0
  | r :: rs => rs.foldl (fun m r => max m r.stop) r.stop

def combinedProt (sorted : List DumpRange) : Nat := sorted.foldl (fun acc r => acc ||| r.protections) 0

/-- `toString(16)` -/
def toString16 (n : Int) : Text := if n < 0 then '-' :: Nat.toDigits 16 n.natAbs else Nat.toDigits 16 n.natAbs

/-- The entry of a name. -/
def namedEntry (name : Text) (subRanges : List DumpRange) : DumpRegionEntry :=
  let sortedSubRanges := sortedByStart subRanges
  { id := "lib_".toList ++ name ++ "_0x".toList ++ toString16 (minStart sortedSubRanges)
    name := name
    start := minStart sortedSubRanges
    stop := maxEnd sortedSubRanges
    totalSize := maxEnd sortedSubRanges - minStart sortedSubRanges
    protections := combinedProt sortedSubRanges
    subRanges := sortedSubRanges
    isMergedLibrary := decide (sortedSubRanges.length > 1) }

/-- The entry of the maps without a name. -/
def unnamedEntry (unnamedRanges : List DumpRange) : DumpRegionEntry :=
  let sortedUnnamed := sortedByStart unnamedRanges
  { id := "anon_all_unnamed".toList
    name := "unnamed".toList
    start := minStart sortedUnnamed
    stop := maxEnd sortedUnnamed
    totalSize := (sortedUnnamed.map fun r => r.size).sum
    protections := combinedProt sortedUnnamed
    subRanges := sortedUnnamed
    isMergedLibrary := decide (sortedUnnamed.length > 1) }

def mergeLibraryMaps (maps : List DumpRange) : List DumpRegionEntry :=
  let c := collectAll maps
  let result := (c.named.order.filterMap fun name => (c.named.groups name).map (namedEntry name)) ++
    if c.unnamedRanges = [] then [] else [unnamedEntry c.unnamedRanges]
  result.insertionSort (·.start ≤ ·.start)

/-! ## What the loop collects -/

variable {maps ranges : List DumpRange} {c : Collected} {map r : DumpRange} {e : DumpRegionEntry} {name : Text}

/-- The ranges with a name. -/
def namedOf (maps : List DumpRange) : List DumpRange := maps.filter fun map => !isUnnamed map.trimmedName

/-- The ranges without one. -/
def unnamedOf (maps : List DumpRange) : List DumpRange := maps.filter fun map => isUnnamed map.trimmedName

/-- The collections hold the maps. -/
structure Holds (c : Collected) (maps : List DumpRange) : Prop where
  named : Groups c.named DumpRange.trimmedName (namedOf maps)
  unnamed : c.unnamedRanges = unnamedOf maps

theorem Holds.collect (h : Holds c maps) (map : DumpRange) : Holds (collect c map) (maps ++ [map]) := by
  rw [MemoryDumper.collect]
  split
  · rename_i hunnamed
    refine ⟨?_, ?_⟩
    · rw [namedOf, List.filter_append, List.filter_singleton, hunnamed]
      simpa [namedOf] using h.named
    · rw [unnamedOf, List.filter_append, List.filter_singleton, hunnamed, h.unnamed]
      rfl
  · rename_i hnamed
    rw [Bool.not_eq_true] at hnamed
    refine ⟨?_, ?_⟩
    · rw [namedOf, List.filter_append, List.filter_singleton, hnamed]
      exact h.named.add map
    · rw [unnamedOf, List.filter_append, List.filter_singleton, hnamed, h.unnamed]
      simp [unnamedOf]

theorem holds_foldl {done : List DumpRange} (h : Holds c done) :
    Holds (maps.foldl MemoryDumper.collect c) (done ++ maps) := by
  induction maps generalizing c done with
  | nil => simpa using h
  | cons map maps ih =>
    rw [List.append_cons]
    exact ih (h.collect map)

theorem holds_collectAll (maps : List DumpRange) : Holds (collectAll maps) maps := by
  have hempty : Holds ⟨Grouped.empty, []⟩ [] := ⟨groups_empty, rfl⟩
  exact holds_foldl hempty

/-! ## An entry -/

/-- What an entry says of its ranges. -/
structure Sums (e : DumpRegionEntry) : Prop where
  sorted : e.subRanges.Pairwise fun r r' => r.start ≤ r'.start
  start_mem : ∃ r ∈ e.subRanges, r.start = e.start
  start_le : ∀ r ∈ e.subRanges, e.start ≤ r.start
  stop_mem : ∃ r ∈ e.subRanges, r.stop = e.stop
  le_stop : ∀ r ∈ e.subRanges, r.stop ≤ e.stop
  protections : ∀ i, e.protections.testBit i = e.subRanges.any fun r => r.protections.testBit i

theorem sortedByStart_perm (ranges : List DumpRange) : (sortedByStart ranges).Perm ranges :=
  List.perm_insertionSort _ _

theorem sortedByStart_ne_nil (h : ranges ≠ []) : sortedByStart ranges ≠ [] := fun hnil =>
  h (List.perm_nil.mp (hnil ▸ (sortedByStart_perm ranges).symm))

theorem pairwise_sortedByStart (ranges : List DumpRange) :
    (sortedByStart ranges).Pairwise fun r r' => r.start ≤ r'.start := List.pairwise_insertionSort _ _

theorem minStart_spec (h : ranges ≠ []) (hsorted : ranges.Pairwise fun r r' => r.start ≤ r'.start) :
    (∃ r ∈ ranges, r.start = minStart ranges) ∧ ∀ r ∈ ranges, minStart ranges ≤ r.start := by
  obtain ⟨first, rest, rfl⟩ := List.exists_cons_of_ne_nil h
  refine ⟨⟨first, List.mem_cons_self, rfl⟩, fun r hr => ?_⟩
  rcases List.mem_cons.mp hr with rfl | hr
  · exact le_refl _
  · exact List.rel_of_pairwise_cons hsorted hr

theorem foldl_max_spec (m : Int) (ranges : List DumpRange) :
    let result := ranges.foldl (fun m r => max m r.stop) m
    (result = m ∨ ∃ r ∈ ranges, r.stop = result) ∧ m ≤ result ∧ ∀ r ∈ ranges, r.stop ≤ result := by
  induction ranges generalizing m with
  | nil => exact ⟨.inl rfl, le_refl m, nofun⟩
  | cons r ranges ih =>
    obtain ⟨hsome, hle, hall⟩ := ih (max m r.stop)
    refine ⟨?_, le_trans (le_max_left _ _) hle, fun r' hr' => ?_⟩
    · rcases hsome with heq | ⟨r', hr', heq⟩
      · rcases max_choice m r.stop with hmax | hmax
        · exact .inl (heq.trans hmax)
        · exact .inr ⟨r, List.mem_cons_self, (heq.trans hmax).symm⟩
      · exact .inr ⟨r', List.mem_cons_of_mem _ hr', heq⟩
    · rcases List.mem_cons.mp hr' with rfl | hr'
      · exact le_trans (le_max_right _ _) hle
      · exact hall r' hr'

theorem maxEnd_spec (h : ranges ≠ []) :
    (∃ r ∈ ranges, r.stop = maxEnd ranges) ∧ ∀ r ∈ ranges, r.stop ≤ maxEnd ranges := by
  obtain ⟨first, rest, rfl⟩ := List.exists_cons_of_ne_nil h
  obtain ⟨hsome, hle, hall⟩ := foldl_max_spec first.stop rest
  refine ⟨?_, fun r hr => ?_⟩
  · rcases hsome with heq | ⟨r, hr, heq⟩
    · exact ⟨first, List.mem_cons_self, heq.symm⟩
    · exact ⟨r, List.mem_cons_of_mem _ hr, heq⟩
  · rcases List.mem_cons.mp hr with rfl | hr
    · exact hle
    · exact hall r hr

theorem testBit_foldl (acc i : Nat) (ranges : List DumpRange) :
    (ranges.foldl (fun acc r => acc ||| r.protections) acc).testBit i =
      (acc.testBit i || ranges.any fun r => r.protections.testBit i) := by
  induction ranges generalizing acc with
  | nil => rw [List.foldl_nil, List.any_nil, Bool.or_false]
  | cons r ranges ih => rw [List.foldl_cons, ih, Nat.testBit_or, List.any_cons, Bool.or_assoc]

theorem testBit_combinedProt (ranges : List DumpRange) (i : Nat) :
    (combinedProt ranges).testBit i = ranges.any fun r => r.protections.testBit i := by
  rw [combinedProt, testBit_foldl, Nat.zero_testBit, Bool.false_or]

theorem sums_of_sorted (he : e.subRanges = sortedByStart ranges) (hne : ranges ≠ [])
    (hstart : e.start = minStart e.subRanges) (hstop : e.stop = maxEnd e.subRanges)
    (hprot : e.protections = combinedProt e.subRanges) : Sums e := by
  have hne' : e.subRanges ≠ [] := he ▸ sortedByStart_ne_nil hne
  have hsorted : e.subRanges.Pairwise fun r r' => r.start ≤ r'.start := he ▸ pairwise_sortedByStart ranges
  obtain ⟨hmin, hminle⟩ := minStart_spec hne' hsorted
  obtain ⟨hmax, hmaxle⟩ := maxEnd_spec hne'
  exact ⟨hsorted, hstart ▸ hmin, hstart ▸ hminle, hstop ▸ hmax, hstop ▸ hmaxle,
    fun i => by rw [hprot, testBit_combinedProt]⟩

/-! ## The entries -/

/-- The entry of a name holds the ranges of the name. -/
structure NamedOf (maps : List DumpRange) (e : DumpRegionEntry) : Prop where
  named : isUnnamed e.name = false
  perm : e.subRanges.Perm (maps.filter fun r => r.trimmedName = e.name)
  sums : Sums e

/-- The entry of the ranges without a name. -/
structure UnnamedOf (maps : List DumpRange) (e : DumpRegionEntry) : Prop where
  unnamed : isUnnamed e.name = true
  perm : e.subRanges.Perm (unnamedOf maps)
  sums : Sums e

/-- The entries of the names, in the order in which the names come. -/
def namedEntries (maps : List DumpRange) : List DumpRegionEntry :=
  (collectAll maps).named.order.map fun name => namedEntry name ((namedOf maps).filter fun r => r.trimmedName = name)

def unnamedEntries (maps : List DumpRange) : List DumpRegionEntry :=
  if unnamedOf maps = [] then [] else [unnamedEntry (unnamedOf maps)]

theorem mergeLibraryMaps_eq (maps : List DumpRange) :
    mergeLibraryMaps maps = (namedEntries maps ++ unnamedEntries maps).insertionSort (·.start ≤ ·.start) := by
  have h := holds_collectAll maps
  have hnamed : ((collectAll maps).named.order.filterMap fun name =>
      ((collectAll maps).named.groups name).map (namedEntry name)) = namedEntries maps := by
    rw [namedEntries, ← List.filterMap_eq_map]
    refine List.filterMap_congr fun name hname => ?_
    rw [h.named.of_mem hname, Option.map_some]
    rfl
  rw [mergeLibraryMaps]
  simp only [hnamed, h.unnamed, unnamedEntries]

/-- A name that was collected is one, and some range has it. -/
theorem mem_order (hname : name ∈ (collectAll maps).named.order) :
    isUnnamed name = false ∧ (namedOf maps).filter (fun r => r.trimmedName = name) ≠ [] := by
  obtain ⟨r, hr, rfl⟩ := ((holds_collectAll maps).named.mem_order name).mp hname
  have hnamed := (List.mem_filter.mp hr).2
  rw [Bool.not_eq_true'] at hnamed
  refine ⟨hnamed, List.ne_nil_of_mem (List.mem_filter.mpr ⟨hr, decide_eq_true rfl⟩)⟩

theorem namedOf_of_mem (he : e ∈ namedEntries maps) : NamedOf maps e := by
  obtain ⟨name, hname, rfl⟩ := List.mem_map.mp he
  obtain ⟨hnamed, hne⟩ := mem_order hname
  refine ⟨hnamed, ?_, sums_of_sorted rfl hne rfl rfl rfl⟩
  refine (sortedByStart_perm _).trans (.of_eq ?_)
  rw [namedOf, List.filter_filter]
  refine List.filter_congr fun r _ => ?_
  by_cases hr : r.trimmedName = name
  · simp [namedEntry, hr, hnamed]
  · simp [namedEntry, hr]

theorem unnamedOf_of_mem (he : e ∈ unnamedEntries maps) : UnnamedOf maps e := by
  rw [unnamedEntries] at he
  split at he
  · cases he
  · rename_i hne
    obtain rfl := List.mem_singleton.mp he
    have hname : isUnnamed "unnamed".toList = true := by decide
    exact ⟨hname, sortedByStart_perm _, sums_of_sorted rfl hne rfl rfl rfl⟩

theorem name_nodup_namedEntries (maps : List DumpRange) : ((namedEntries maps).map (·.name)).Nodup := by
  rw [namedEntries, List.map_map]
  exact (List.map_id _).symm ▸ (holds_collectAll maps).named.nodup

theorem subRanges_namedEntries (maps : List DumpRange) :
    ((namedEntries maps).flatMap (·.subRanges)).Perm (namedOf maps) := by
  rw [namedEntries, List.flatMap_map]
  refine List.Perm.trans ?_ (holds_collectAll maps).named.perm
  exact List.Perm.flatMap_left _ fun name _ => sortedByStart_perm _

theorem subRanges_unnamedEntries (maps : List DumpRange) :
    ((unnamedEntries maps).flatMap (·.subRanges)).Perm (unnamedOf maps) := by
  rw [unnamedEntries]
  split
  · rename_i hnil
    rw [hnil]
    exact .nil
  · rw [List.flatMap_singleton]
    exact sortedByStart_perm _

/-- A partition of the ranges by their names. -/
structure Partition (maps : List DumpRange) (entries : List DumpRegionEntry) : Prop where
  sorted : entries.Pairwise fun e e' => e.start ≤ e'.start
  /-- every range as often as in the input -/
  perm : (entries.flatMap (·.subRanges)).Perm maps
  /-- and in one entry only -/
  apart : entries.Pairwise fun e e' => ∀ r ∈ e.subRanges, r ∉ e'.subRanges
  names : ((entries.filter fun e => !isUnnamed e.name).map (·.name)).Nodup
  named : ∀ e ∈ entries, isUnnamed e.name = false → e.subRanges.Perm (maps.filter fun r => r.trimmedName = e.name)
  /-- one entry for the ranges without a name, if there are any -/
  unnamed : (entries.filter fun e => isUnnamed e.name).length = if unnamedOf maps = [] then 0 else 1
  unnamed_perm : ∀ e ∈ entries, isUnnamed e.name = true → e.subRanges.Perm (unnamedOf maps)
  sums : ∀ e ∈ entries, Sums e

theorem merge_is_partition (maps : List DumpRange) : Partition maps (mergeLibraryMaps maps) := by
  have hperm : (mergeLibraryMaps maps).Perm (namedEntries maps ++ unnamedEntries maps) := by
    rw [mergeLibraryMaps_eq]
    exact List.perm_insertionSort _ _
  have hmem : ∀ e ∈ mergeLibraryMaps maps, NamedOf maps e ∨ UnnamedOf maps e := fun e he =>
    (List.mem_append.mp (hperm.mem_iff.mp he)).imp namedOf_of_mem unnamedOf_of_mem
  have hnamed : (namedEntries maps).filter (fun e => !isUnnamed e.name) = namedEntries maps :=
    List.filter_eq_self.mpr fun e he => by rw [(namedOf_of_mem he).named]; rfl
  have hnone : (unnamedEntries maps).filter (fun e => !isUnnamed e.name) = [] :=
    List.filter_eq_nil_iff.mpr fun e he => by rw [(unnamedOf_of_mem he).unnamed]; decide
  have hnamed' : (namedEntries maps).filter (fun e => isUnnamed e.name) = [] :=
    List.filter_eq_nil_iff.mpr fun e he => by rw [(namedOf_of_mem he).named]; decide
  have hunnamed : (unnamedEntries maps).filter (fun e => isUnnamed e.name) = unnamedEntries maps :=
    List.filter_eq_self.mpr fun e he => (unnamedOf_of_mem he).unnamed
  constructor
  case sorted =>
    rw [mergeLibraryMaps_eq]
    exact List.pairwise_insertionSort _ _
  case perm =>
    refine (hperm.flatMap_right _).trans ?_
    rw [List.flatMap_append]
    refine ((subRanges_namedEntries maps).append (subRanges_unnamedEntries maps)).trans ?_
    exact List.perm_append_comm.trans (List.filter_append_perm _ maps)
  case apart =>
    refine (hperm.pairwise_iff fun h r hr hr' => h r hr' hr).mpr ?_
    refine List.pairwise_append.mpr ⟨?_, ?_, fun e he e' he' r hr hr' => ?_⟩
    · refine (List.pairwise_map.mp (name_nodup_namedEntries maps)).imp_of_mem fun {e e'} he he' hne r hr hr' => hne ?_
      have hname := (List.mem_filter.mp ((namedOf_of_mem he).perm.mem_iff.mp hr)).2
      have hname' := (List.mem_filter.mp ((namedOf_of_mem he').perm.mem_iff.mp hr')).2
      exact (of_decide_eq_true hname).symm.trans (of_decide_eq_true hname')
    · rw [unnamedEntries]
      split
      · exact .nil
      · exact List.pairwise_singleton _ _
    · have hname := (List.mem_filter.mp ((namedOf_of_mem he).perm.mem_iff.mp hr)).2
      have hnoname := (List.mem_filter.mp ((unnamedOf_of_mem he').perm.mem_iff.mp hr')).2
      rw [of_decide_eq_true hname, (namedOf_of_mem he).named] at hnoname
      cases hnoname
  case names =>
    refine ((hperm.filter _).map _).nodup_iff.mpr ?_
    rw [List.filter_append, hnamed, hnone, List.append_nil]
    exact name_nodup_namedEntries maps
  case named =>
    intro e he hname
    rcases hmem e he with h | h
    · exact h.perm
    · rw [h.unnamed] at hname
      cases hname
  case unnamed =>
    rw [(hperm.filter _).length_eq, List.filter_append, hnamed', hunnamed, List.nil_append, unnamedEntries]
    split <;> rfl
  case unnamed_perm =>
    intro e he hname
    rcases hmem e he with h | h
    · rw [h.named] at hname
      cases hname
    · exact h.perm
  case sums =>
    intro e he
    rcases hmem e he with h | h
    · exact h.sums
    · exact h.sums

end MemoryDumper

end Ps5Debugger

import Mathlib.Algebra.Group.Nat.Defs
import Mathlib.Algebra.Ring.Int.Defs
import Ps5Debugger.Lib.Segments

/-!
# The maps of a process in the client

A `MemoryRange` is a map or a group of maps. The hex view shows the maps that are open, groups taken apart, in the
order of their addresses (`getEffectiveTargets`, `HexState.kt`).

Addresses are signed, as the client has them: `Long`s. A sum of them that may leave a `Long` is cut off
(`long`); where none can, as between the ends of one map, it is the sum itself.
-/

namespace Ps5Debugger

open Lib

/-- The `Long` that is left of a number. -/
def long (n : Int) : Int := n.bmod (2 ^ 64)

/-- `toInt()` -/
def int (n : Int) : Int := n.bmod (2 ^ 32)

section Long

variable {n : Int}

theorem int_eq_self (hlo : -2 ^ 31 ≤ n) (hhi : n < 2 ^ 31) : int n = n := by
  rw [int]
  exact Int.bmod_eq_of_le (by omega) (by omega)

theorem long_eq_self (hlo : -2 ^ 63 ≤ n) (hhi : n < 2 ^ 63) : long n = n := by
  rw [long]
  exact Int.bmod_eq_of_le (by omega) (by omega)

theorem long_of_le (hlo : 2 ^ 63 ≤ n) (hhi : n < 2 ^ 64 + 2 ^ 63) : long n = n - 2 ^ 64 := by
  have h := Int.sub_bmod_right n (2 ^ 64)
  rw [long, ← h]
  exact Int.bmod_eq_of_le (by omega) (by omega)

theorem long_add_long (m n : Int) : long (long m + n) = long (m + n) := Int.bmod_add_bmod

end Long

/-- The map; the end of it is `stop`. -/
structure MemoryRange where
  name : String
  start : Int
  stop : Int
  protections : Nat
  localData : Option (List UInt8) := none
  subRanges : List MemoryRange := []

namespace MemoryRange

/-- `size` -/
def size (map : MemoryRange) : Int := map.stop - map.start

/-- The addresses of the map. -/
def segment (map : MemoryRange) : Segment := ⟨map.start, map.stop⟩

/-- `distinctBy { it.start }` -/
def distinctByStart : List MemoryRange → List MemoryRange
  | [] => []
  | map :: maps => map :: (distinctByStart maps).filter (·.start ≠ map.start)

/-- The maps that are open, one by one. -/
def opened (activeMap : Option MemoryRange) (activeMaps : List MemoryRange) : List MemoryRange :=
  let base := if activeMaps ≠ [] then activeMaps else activeMap.toList
  base.flatMap fun map => if map.subRanges ≠ [] then map.subRanges else [map]

/-- `getEffectiveTargets` -/
def getEffectiveTargets (activeMap : Option MemoryRange) (activeMaps : List MemoryRange) : List MemoryRange :=
  (distinctByStart (opened activeMap activeMaps)).insertionSort (·.start ≤ ·.start)

/-- Maps that are not empty and do not meet. -/
structure Disjoint (maps : List MemoryRange) : Prop where
  nonempty : ∀ map ∈ maps, map.start < map.stop
  apart : maps.Pairwise fun map map' => map.segment.Apart map'.segment

theorem distinctByStart_sublist (maps : List MemoryRange) : (distinctByStart maps).Sublist maps := by
  induction maps with
  | nil => exact .slnil
  | cons map maps ih => exact (List.filter_sublist.trans ih).cons_cons map

/-- The targets of maps that do not meet are in order. -/
theorem ordered_getEffectiveTargets {activeMap : Option MemoryRange} {activeMaps : List MemoryRange}
    (h : Disjoint (opened activeMap activeMaps)) :
    Ordered ((getEffectiveTargets activeMap activeMaps).map segment) := by
  have hsub := distinctByStart_sublist (opened activeMap activeMaps)
  have hperm := List.perm_insertionSort (fun map map' : MemoryRange => map.start ≤ map'.start)
    (distinctByStart (opened activeMap activeMaps))
  refine Ordered.of_sorted ?_ ?_ ?_
  · intro s hs
    obtain ⟨map, hmap, rfl⟩ := List.mem_map.mp hs
    exact h.nonempty map (hsub.subset (hperm.mem_iff.mp hmap))
  · rw [List.pairwise_map]
    exact (hperm.pairwise_iff fun hst => Segment.Apart.symm hst).mpr (h.apart.sublist hsub)
  · rw [List.pairwise_map]
    exact List.pairwise_insertionSort _ _

end MemoryRange

end Ps5Debugger

import Mathlib
import Ps5Debugger.MemoryRanges

/-!
# Rows and addresses of the hex view

The hex view numbers the rows of the open maps through all of the maps (`HexState.kt`). Each map begins a row of its
own, and its last row may be a partial one.

In whole numbers, a row is the row of its address and the address of a row is not far below those in the row
(`row_of_address`, `address_near`, `address_lt`). The code counts in `Long`s: `rows_correspond_iff` says which maps
have so many rows that it does not.
-/

namespace Ps5Debugger

open Lib

namespace HexState

/-! ## Whole numbers

The numbers of rows as they should be: sums that no word cuts off. -/

section Rows

variable (bytesPerRow : Int)

/-- The rows of a map, the last one perhaps in part. -/
def rowsInMap (map : Segment) : Int := (map.stop - map.start + bytesPerRow - 1).tdiv bytesPerRow

/-- `getTotalRows` -/
def getTotalRows (targets : List Segment) : Int := (targets.map (rowsInMap bytesPerRow)).sum

/-- The address of a row of the maps, if they have it. -/
def findRow : List Segment → Int → Option Int
  | [], _ => none
  | map :: maps, row =>
    if row < rowsInMap bytesPerRow map then some (map.start + row * bytesPerRow)
    else findRow maps (row - rowsInMap bytesPerRow map)

def getAddressForRow (targets : List Segment) (row : Int) : Int :=
  (findRow bytesPerRow targets row).getD ((targets.getLast?.map Segment.stop).getD 0)

def getRowForAddress : List Segment → Int → Int
  | [], _ => 0
  | map :: maps, address =>
    if map.Has address then (address - map.start).tdiv bytesPerRow
    else rowsInMap bytesPerRow map + getRowForAddress maps address

end Rows

section Geometry

variable {bytesPerRow : Int} {targets : List Segment} {map : Segment} {address : Int}

theorem rowsInMap_eq (hrow : 0 < bytesPerRow) (hmap : map.start < map.stop) :
    rowsInMap bytesPerRow map = (map.stop - 1 - map.start) / bytesPerRow + 1 := by
  rw [rowsInMap, Int.tdiv_eq_ediv_of_nonneg (by omega), ← Int.add_mul_ediv_right _ _ (by omega)]
  congr 1
  omega

theorem rowsInMap_pos (hrow : 0 < bytesPerRow) (hmap : map.start < map.stop) : 0 < rowsInMap bytesPerRow map := by
  have := Int.ediv_nonneg (a := map.stop - 1 - map.start) (b := bytesPerRow) (by omega) hrow.le
  rw [rowsInMap_eq hrow hmap]
  omega

theorem getRowForAddress_head (h : map.Has address) {maps : List Segment} :
    getRowForAddress bytesPerRow (map :: maps) address = (address - map.start) / bytesPerRow := by
  have := h.1
  rw [getRowForAddress, if_pos h, Int.tdiv_eq_ediv_of_nonneg (by omega)]

theorem getRowForAddress_tail (h : ¬ map.Has address) {maps : List Segment} :
    getRowForAddress bytesPerRow (map :: maps) address =
      rowsInMap bytesPerRow map + getRowForAddress bytesPerRow maps address := by
  rw [getRowForAddress, if_neg h]

theorem getTotalRows_cons {maps : List Segment} :
    getTotalRows bytesPerRow (map :: maps) = rowsInMap bytesPerRow map + getTotalRows bytesPerRow maps := by
  rw [getTotalRows, List.map_cons, List.sum_cons]
  rfl

theorem getTotalRows_nonneg (hrow : 0 < bytesPerRow) (h : Ordered targets) : 0 ≤ getTotalRows bytesPerRow targets := by
  induction targets with
  | nil => exact Int.le_refl 0
  | cons map maps ih =>
    have := rowsInMap_pos hrow h.head_lt
    have := ih h.tail
    rw [getTotalRows_cons]
    omega

/-- The row of an address in its map. -/
theorem row_bounds (hrow : 0 < bytesPerRow) (h : map.Has address) :
    0 ≤ (address - map.start) / bytesPerRow ∧ (address - map.start) / bytesPerRow < rowsInMap bytesPerRow map := by
  obtain ⟨hstart, hstop⟩ := h
  have hle : (address - map.start) / bytesPerRow ≤ (map.stop - 1 - map.start) / bytesPerRow :=
    Int.ediv_le_ediv hrow (by omega)
  have hnonneg : 0 ≤ (address - map.start) / bytesPerRow := Int.ediv_nonneg (by omega) hrow.le
  rw [rowsInMap_eq hrow (by omega)]
  omega

/-- An address of some map has a row. -/
theorem getRowForAddress_bounds (hrow : 0 < bytesPerRow) (h : Ordered targets) (hcov : Covered targets address) :
    0 ≤ getRowForAddress bytesPerRow targets address ∧
      getRowForAddress bytesPerRow targets address < getTotalRows bytesPerRow targets := by
  induction targets with
  | nil => exact absurd hcov nofun
  | cons map maps ih =>
    rw [getTotalRows_cons]
    by_cases hhas : map.Has address
    · have hbounds := row_bounds hrow hhas
      have := getTotalRows_nonneg hrow h.tail
      rw [getRowForAddress_head hhas]
      omega
    · have hbounds := ih h.tail ((covered_cons.mp hcov).resolve_left hhas)
      have := rowsInMap_pos hrow h.head_lt
      rw [getRowForAddress_tail hhas]
      omega

/-- The row of an address lies in its map, and begins there. -/
theorem getAddressForRow_of_covered (hrow : 0 < bytesPerRow) (h : Ordered targets) (hcov : Covered targets address) :
    ∃ map ∈ targets, map.Has address ∧
      getAddressForRow bytesPerRow targets (getRowForAddress bytesPerRow targets address) =
        map.start + (address - map.start) / bytesPerRow * bytesPerRow := by
  have hfind : ∃ map ∈ targets, map.Has address ∧
      findRow bytesPerRow targets (getRowForAddress bytesPerRow targets address) =
        some (map.start + (address - map.start) / bytesPerRow * bytesPerRow) := by
    induction targets with
    | nil => exact absurd hcov nofun
    | cons map maps ih =>
      by_cases hhas : map.Has address
      · refine ⟨map, List.mem_cons_self, hhas, ?_⟩
        rw [getRowForAddress_head hhas, findRow, if_pos (row_bounds hrow hhas).2]
      · have htail := (covered_cons.mp hcov).resolve_left hhas
        obtain ⟨map', hmem, hhas', hfind⟩ := ih h.tail htail
        have hbounds := getRowForAddress_bounds hrow h.tail htail
        refine ⟨map', List.mem_cons_of_mem _ hmem, hhas', ?_⟩
        rw [getRowForAddress_tail hhas, findRow, if_neg (by omega), ← hfind]
        congr 1
        omega
  obtain ⟨map, hmem, hhas, hfind⟩ := hfind
  exact ⟨map, hmem, hhas, by rw [getAddressForRow, hfind, Option.getD_some]⟩

/-- An address of no map has the row behind all of them. -/
theorem getRowForAddress_of_not_covered (h : ¬ Covered targets address) :
    getRowForAddress bytesPerRow targets address = getTotalRows bytesPerRow targets := by
  induction targets with
  | nil => rfl
  | cons map maps ih =>
    rw [covered_cons, not_or] at h
    rw [getRowForAddress_tail h.1, getTotalRows_cons, ih h.2]

/-- The row behind all of the maps has no address in them. -/
theorem not_covered_getAddressForRow (hrow : 0 < bytesPerRow) (h : Ordered targets) (hne : targets ≠ []) :
    ¬ Covered targets (getAddressForRow bytesPerRow targets (getTotalRows bytesPerRow targets)) := by
  have hnone : ∀ {targets : List Segment}, Ordered targets →
      findRow bytesPerRow targets (getTotalRows bytesPerRow targets) = none := by
    intro targets h
    induction targets with
    | nil => rfl
    | cons map maps ih =>
      have := getTotalRows_nonneg hrow h.tail
      rw [getTotalRows_cons, findRow, if_neg (by omega), ← ih h.tail]
      congr 1
      omega
  rw [getAddressForRow, hnone h, Option.getD_none, List.getLast?_eq_getLast_of_ne_nil hne, Option.map_some,
    Option.getD_some]
  exact not_covered_past fun t ht => h.stop_le_getLast hne ht

/-- With rows of one byte, the next address has the next row. -/
theorem getRowForAddress_succ (h : Ordered targets) (hcov : Covered targets address)
    (hnext : Covered targets (address + 1)) :
    getRowForAddress 1 targets (address + 1) = getRowForAddress 1 targets address + 1 := by
  induction targets with
  | nil => exact absurd hcov nofun
  | cons map maps ih =>
    by_cases hhas : map.Has address
    · by_cases hhas' : map.Has (address + 1)
      · rw [getRowForAddress_head hhas, getRowForAddress_head hhas', Int.ediv_one, Int.ediv_one]
        omega
      · have htail := (covered_cons.mp hnext).resolve_left hhas'
        rw [getRowForAddress_head hhas, getRowForAddress_tail hhas', Int.ediv_one]
        -- the address ends its map, and the next one begins the one behind it
        cases maps with
        | nil => exact absurd htail nofun
        | cons map' maps' =>
          have hstop : address + 1 = map.stop := by
            have := hhas.2
            simp only [Segment.Has, not_and] at hhas'
            have := hhas' (by have := hhas.1; omega)
            omega
          have hhead : map'.Has (address + 1) := by
            refine (covered_cons.mp htail).resolve_right fun ⟨t, ht, hstart, _⟩ => ?_
            have := h.tail.le_start ht
            have := h.tail.head_lt
            have := h.le_start List.mem_cons_self
            omega
          have hstart := h.le_start List.mem_cons_self
          have hzero : address + 1 - map'.start = 0 := by
            have := hhead.1
            omega
          rw [getRowForAddress_head hhead, hzero, rowsInMap_eq (by omega) h.head_lt, Int.ediv_one]
          omega
    · have htail := (covered_cons.mp hcov).resolve_left hhas
      obtain ⟨t, ht, hstart, hstop⟩ := id htail
      have := h.le_start ht
      have hhas' : ¬ map.Has (address + 1) := fun hmap => by
        have := hmap.2
        omega
      rw [getRowForAddress_tail hhas, getRowForAddress_tail hhas',
        ih h.tail htail ((covered_cons.mp hnext).resolve_left hhas')]
      omega

end Geometry

section Exact

variable {bytesPerRow : Int} {targets maps : List Segment} {map : Segment} {row row' address address' : Int}

/-- A row of a map begins in the map. -/
theorem has_row (hrow : 0 < bytesPerRow) (hmap : map.start < map.stop) (hnonneg : 0 ≤ row)
    (hlt : row < rowsInMap bytesPerRow map) : map.Has (map.start + row * bytesPerRow) := by
  rw [rowsInMap_eq hrow hmap] at hlt
  have hle : row * bytesPerRow ≤ map.stop - 1 - map.start := (Int.le_ediv_iff_mul_le hrow).mp (by omega)
  have := Int.mul_nonneg hnonneg hrow.le
  exact ⟨by omega, by omega⟩

/-- A row below the number of all rows has an address in the maps, whose row it is. -/
theorem findRow_spec (hrow : 0 < bytesPerRow) (h : Ordered targets) (hnonneg : 0 ≤ row)
    (hlt : row < getTotalRows bytesPerRow targets) :
    ∃ address, findRow bytesPerRow targets row = some address ∧ Covered targets address ∧
      getRowForAddress bytesPerRow targets address = row := by
  induction targets generalizing row with
  | nil =>
    have : getTotalRows bytesPerRow [] = 0 := rfl
    omega
  | cons map maps ih =>
    rw [getTotalRows_cons] at hlt
    rw [findRow]
    split
    · rename_i hhead
      have hhas := has_row hrow h.head_lt hnonneg hhead
      refine ⟨_, rfl, covered_cons.mpr (.inl hhas), ?_⟩
      have hoffset : map.start + row * bytesPerRow - map.start = row * bytesPerRow := by omega
      rw [getRowForAddress_head hhas, hoffset, Int.mul_ediv_cancel _ hrow.ne']
    · have hnonneg' : 0 ≤ row - rowsInMap bytesPerRow map := by omega
      obtain ⟨address, hfind, hcov, heq⟩ := ih h.tail hnonneg' (by omega)
      refine ⟨address, hfind, covered_cons.mpr (.inr hcov), ?_⟩
      obtain ⟨t, ht, hhas⟩ := hcov
      have hnot : ¬ map.Has address := fun hhead => by
        have := h.le_start ht
        have := hhead.2
        have := hhas.1
        omega
      rw [getRowForAddress_tail hnot, heq]
      omega

/-- The row of the address of a row. -/
theorem row_of_address (hrow : 0 < bytesPerRow) (h : Ordered targets) (hnonneg : 0 ≤ row)
    (hlt : row < getTotalRows bytesPerRow targets) :
    getRowForAddress bytesPerRow targets (getAddressForRow bytesPerRow targets row) = row := by
  obtain ⟨address, hfind, -, heq⟩ := findRow_spec hrow h hnonneg hlt
  rw [getAddressForRow, hfind, Option.getD_some, heq]

/-- An address lies in the row that it has. -/
theorem address_near (hrow : 0 < bytesPerRow) (h : Ordered targets) (hcov : Covered targets address) :
    getAddressForRow bytesPerRow targets (getRowForAddress bytesPerRow targets address) ≤ address ∧
      address < getAddressForRow bytesPerRow targets (getRowForAddress bytesPerRow targets address) + bytesPerRow := by
  obtain ⟨map, -, hhas, heq⟩ := getAddressForRow_of_covered hrow h hcov
  have hsplit := Int.mul_ediv_add_emod (address - map.start) bytesPerRow
  have hlow := Int.emod_nonneg (address - map.start) hrow.ne'
  have hhigh := Int.emod_lt_of_pos (address - map.start) hrow
  rw [Int.mul_comm] at hsplit
  rw [heq]
  omega

/-- Later rows have higher addresses. -/
theorem findRow_lt (hrow : 0 < bytesPerRow) (h : Ordered targets) (hnonneg : 0 ≤ row) (hlt : row < row')
    (hfind : findRow bytesPerRow targets row = some address) (hfind' : findRow bytesPerRow targets row' = some address')
    (htotal : row' < getTotalRows bytesPerRow targets) : address < address' := by
  induction targets generalizing row row' with
  | nil => cases hfind
  | cons map maps ih =>
    rw [getTotalRows_cons] at htotal
    rw [findRow] at hfind hfind'
    split at hfind <;> split at hfind'
    · cases hfind
      cases hfind'
      have := Int.mul_lt_mul_of_pos_right hlt hrow
      omega
    · -- the first is in the map, and the second in one behind it
      rename_i hhead htail
      cases hfind
      have hhas := has_row hrow h.head_lt hnonneg hhead
      have hnonneg' : 0 ≤ row' - rowsInMap bytesPerRow map := by omega
      obtain ⟨_, hsome, ⟨t, ht, hbehind⟩, -⟩ := findRow_spec hrow h.tail hnonneg' (by omega)
      cases hfind'.symm.trans hsome
      have := h.le_start ht
      have := hhas.2
      have := hbehind.1
      omega
    · omega
    · exact ih h.tail (by omega) (by omega) hfind hfind' (by omega)

theorem address_lt (hrow : 0 < bytesPerRow) (h : Ordered targets) (hnonneg : 0 ≤ row) (hlt : row < row')
    (htotal : row' < getTotalRows bytesPerRow targets) :
    getAddressForRow bytesPerRow targets row < getAddressForRow bytesPerRow targets row' := by
  obtain ⟨address, hfind, -⟩ := findRow_spec hrow h hnonneg (hlt.trans htotal)
  obtain ⟨address', hfind', -⟩ := findRow_spec hrow h (hnonneg.trans hlt.le) htotal
  rw [getAddressForRow, getAddressForRow, hfind, hfind']
  exact findRow_lt hrow h hnonneg hlt hfind hfind' htotal

end Exact

/-! ## Longs -/

namespace Long

section Rows

variable (bytesPerRow : Int)

/-- A sum of `Long`s wraps around as a whole. -/
def rowsInMap (map : Segment) : Int := (long (map.stop - map.start + bytesPerRow - 1)).tdiv bytesPerRow

/-- The loop of `getAddressForRow`. -/
def findRow : List Segment → Int → Option Int
  | [], _ => none
  | map :: maps, remainingRows =>
    if remainingRows < rowsInMap bytesPerRow map then some (long (map.start + remainingRows * bytesPerRow))
    else findRow maps (long (remainingRows - rowsInMap bytesPerRow map))

def getAddressForRow (targets : List Segment) (row : Int) : Int :=
  (findRow bytesPerRow targets row).getD ((targets.getLast?.map Segment.stop).getD 0)

/-- The loop of `getRowForAddress`. -/
def countRows (rowCount : Int) : List Segment → Int → Int
  | [], _ => rowCount
  | map :: maps, address =>
    if map.Has address then long (rowCount + (long (address - map.start)).tdiv bytesPerRow)
    else countRows (long (rowCount + rowsInMap bytesPerRow map)) maps address

def getRowForAddress (targets : List Segment) (address : Int) : Int := countRows bytesPerRow 0 targets address

def getTotalRows (targets : List Segment) : Int :=
  targets.foldl (fun sum map => long (sum + rowsInMap bytesPerRow map)) 0

/-- Rows and addresses of the targets correspond. -/
structure RowsCorrespond (targets : List Segment) : Prop where
  row_address : ∀ row, 0 ≤ row → row < getTotalRows bytesPerRow targets →
    getRowForAddress bytesPerRow targets (getAddressForRow bytesPerRow targets row) = row
  address_row : ∀ address, Covered targets address →
    (0 ≤ getRowForAddress bytesPerRow targets address ∧
      getRowForAddress bytesPerRow targets address < getTotalRows bytesPerRow targets) ∧
    getAddressForRow bytesPerRow targets (getRowForAddress bytesPerRow targets address) ≤ address ∧
      address < getAddressForRow bytesPerRow targets (getRowForAddress bytesPerRow targets address) + bytesPerRow
  strict : ∀ row row', 0 ≤ row → row < row' → row' < getTotalRows bytesPerRow targets →
    getAddressForRow bytesPerRow targets row < getAddressForRow bytesPerRow targets row'

/-- The sums over a map, and over the rounded numbers of rows, are `Long`s. -/
structure Fits (targets : List Segment) : Prop where
  map : ∀ map ∈ targets, map.stop - map.start + bytesPerRow - 1 < 2 ^ 63
  total : (targets.map fun map => (map.stop - map.start + bytesPerRow - 1) / bytesPerRow).sum < 2 ^ 63

end Rows

variable {bytesPerRow : Int} {targets maps : List Segment} {map : Segment} {row n address : Int}

/-- The targets have `Long`s for addresses. -/
def LongAddresses (targets : List Segment) : Prop := ∀ map ∈ targets, -2 ^ 63 ≤ map.start ∧ map.stop < 2 ^ 63

/-! ## Maps that fit -/

theorem rowsInMap_exact (hrow : 0 < bytesPerRow) (hmap : map.start < map.stop)
    (hfit : map.stop - map.start + bytesPerRow - 1 < 2 ^ 63) :
    rowsInMap bytesPerRow map = HexState.rowsInMap bytesPerRow map := by
  rw [rowsInMap, HexState.rowsInMap, long_eq_self (by omega) hfit]

theorem exact_total (hrow : 0 < bytesPerRow) (h : Ordered targets) :
    (targets.map fun map => (map.stop - map.start + bytesPerRow - 1) / bytesPerRow).sum =
      HexState.getTotalRows bytesPerRow targets := by
  rw [HexState.getTotalRows]
  congr 1
  refine List.map_congr_left fun map hmap => ?_
  have := h.nonempty map hmap
  rw [HexState.rowsInMap, Int.tdiv_eq_ediv_of_nonneg (by omega)]

/-- The maps of which the rows are counted right. -/
def Good (bytesPerRow : Int) (maps : List Segment) : Prop :=
  ∀ map ∈ maps, map.stop - map.start + bytesPerRow - 1 < 2 ^ 63

/-- A map has no more rows than bytes. -/
theorem rowsInMap_le (hrow : 0 < bytesPerRow) (hmap : map.start < map.stop) :
    HexState.rowsInMap bytesPerRow map ≤ map.stop - map.start := by
  have := Int.ediv_le_self (a := map.stop - 1 - map.start) bytesPerRow (by omega)
  rw [rowsInMap_eq hrow hmap]
  omega

theorem foldl_total
    (heq : ∀ map ∈ maps, ∀ sum, long (sum + rowsInMap bytesPerRow map) =
    long (sum + HexState.rowsInMap bytesPerRow map)) :
    maps.foldl (fun sum map => long (sum + rowsInMap bytesPerRow map)) (long n) =
      long (n + HexState.getTotalRows bytesPerRow maps) := by
  induction maps generalizing n with
  | nil => rw [List.foldl_nil, HexState.getTotalRows, List.map_nil, List.sum_nil, Int.add_zero]
  | cons map maps ih =>
    obtain ⟨hmap, heq⟩ := List.forall_mem_cons.mp heq
    rw [List.foldl_cons, hmap, long_add_long, ih heq, getTotalRows_cons, Int.add_assoc]

theorem getTotalRows_eq (hrow : 0 < bytesPerRow) (h : Ordered targets) (hgood : Good bytesPerRow targets) :
    getTotalRows bytesPerRow targets = long (HexState.getTotalRows bytesPerRow targets) := by
  have hsum := foldl_total (n := 0) fun map hmap sum => by
    rw [rowsInMap_exact hrow (h.nonempty map hmap) (hgood map hmap)]
  rwa [Int.zero_add] at hsum

theorem countRows_exact (hrow : 0 < bytesPerRow) (h : Ordered maps) (hgood : Good bytesPerRow maps)
    (hn : 0 ≤ n) (hfit : n + HexState.getTotalRows bytesPerRow maps < 2 ^ 63) :
    countRows bytesPerRow n maps address = n + HexState.getRowForAddress bytesPerRow maps address := by
  induction maps generalizing n with
  | nil => rw [countRows, HexState.getRowForAddress, Int.add_zero]
  | cons map maps ih =>
    obtain ⟨hmap, hgood⟩ := List.forall_mem_cons.mp hgood
    have hrest := getTotalRows_nonneg hrow h.tail
    rw [getTotalRows_cons] at hfit
    rw [countRows]
    split
    · rename_i hhas
      have hbounds := row_bounds hrow hhas
      have hin := hhas.1
      have hout := hhas.2
      rw [getRowForAddress_head hhas, long_eq_self (n := address - map.start) (by omega) (by omega),
        Int.tdiv_eq_ediv_of_nonneg (by omega), long_eq_self (by omega) (by omega)]
    · rename_i hhas
      have hpos := rowsInMap_pos hrow h.head_lt
      rw [rowsInMap_exact hrow h.head_lt hmap, long_eq_self (by omega) (by omega),
        ih h.tail hgood (by omega) (by omega), getRowForAddress_tail hhas, Int.add_assoc]

theorem findRow_exact (hrow : 0 < bytesPerRow) (h : Ordered maps) (hlong : LongAddresses maps)
    (hgood : Good bytesPerRow maps) (hnonneg : 0 ≤ row) (hfit : row < 2 ^ 63) :
    findRow bytesPerRow maps row = HexState.findRow bytesPerRow maps row := by
  induction maps generalizing row with
  | nil => rfl
  | cons map maps ih =>
    obtain ⟨hmap, hgood⟩ := List.forall_mem_cons.mp hgood
    obtain ⟨hin, hlong⟩ := List.forall_mem_cons.mp hlong
    have hpos := rowsInMap_pos hrow h.head_lt
    rw [findRow, HexState.findRow, rowsInMap_exact hrow h.head_lt hmap]
    split
    · rename_i hlt
      have hhas := has_row hrow h.head_lt hnonneg hlt
      have hlo := hhas.1
      have hhi := hhas.2
      rw [long_eq_self (by omega) (by omega)]
    · rw [long_eq_self (by omega) (by omega), ih h.tail hlong hgood (by omega) (by omega)]

/-- Of maps that fit the code has the number of rows, the row of each address and the address of each row. -/
theorem Fits.exact (hrow : 0 < bytesPerRow) (h : Ordered targets) (hlong : LongAddresses targets)
    (hfits : Fits bytesPerRow targets) :
    HexState.getTotalRows bytesPerRow targets < 2 ^ 63 ∧
      getTotalRows bytesPerRow targets = HexState.getTotalRows bytesPerRow targets ∧
      (∀ address, getRowForAddress bytesPerRow targets address = HexState.getRowForAddress bytesPerRow targets address) ∧
      ∀ row, 0 ≤ row → row < 2 ^ 63 →
        getAddressForRow bytesPerRow targets row = HexState.getAddressForRow bytesPerRow targets row := by
  have htotal := hfits.total
  rw [exact_total hrow h] at htotal
  have hnonneg := getTotalRows_nonneg hrow h
  refine ⟨htotal, ?_, fun address => ?_, fun row hnonneg hlt => ?_⟩
  · rw [getTotalRows_eq hrow h hfits.map, long_eq_self (by omega) htotal]
  · rw [getRowForAddress, countRows_exact hrow h hfits.map (Int.le_refl 0) (by omega), Int.zero_add]
  · rw [getAddressForRow, HexState.getAddressForRow, findRow_exact hrow h hlong hfits.map hnonneg hlt]

/-- Maps that fit have rows that correspond to their addresses. -/
theorem Fits.rowsCorrespond (hrow : 0 < bytesPerRow) (h : Ordered targets) (hlong : LongAddresses targets)
    (hfits : Fits bytesPerRow targets) : RowsCorrespond bytesPerRow targets := by
  obtain ⟨htotal, hrows, hget, haddress⟩ := hfits.exact hrow h hlong
  refine ⟨fun row hnonneg hlt => ?_, fun address hcov => ?_, fun row row' hnonneg hlt htotal' => ?_⟩
  · rw [hrows] at hlt
    obtain ⟨address, hfind, hcov, -⟩ := findRow_spec hrow h hnonneg hlt
    have hin : Covered targets (HexState.getAddressForRow bytesPerRow targets row) := by
      rwa [HexState.getAddressForRow, hfind, Option.getD_some]
    rw [haddress row hnonneg (by omega), hget, row_of_address hrow h hnonneg hlt]
  · have hbounds := getRowForAddress_bounds hrow h hcov
    rw [hget, hrows, haddress _ hbounds.1 (by omega)]
    exact ⟨hbounds, address_near hrow h hcov⟩
  · rw [hrows] at htotal'
    rw [haddress row hnonneg (by omega), haddress row' (by omega) (by omega)]
    exact address_lt hrow h hnonneg hlt htotal'

/-! ## Maps that do not fit -/

/-- Of a map that is too long, no rows are counted, or less than none. -/
theorem rowsInMap_long (hrow : 1 ≤ bytesPerRow) (hint : bytesPerRow < 2 ^ 31)
    (hin : -2 ^ 63 ≤ map.start ∧ map.stop < 2 ^ 63) (hbad : 2 ^ 63 ≤ map.stop - map.start + bytesPerRow - 1) :
    ∃ q, 0 ≤ q ∧ rowsInMap bytesPerRow map = -q ∧
      (bytesPerRow * q ≤ 2 ^ 64 - (map.stop - map.start) - bytesPerRow + 1 ∨ q = 0) := by
  rw [rowsInMap, long_of_le hbad (by omega)]
  by_cases hneg : map.stop - map.start + bytesPerRow - 1 - 2 ^ 64 < 0
  · obtain ⟨w, hw⟩ : ∃ w, map.stop - map.start + bytesPerRow - 1 - 2 ^ 64 = -w := ⟨_, (Int.neg_neg _).symm⟩
    refine ⟨w / bytesPerRow, Int.ediv_nonneg (by omega) (by omega), ?_, .inl ?_⟩
    · rw [hw, Int.neg_tdiv, Int.tdiv_eq_ediv_of_nonneg (by omega)]
    · have := Int.mul_ediv_self_le (x := w) (k := bytesPerRow) (by omega)
      omega
  · refine ⟨0, le_rfl, ?_, .inr rfl⟩
    rw [Int.tdiv_eq_ediv_of_nonneg (by omega), Int.ediv_eq_zero_of_lt (by omega) (by omega), Int.neg_zero]

/-- A map that is counted right has the row, or is passed. -/
theorem findRow_good (hrow : 0 < bytesPerRow) (hmap : map.start < map.stop)
    (hin : -2 ^ 63 ≤ map.start ∧ map.stop < 2 ^ 63) (hfit : map.stop - map.start + bytesPerRow - 1 < 2 ^ 63)
    (hnonneg : 0 ≤ row) (hlt : row < 2 ^ 63) (hfind : findRow bytesPerRow (map :: maps) row = some address) :
    map.start ≤ address ∨
      ∃ rest, 0 ≤ rest ∧ rest ≤ row ∧ findRow bytesPerRow maps rest = some address := by
  have hpos := rowsInMap_pos hrow hmap
  rw [findRow, rowsInMap_exact hrow hmap hfit] at hfind
  split at hfind
  · rename_i hhead
    obtain ⟨hlo, hhi⟩ := has_row hrow hmap hnonneg hhead
    rw [long_eq_self (by omega) (by omega)] at hfind
    cases hfind
    exact .inl hlo
  · rw [long_eq_self (by omega) (by omega)] at hfind
    exact .inr ⟨_, by omega, by omega, hfind⟩

/-- Behind the maps that are too long, the loop comes to an address in the maps that are left, even if the number
of rows that remain has wrapped around. -/
theorem le_of_findRow_good (hrow : 2 ≤ bytesPerRow) (h : Ordered maps) (hlong : LongAddresses maps)
    (hgood : Good bytesPerRow maps) (hlow : ∀ map ∈ maps, n ≤ map.start)
    (hrem : (0 ≤ row ∧ row < 2 ^ 63) ∨ (row = -2 ^ 63 ∧ bytesPerRow = 2))
    (hfind : findRow bytesPerRow maps row = some address) : n ≤ address := by
  induction maps generalizing row with
  | nil => cases hfind
  | cons map maps ih =>
    obtain ⟨hmap, hgood⟩ := List.forall_mem_cons.mp hgood
    obtain ⟨hin, hlong⟩ := List.forall_mem_cons.mp hlong
    obtain ⟨hstart, hlow⟩ := List.forall_mem_cons.mp hlow
    rcases hrem with ⟨hnonneg, hlt⟩ | ⟨rfl, rfl⟩
    · rcases findRow_good (by omega) h.head_lt hin hmap hnonneg hlt hfind with hle | ⟨rest, hrest, hle, hfind⟩
      · omega
      · exact ih h.tail hlong hgood hlow (.inl ⟨hrest, by omega⟩) hfind
    · have hpos : 0 < HexState.rowsInMap 2 map := rowsInMap_pos (by decide) h.head_lt
      rw [findRow, rowsInMap_exact (by decide) h.head_lt hmap, if_pos (by omega)] at hfind
      -- twice the rows that remain is nothing
      have hwrap : long (map.start + -2 ^ 63 * 2) = map.start := by
        have hne := h.head_lt
        have := Int.sub_bmod_right map.start (2 ^ 64)
        rw [long, show map.start + -2 ^ 63 * 2 = map.start - (2 ^ 64 : Nat) by omega, this]
        exact Int.bmod_eq_of_le (by omega) (by omega)
      rw [hwrap] at hfind
      cases hfind
      exact hstart

/-- Behind a map that is too long, of `used` bytes, the loop comes to an address in the maps that are left. There is
room for one more such map. -/
theorem le_of_findRow {used : Int} (hrow : 2 ≤ bytesPerRow) (hint : bytesPerRow < 2 ^ 31) (h : Ordered maps)
    (hlong : LongAddresses maps) (hlow : ∀ map ∈ maps, n ≤ map.start) (hused : 2 ^ 63 ≤ used + bytesPerRow - 1)
    (hn : used - 2 ^ 63 ≤ n) (hnonneg : 0 ≤ row) (hrem : bytesPerRow * row ≤ 2 ^ 64 - used - bytesPerRow + 1 ∨ row = 0)
    (hfind : findRow bytesPerRow maps row = some address) : n ≤ address := by
  have htwice : ∀ {q : Int}, 0 ≤ q → 2 * q ≤ bytesPerRow * q := fun hq => Int.mul_le_mul_of_nonneg_right hrow hq
  induction maps generalizing row with
  | nil => cases hfind
  | cons map maps ih =>
    obtain ⟨hin, hlong⟩ := List.forall_mem_cons.mp hlong
    obtain ⟨hstart, hlow⟩ := List.forall_mem_cons.mp hlow
    have hrow2 := htwice hnonneg
    by_cases hmap : map.stop - map.start + bytesPerRow - 1 < 2 ^ 63
    · rcases findRow_good (by omega) h.head_lt hin hmap hnonneg (by omega) hfind with hle | ⟨rest, hrest, hle, hfind⟩
      · omega
      · refine ih h.tail hlong hlow hrest ?_ hfind
        have := Int.mul_le_mul_of_nonneg_left hle (show 0 ≤ bytesPerRow by omega)
        omega
    · obtain ⟨q, hq, hrows, hqle⟩ := rowsInMap_long (by omega) hint hin (not_lt.mp hmap)
      have hq2 := htwice hq
      have hsum2 := htwice (q := row + q) (by omega)
      have hadd := Int.mul_add bytesPerRow row q
      rw [findRow, hrows, if_neg (by omega), Int.sub_neg] at hfind
      -- no third map can be too long
      have hbehind : ∀ map' ∈ maps, 2 ^ 63 - 2 * bytesPerRow + 2 ≤ map'.start := fun map' hmap' => by
        have := h.le_start hmap'
        omega
      have hgood : Good bytesPerRow maps := fun map' hmap' => by
        have := hbehind map' hmap'
        have := (hlong map' hmap').2
        omega
      refine le_of_findRow_good hrow h.tail hlong hgood hlow ?_ hfind
      by_cases hfull : row + q < 2 ^ 63
      · rw [long_eq_self (by omega) hfull]
        exact .inl ⟨by omega, hfull⟩
      · rw [long_of_le (by omega) (by omega)]
        refine .inr ⟨by omega, ?_⟩
        by_contra hne
        have hthrice := Int.mul_le_mul_of_nonneg_right (show 3 ≤ bytesPerRow by omega) (show 0 ≤ row + q by omega)
        omega

/-- With a map that is too long, the first such map begins with an address that is not found again. -/
theorem exists_lost (hrow : 2 ≤ bytesPerRow) (hint : bytesPerRow < 2 ^ 31) (h : Ordered targets)
    (hlong : LongAddresses targets) (hbad : ¬ Good bytesPerRow targets) (hlow : ∀ map ∈ targets, n ≤ map.start) :
    ∃ address lost, Covered targets address ∧ 0 ≤ lost ∧ lost ≤ address - n ∧
      (∀ rowCount, countRows bytesPerRow rowCount targets address = long (rowCount + lost)) ∧
      (lost < 2 ^ 63 → ∀ found, findRow bytesPerRow targets lost = some found → address < found) := by
  induction targets generalizing n with
  | nil => exact absurd (fun _ => nofun) hbad
  | cons map maps ih =>
    obtain ⟨hin, hlong⟩ := List.forall_mem_cons.mp hlong
    obtain ⟨hstart, -⟩ := List.forall_mem_cons.mp hlow
    have hne := h.head_lt
    by_cases hmap : map.stop - map.start + bytesPerRow - 1 < 2 ^ 63
    · have htail : ¬ Good bytesPerRow maps := fun hgood => hbad (List.forall_mem_cons.mpr ⟨hmap, hgood⟩)
      obtain ⟨address, lost, hcov, hnonneg, hle, hcount, hfind⟩ := ih h.tail hlong htail fun t ht => h.le_start ht
      obtain ⟨t, ht, hhas⟩ := hcov
      have hbehind := h.le_start ht
      have hlo := hhas.1
      have hnot : ¬ map.Has address := fun hhead => by
        have := hhead.2
        omega
      have hexact := rowsInMap_exact (by omega) hne hmap
      have hpos : 0 < HexState.rowsInMap bytesPerRow map := rowsInMap_pos (by omega) hne
      have hshort : HexState.rowsInMap bytesPerRow map ≤ map.stop - map.start := rowsInMap_le (by omega) hne
      refine ⟨address, HexState.rowsInMap bytesPerRow map + lost, covered_cons.mpr (.inr ⟨t, ht, hhas⟩), by omega,
        by omega, fun rowCount => ?_, fun hlt found hfound => hfind (by omega) found ?_⟩
      · rw [countRows, if_neg hnot, hcount, hexact, long_add_long, Int.add_assoc]
      · have hrest : HexState.rowsInMap bytesPerRow map + lost - HexState.rowsInMap bytesPerRow map = lost := by omega
        rwa [findRow, hexact, if_neg (by omega), hrest, long_eq_self (by omega) (by omega)] at hfound
    · obtain ⟨q, hq, hrows, hqle⟩ := rowsInMap_long (by omega) hint hin (not_lt.mp hmap)
      have htwice := Int.mul_le_mul_of_nonneg_right hrow hq
      refine ⟨map.start, 0, covered_cons.mpr (.inl ⟨le_rfl, hne⟩), le_rfl, by omega, fun rowCount => ?_,
        fun _ found hfound => ?_⟩
      · rw [countRows, if_pos ⟨le_rfl, hne⟩, Int.sub_self, long_eq_self (n := 0) (by decide) (by decide), Int.zero_tdiv]
      · rw [findRow, hrows, if_neg (by omega), Int.sub_neg, Int.zero_add, long_eq_self (by omega) (by omega)] at hfound
        have hused : 2 ^ 63 ≤ map.stop - map.start + bytesPerRow - 1 := by omega
        have := le_of_findRow hrow hint h.tail hlong (fun t ht => h.le_start ht) hused (by omega) hq hqle hfound
        omega

/-- The rows of some maps are not more than the bytes between them. -/
theorem exact_total_le {low high : Int} (hrow : 0 < bytesPerRow) (h : Ordered targets) (hle : low ≤ high)
    (hlow : ∀ map ∈ targets, low ≤ map.start) (hhigh : ∀ map ∈ targets, map.stop ≤ high) :
    HexState.getTotalRows bytesPerRow targets ≤ high - low := by
  induction targets generalizing low with
  | nil =>
    have : HexState.getTotalRows bytesPerRow [] = 0 := rfl
    omega
  | cons map maps ih =>
    obtain ⟨hstart, -⟩ := List.forall_mem_cons.mp hlow
    obtain ⟨hstop, hhigh⟩ := List.forall_mem_cons.mp hhigh
    have hshort := rowsInMap_le hrow h.head_lt
    have hrest := ih h.tail hstop (fun t ht => h.le_start ht) hhigh
    rw [getTotalRows_cons]
    omega

theorem rowsInMap_le_total (hrow : 0 < bytesPerRow) (h : Ordered targets) (hmem : map ∈ targets) :
    HexState.rowsInMap bytesPerRow map ≤ HexState.getTotalRows bytesPerRow targets := by
  induction targets with
  | nil => cases hmem
  | cons map' maps ih =>
    have hhead := rowsInMap_pos hrow h.head_lt
    have htail := getTotalRows_nonneg hrow h.tail
    rw [getTotalRows_cons]
    rcases List.mem_cons.mp hmem with rfl | hmem
    · omega
    · have := ih h.tail hmem
      omega

/-- The number of rows does not wrap around if every address has a row. -/
theorem RowsCorrespond.total_lt (hrow : 0 < bytesPerRow) (h : Ordered targets) (hlong : LongAddresses targets)
    (hc : RowsCorrespond bytesPerRow targets)
    (htotal : getTotalRows bytesPerRow targets = long (HexState.getTotalRows bytesPerRow targets)) :
    HexState.getTotalRows bytesPerRow targets < 2 ^ 63 := by
  by_contra hge
  have hends : (-2 ^ 63 : Int) ≤ 2 ^ 63 - 1 := by decide
  have hle := exact_total_le hrow h hends (fun map hmap => (hlong map hmap).1)
    fun map hmap => by have := (hlong map hmap).2; omega
  rw [long_of_le (by omega) (by omega)] at htotal
  cases targets with
  | nil =>
    have : HexState.getTotalRows bytesPerRow [] = 0 := rfl
    omega
  | cons map maps =>
    obtain ⟨hrows, -⟩ := hc.address_row map.start (covered_cons.mpr (.inl ⟨le_rfl, h.head_lt⟩))
    omega

/-- In rows of one byte, rows are counted up to what wraps around. -/
theorem getTotalRows_one (targets : List Segment) :
    getTotalRows 1 targets = long (HexState.getTotalRows 1 targets) := by
  have hone : ∀ map ∈ targets, ∀ sum, long (sum + rowsInMap 1 map) = long (sum + HexState.rowsInMap 1 map) :=
    fun map _ sum => by
      rw [rowsInMap, HexState.rowsInMap, Int.tdiv_one, Int.tdiv_one]
      exact Int.add_bmod_bmod
  have hsum := foldl_total (n := 0) hone
  rwa [Int.zero_add] at hsum

theorem RowsCorrespond.good (hrow : 1 ≤ bytesPerRow) (hint : bytesPerRow < 2 ^ 31) (h : Ordered targets)
    (hlong : LongAddresses targets) (hc : RowsCorrespond bytesPerRow targets) : Good bytesPerRow targets := by
  by_contra hbad
  by_cases hone : bytesPerRow = 1
  · subst hone
    have htotal := hc.total_lt hrow h hlong (getTotalRows_one targets)
    refine hbad fun map hmap => ?_
    have hle := rowsInMap_le_total hrow h hmap
    rw [HexState.rowsInMap, Int.tdiv_one] at hle
    omega
  · obtain ⟨address, lost, hcov, hnonneg, hle, hcount, hfind⟩ := exists_lost (n := -2 ^ 63) (by omega) hint h hlong hbad
      fun map hmap => (hlong map hmap).1
    obtain ⟨t, ht, hhas⟩ := hcov
    have hin := hhas.2
    have hmax := (hlong t ht).2
    obtain ⟨⟨hrows, -⟩, hlo, -⟩ := hc.address_row address ⟨t, ht, hhas⟩
    have hget := hcount 0
    rw [Int.zero_add] at hget
    rw [getRowForAddress, hget] at hrows hlo
    have hlt : lost < 2 ^ 63 := by
      by_contra hge
      rw [long_of_le (by omega) (by omega)] at hrows
      omega
    rw [long_eq_self (by omega) hlt, getAddressForRow] at hlo
    cases hfound : findRow bytesPerRow targets lost with
    | some found =>
      have := hfind hlt found hfound
      rw [hfound, Option.getD_some] at hlo
      omega
    | none =>
      have hne := List.ne_nil_of_mem ht
      have := h.stop_le_getLast hne ht
      rw [hfound, Option.getD_none, List.getLast?_eq_getLast_of_ne_nil hne, Option.map_some, Option.getD_some] at hlo
      omega

/-- Rows and addresses of targets that are open correspond exactly if the maps fit. -/
theorem rows_correspond_iff (activeMap : Option MemoryRange) (activeMaps : List MemoryRange) (bytesPerRow : Int)
    (hrow : 1 ≤ bytesPerRow) (hint : bytesPerRow < 2 ^ 31)
    (hdisjoint : MemoryRange.Disjoint (MemoryRange.opened activeMap activeMaps))
    (hlong : LongAddresses ((MemoryRange.getEffectiveTargets activeMap activeMaps).map MemoryRange.segment)) :
    RowsCorrespond bytesPerRow ((MemoryRange.getEffectiveTargets activeMap activeMaps).map MemoryRange.segment) ↔
      Fits bytesPerRow ((MemoryRange.getEffectiveTargets activeMap activeMaps).map MemoryRange.segment) := by
  have h := MemoryRange.ordered_getEffectiveTargets hdisjoint
  refine ⟨fun hc => ?_, fun hfits => hfits.rowsCorrespond hrow h hlong⟩
  have hgood := hc.good hrow hint h hlong
  refine ⟨hgood, ?_⟩
  rw [exact_total hrow h]
  exact hc.total_lt hrow h hlong (getTotalRows_eq hrow h hgood)

/-- Two maps with partial last rows. -/
theorem rows_correspond_partial :
    RowsCorrespond 16 ((MemoryRange.getEffectiveTargets none
      [⟨"heap", 0x2000, 0x2011, 3, none, []⟩, ⟨"code", 0x1000, 0x1025, 5, none, []⟩]).map MemoryRange.segment) := by
  refine (rows_correspond_iff none
    [⟨"heap", 0x2000, 0x2011, 3, none, []⟩, ⟨"code", 0x1000, 0x1025, 5, none, []⟩] 16 (by decide) (by decide)
    ⟨by decide, List.pairwise_pair.mpr (.inr (by decide))⟩ ?_).mpr ⟨?_, ?_⟩
  · unfold LongAddresses
    decide
  · decide
  · decide

/-- A map up to the last `Long` has fewer rows than none. -/
theorem rows_not_correspond :
    ¬ ∀ (activeMap : Option MemoryRange) (activeMaps : List MemoryRange) (bytesPerRow : Int), 1 ≤ bytesPerRow →
      bytesPerRow < 2 ^ 31 → MemoryRange.Disjoint (MemoryRange.opened activeMap activeMaps) →
      LongAddresses ((MemoryRange.getEffectiveTargets activeMap activeMaps).map MemoryRange.segment) →
      RowsCorrespond bytesPerRow ((MemoryRange.getEffectiveTargets activeMap activeMaps).map MemoryRange.segment) := by
  intro h
  have hc := h (some ⟨"user", 0, 0x7FFFFFFFFFFFFFFF, 3, none, []⟩) [] 16 (by decide) (by decide)
    ⟨by decide, List.pairwise_singleton _ _⟩ (by unfold LongAddresses; decide)
  obtain ⟨⟨-, hlt⟩, -⟩ := hc.address_row 0 (by decide)
  revert hlt
  decide

end Long

end HexState

end Ps5Debugger

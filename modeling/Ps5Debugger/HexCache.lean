import Ps5Debugger.Lib.Arr
import Ps5Debugger.Lib.Machine
import Ps5Debugger.MemoryRanges

/-!
# The page cache of the hex view

The hex view draws bytes from `HexCache.hexCache`, pages of 64 KiB under their addresses. Three loaders fill it:
`loadPage` for the page of a row and `loadChunkAt` for a chunk of a map (`HexState.kt`), and the preloader for
the first page of a map (`RegionPreloader.kt`).

`loads_are_faithful`: a session of loads keeps the pages faithful to the target when each preload that stores a
page is of a map that begins with that page, or of one whose part of the page the read covers, and no chunk has
its megabyte reach past the last `Long`. The preloader reads from the start of the page as many bytes as the map
has, and puts them at the front of the page; for a map that begins behind the start of the page these are not its
bytes.
-/

namespace Ps5Debugger

open Lib

namespace HexCache

def pageSize : Int := 65536

def chunkSize : Int := 1024 * 1024

/-- `hexCache` -/
abbrev Cache : Type := Int → Option (Arr UInt8)

/-- `(a / pageSize) * pageSize` -/
def pageOf (a : Int) : Int := a.tdiv pageSize * pageSize

/-- `ByteArray(pageSize)` -/
def blankPage : Arr UInt8 := .new 0 pageSize.toNat

/-- What `getByteAt` finds of an address in the cache. -/
def cachedByte (cache : Cache) (a : Int) : Option UInt8 :=
  match cache (pageOf a) with
  | some page =>
    let offset := a - pageOf a
    if 0 ≤ offset ∧ offset < page.size then some (page.get offset.toNat) else none
  | none => none

/-- The process with the maps of the session. Its memory does not change; a read of mapped memory succeeds, any
other may bring anything. The bytes of a local map are those that it carries. -/
structure Target where
  maps : List MemoryRange
  longs : ∀ map ∈ maps, -2 ^ 63 ≤ map.start ∧ map.stop < 2 ^ 63
  mem : Int → UInt8
  mapped : Int → Prop
  readMemory : Int → Nat → Option (List UInt8)
  read_mapped : ∀ {start : Int} {len : Nat}, (∀ a, start ≤ a → a < start + len → mapped a) →
    readMemory start len = some ((List.range len).map fun i : Nat => mem (start + i))
  remote_mapped : ∀ map ∈ maps, map.localData = none → ∀ a, map.segment.Has a → mapped a
  local_mem : ∀ map ∈ maps, ∀ data, map.localData = some data → ∀ (i : Nat) b, data[i]? = some b →
    mem (map.start + i) = b

/-! ## The loaders

Each gives the pages that it stores, and whether it brought bytes. -/

/-- No pages. -/
def noPages : Cache := fun _ => none

section Loaders

variable (t : Target) (cache : Cache)

/-- One map of a page. -/
def copyMap (page : Int) (loaded : Arr UInt8 × Bool) (map : MemoryRange) : Arr UInt8 × Bool :=
  let readStart := max page map.start
  let readEnd := min (long (page + pageSize)) map.stop
  if readStart < readEnd then
    match t.readMemory readStart (readEnd - readStart).toNat with
    | some data =>
      if data ≠ [] then
        let destOffset := (readStart - page).toNat
        let copyLen := min data.length (pageSize.toNat - destOffset)
        (loaded.1.arraycopy data 0 destOffset copyLen, true)
      else loaded
    | none => loaded
  else loaded

/-- `loadPage` -/
def loadPage (pid : Option Nat) (page : Int) (targets : List MemoryRange) : Cache × Bool :=
  let overlappingMaps :=
    targets.filter fun map => map.localData.isNone && map.start < long (page + pageSize) && map.stop > page
  if overlappingMaps.isEmpty || pid.isNone then (noPages, false)
  else
    let (pageData, hasData) := overlappingMaps.foldl (copyMap t page) ((cache page).getD blankPage, false)
    if hasData then (Function.update noPages page (some pageData), true) else (noPages, false)

/-- The pages from `first` on that begin before `stop`. -/
def pagesBefore (first stop : Int) : List Int :=
  (List.range ((stop - first + pageSize - 1) / pageSize).toNat).map fun i : Nat => first + i * pageSize

/-- One page of a chunk. -/
def copyPage (data : List UInt8) (chunkStart chunkEnd : Int) (chunkPages : Cache) (pageAddr : Int) : Cache :=
  let copyStart := max pageAddr chunkStart
  let copyEnd := min (pageAddr + pageSize) chunkEnd
  let srcOffset := (copyStart - chunkStart).toNat
  let destOffset := (copyStart - pageAddr).toNat
  let copyLen := copyEnd - copyStart
  if copyLen > 0 ∧ srcOffset + copyLen.toNat ≤ data.length then
    let pageData := (chunkPages pageAddr).getD
      (if copyLen = pageSize ∧ destOffset = 0 then blankPage else (cache pageAddr).getD blankPage)
    Function.update chunkPages pageAddr (some (pageData.arraycopy data srcOffset destOffset copyLen.toNat))
  else chunkPages

/-- The connection holds: a read fails when the kernel rejects it. Into the last page of the `Long`s the loop over
the pages comes round and does not end: nothing is stored. -/
def loadChunkAt (map : MemoryRange) (chunkStart : Int) : Cache × Bool :=
  let chunkEnd := min (long (chunkStart + chunkSize)) map.stop
  let readLen := int (long (chunkEnd - chunkStart))
  let pages := pagesBefore (pageOf chunkStart) chunkEnd
  if readLen ≤ 0 ∨ 2 ^ 63 - pageSize < chunkEnd then (noPages, false)
  else
    match t.readMemory chunkStart readLen.toNat with
    | some data =>
      if data ≠ [] then (pages.foldl (copyPage cache data chunkStart chunkEnd) noPages, true) else (noPages, false)
    | none => (fun p => if p ∈ pages ∧ cache p = none then some blankPage else none, false)

/-- What the preloader reads for the page of a map; none when it throws. -/
def preloadData (map : MemoryRange) (pid : Option Nat) : Option (List UInt8) :=
  let readLen := int (min pageSize (long map.size))
  match map.localData with
  | some localData => if readLen < 0 then none else some (localData.take (min readLen.toNat localData.length))
  | none => if pid.isSome then t.readMemory (pageOf map.start) readLen.toNat else some []

/-- The hex page of a map without submaps; the submaps of a group are preloaded one by one. -/
def preloadRegionInBackground (map : MemoryRange) (pid : Option Nat) : Cache × Bool :=
  let pageStart := pageOf map.start
  if (cache pageStart).isSome then (noPages, false)
  else
    match preloadData t map pid with
    | some data =>
      -- `arraycopy` throws when the page is too short.
      if data ≠ [] ∧ data.length ≤ pageSize.toNat then
        (Function.update noPages pageStart (some (blankPage.arraycopy data 0 0 data.length)), true)
      else (noPages, false)
    | none => (noPages, false)

end Loaders

/-! ## Sessions -/

/-- A load. `pruned` are the pages that `pruneCacheIfNeeded` throws out after it, whatever they are. -/
inductive Load : Type where
  | page (rowAddr : Int) (pid : Option Nat) (targets : List MemoryRange) (pruned : Int → Bool)
  | chunk (map : MemoryRange) (index : Nat) (pruned : Int → Bool)
  | preload (map : MemoryRange) (pid : Option Nat)

/-- Where a chunk of a map begins. -/
def chunkStartOf (map : MemoryRange) (index : Nat) : Int := map.start + index * chunkSize

def loaded (t : Target) (cache : Cache) : Load → Cache × Bool
  | .page rowAddr pid targets _ => loadPage t cache pid (pageOf rowAddr) targets
  | .chunk map index _ => loadChunkAt t cache map (chunkStartOf map index)
  | .preload map pid => preloadRegionInBackground t cache map pid

def Load.pruned : Load → Int → Bool
  | .page _ _ _ pruned => pruned
  | .chunk _ _ pruned => pruned
  | .preload _ _ => fun _ => false

/-- What was read goes over what was there. -/
def store (pages cache : Cache) : Cache := fun p => (pages p).or (cache p)

/-- Pages may go. -/
def pruneCacheIfNeeded (pruned : Int → Bool) (cache : Cache) : Cache := fun p => if pruned p then none else cache p

/-- A load is stored and the cache pruned. -/
def step (t : Target) (cache : Cache) (load : Load) : Cache :=
  pruneCacheIfNeeded load.pruned (store (loaded t cache load).1 cache)

/-- The load is one over these maps. The greedy loader takes the remote ones, and the chunks that begin in them. -/
def Load.Over (maps : List MemoryRange) : Load → Prop
  | .page rowAddr _ targets _ => targets ⊆ maps ∧ -2 ^ 63 ≤ rowAddr ∧ rowAddr < 2 ^ 63
  | .chunk map index _ => map ∈ maps ∧ map.localData = none ∧ chunkStartOf map index < map.stop
  | .preload map _ => map ∈ maps

/-- The addresses that a load is for: those of its page or chunk and its maps. Of a local map those whose bytes
it carries. -/
def Load.For : Load → Int → Prop
  | .page rowAddr _ targets _, a => pageOf a = pageOf rowAddr ∧
      ∃ map ∈ targets, map.localData = none ∧ map.segment.Has a
  | .chunk map index _, a => map.segment.Has a ∧ chunkStartOf map index ≤ a ∧ a < chunkStartOf map index + chunkSize
  | .preload map _, a => pageOf a = pageOf map.start ∧ map.segment.Has a ∧
      ∀ data, map.localData = some data → a - map.start < data.length

/-- Every page lies at a multiple of its size, and has that size. -/
def Aligned (cache : Cache) : Prop := ∀ p page, cache p = some page → 65536 ∣ p ∧ page.size = 65536

/-- The load leaves the pages aligned; when it brought bytes, those that are cached of what it was for are the
target's; and no byte that was right is replaced by a wrong one. -/
structure Good (t : Target) (cache : Cache) (load : Load) : Prop where
  aligned : Aligned (step t cache load)
  right : (loaded t cache load).2 = true → ∀ a, load.For a → ∀ b, cachedByte (step t cache load) a = some b →
    b = t.mem a
  kept : ∀ a, cachedByte cache a = some (t.mem a) → ∀ b, cachedByte (step t cache load) a = some b → b = t.mem a

/-- A preload that stores a page is of a map with a size, and the map begins with the page, or the preload reads
mapped memory up to the end of the page or of the map. The megabyte of a chunk ends before the last `Long`. -/
def Whole (t : Target) (cache : Cache) : Load → Prop
  | .preload map pid =>
    let pageStart := pageOf map.start
    let readLen := min pageSize map.size
    cache pageStart ≠ none ∨ (0 ≤ map.size ∧ map.size < 2 ^ 63) ∧ (pageStart = map.start ∨ map.localData = none ∧
      (pid = none ∨ t.readMemory pageStart readLen.toNat = none ∨
        min (pageStart + pageSize) map.stop ≤ pageStart + readLen ∧
          ∀ a, pageStart ≤ a → a < pageStart + readLen → t.mapped a))
  | .chunk map index _ => chunkStartOf map index + chunkSize < 2 ^ 63
  | .page .. => True

/-! ## Pages that grow

A loader works on a copy of the cached page, or on a blank one, and lays bytes of the target over it. -/

section Grows

variable {t : Target} {cache pages : Cache} {p : Int} {page page' page'' : Arr UInt8}

/-- Each byte of the new page is that of the old one, or the target's. -/
structure Grows (t : Target) (p : Int) (page page' : Arr UInt8) : Prop where
  size : page'.size = page.size
  get : ∀ i : Nat, i < 65536 → page'.get i = page.get i ∨ page'.get i = t.mem (p + i)

theorem Grows.refl (t : Target) (p : Int) (page : Arr UInt8) : Grows t p page page := ⟨rfl, fun _ _ => .inl rfl⟩

theorem Grows.trans (h : Grows t p page page') (h' : Grows t p page' page'') : Grows t p page page'' := by
  refine ⟨h'.size.trans h.size, fun i hi => ?_⟩
  rcases h'.get i hi with heq | hmem
  · rw [heq]
    exact h.get i hi
  · exact .inr hmem

/-- What is right stays right. -/
theorem Grows.right (h : Grows t p page page') {i : Nat} (hi : i < 65536) (hright : page.get i = t.mem (p + i)) :
    page'.get i = t.mem (p + i) :=
  (h.get i hi).elim (fun heq => heq.trans hright) id

/-- What a read of the target brings. -/
theorem getElem?_read {t : Target} {start : Int} {len i : Nat} {b : UInt8}
    (hb : ((List.range len).map fun i : Nat => t.mem (start + i))[i]? = some b) : b = t.mem (start + i) := by
  obtain ⟨hi, heq⟩ := List.getElem?_eq_some_iff.mp hb
  rw [← heq, List.getElem_map, List.getElem_range]

/-- A copy of the target's bytes to where they belong. -/
theorem grows_arraycopy (page : Arr UInt8) (data : List UInt8) (srcPos destPos len : Nat)
    (hsrc : srcPos + len ≤ data.length)
    (hdata : ∀ (i : Nat) b, destPos ≤ i → i < destPos + len → data[srcPos + (i - destPos)]? = some b →
      b = t.mem (p + i)) :
    Grows t p page (page.arraycopy data srcPos destPos len) ∧
      ∀ i, destPos ≤ i → i < destPos + len → (page.arraycopy data srcPos destPos len).get i = t.mem (p + i) := by
  have hinside : ∀ i, destPos ≤ i → i < destPos + len →
      (page.arraycopy data srcPos destPos len).get i = t.mem (p + i) := fun i hle hlt =>
    hdata i _ hle hlt (Arr.get_arraycopy_inside ⟨hle, hlt⟩ hsrc)
  refine ⟨⟨rfl, fun i _ => ?_⟩, hinside⟩
  by_cases hi : destPos ≤ i ∧ i < destPos + len
  · exact .inr (hinside i hi.1 hi.2)
  · exact .inl (Arr.get_arraycopy_outside hi)

end Grows

/-! ## What the loaders store -/

section Loaders

variable {t : Target} {cache : Cache} {p : Int}

theorem pageSize_eq : pageSize = 65536 := rfl

theorem segment_has {map : MemoryRange} {a : Int} : map.segment.Has a ↔ map.start ≤ a ∧ a < map.stop := Iff.rfl

/-- A read inside a remote map. -/
theorem read_remote {map : MemoryRange} (hmap : map ∈ t.maps) (hremote : map.localData = none) (start : Int) (len : Nat)
    (hlo : map.start ≤ start) (hhi : start + len ≤ map.stop) :
    t.readMemory start len = some ((List.range len).map fun i : Nat => t.mem (start + i)) :=
  t.read_mapped fun a hle hlt => t.remote_mapped map hmap hremote a (segment_has.mpr ⟨by omega, by omega⟩)

theorem grows_copyMap (hend : long (p + pageSize) = p + pageSize) {map : MemoryRange} (hmap : map ∈ t.maps)
    (hremote : map.localData = none) (acc : Arr UInt8 × Bool) :
    Grows t p acc.1 (copyMap t p acc map).1 ∧
      ∀ i : Nat, i < 65536 → map.segment.Has (p + i) → (copyMap t p acc map).1.get i = t.mem (p + i) := by
  have hP := pageSize_eq
  rw [copyMap, hend]
  by_cases hlt : max p map.start < min (p + pageSize) map.stop
  · obtain ⟨len, hlen⟩ : ∃ len, len = (min (p + pageSize) map.stop - max p map.start).toNat := ⟨_, rfl⟩
    have hread := read_remote hmap hremote (max p map.start) len (by omega) (by omega)
    have hdata : (List.range len).map (fun i : Nat => t.mem (max p map.start + i)) ≠ [] := by
      rw [ne_eq, List.map_eq_nil_iff, List.range_eq_nil]
      omega
    simp only [hlt, if_true, ← hlen, hread, if_pos hdata]
    obtain ⟨hgrows, hright⟩ := grows_arraycopy (t := t) (p := p) acc.1
      ((List.range len).map fun i : Nat => t.mem (max p map.start + i)) 0 (max p map.start - p).toNat
      (min len (pageSize.toNat - (max p map.start - p).toNat))
      (by rw [List.length_map, List.length_range]; omega)
      (fun i b hle _ hb => by
        rw [getElem?_read hb]
        exact congrArg t.mem (by omega))
    rw [List.length_map, List.length_range]
    refine ⟨hgrows, fun i hi hhas => ?_⟩
    have := segment_has.mp hhas
    exact hright i (by omega) (by omega)
  · simp only [hlt, if_false]
    refine ⟨.refl t p acc.1, fun i hi hhas => ?_⟩
    have := segment_has.mp hhas
    omega

theorem grows_foldl_copyMap (hend : long (p + pageSize) = p + pageSize) (maps : List MemoryRange) (hmaps : maps ⊆ t.maps)
    (hremote : ∀ map ∈ maps, map.localData = none) (acc : Arr UInt8 × Bool) :
    Grows t p acc.1 (maps.foldl (copyMap t p) acc).1 ∧
      ∀ map ∈ maps, ∀ i : Nat, i < 65536 → map.segment.Has (p + i) →
        (maps.foldl (copyMap t p) acc).1.get i = t.mem (p + i) := by
  induction maps generalizing acc with
  | nil => exact ⟨.refl t p acc.1, nofun⟩
  | cons map maps ih =>
    obtain ⟨hgrows, hright⟩ := grows_copyMap hend (hmaps List.mem_cons_self) (hremote map List.mem_cons_self) acc
    obtain ⟨hgrows', hright'⟩ := ih (fun m hm => hmaps (List.mem_cons_of_mem _ hm))
      (fun m hm => hremote m (List.mem_cons_of_mem _ hm)) (copyMap t p acc map)
    refine ⟨hgrows.trans hgrows', fun m hm i hi hhas => ?_⟩
    rcases List.mem_cons.mp hm with rfl | hm
    · exact hgrows'.right hi (hright i hi hhas)
    · exact hright' m hm i hi hhas

/-- The pages that a loader stores lie at multiples of their size and come from those that are cached. -/
def Grown (t : Target) (cache pages : Cache) : Prop :=
  ∀ p page, pages p = some page → 65536 ∣ p ∧ Grows t p ((cache p).getD blankPage) page

theorem grown_noPages : Grown t cache noPages := nofun

theorem Grown.update {pages : Cache} (h : Grown t cache pages) {page : Arr UInt8} (hp : 65536 ∣ p)
    (hgrows : Grows t p ((cache p).getD blankPage) page) : Grown t cache (Function.update pages p (some page)) := by
  intro q page' hq
  by_cases hqp : q = p
  · subst hqp
    rw [Function.update_self] at hq
    cases hq
    exact ⟨hp, hgrows⟩
  · rw [Function.update_of_ne hqp] at hq
    exact h q page' hq

theorem pageOf_dvd (a : Int) : 65536 ∣ pageOf a := Int.dvd_mul_left _ _

/-- The page of a `Long`. -/
theorem pageOf_bounds {a : Int} (hlow : -2 ^ 63 ≤ a) (hhigh : a < 2 ^ 63) :
    -2 ^ 63 ≤ pageOf a ∧ pageOf a < 2 ^ 63 := by
  have hsplit := Int.mul_tdiv_add_tmod a 65536
  rw [pageOf, pageSize_eq]
  rcases Int.le_total 0 a with hsign | hsign
  · have := Int.tmod_nonneg 65536 hsign
    have := Int.tdiv_nonneg hsign (show 0 ≤ 65536 by decide)
    omega
  · have hneg := Int.tmod_nonneg 65536 (show 0 ≤ -a by omega)
    rw [Int.neg_tmod] at hneg
    have := Int.lt_tmod_of_pos a (show 0 < 65536 by decide)
    omega

theorem pageOf_mono {a b : Int} (h : a ≤ b) : pageOf a ≤ pageOf b :=
  Int.mul_le_mul_of_nonneg_right (Int.tdiv_le_tdiv (by decide) h) (by decide)

/-- No map begins before the first `Long`: the last page of them is of no map. -/
theorem loadPage_last (cache : Cache) {targets : List MemoryRange} (htargets : targets ⊆ t.maps) (pid : Option Nat)
    (hend : long (p + pageSize) = -2 ^ 63) : loadPage t cache pid p targets = (noPages, false) := by
  have hempty : targets.filter (fun map =>
      map.localData.isNone && map.start < long (p + pageSize) && map.stop > p) = [] := by
    refine List.filter_eq_nil_iff.mpr fun map hmap hkeep => ?_
    have hlow := (t.longs map (htargets hmap)).1
    simp only [hend, Bool.and_eq_true, decide_eq_true_eq] at hkeep
    omega
  rw [loadPage]
  simp only [hempty, List.isEmpty_nil, Bool.true_or, if_true]

/-- What `loadPage` stores is the page, with the bytes of the targets on it. -/
theorem loadPage_spec (cache : Cache) {targets : List MemoryRange} (htargets : targets ⊆ t.maps) (pid : Option Nat)
    (hp : 65536 ∣ p) (hlow : -2 ^ 63 ≤ p) (hhigh : p < 2 ^ 63) :
    Grown t cache (loadPage t cache pid p targets).1 ∧
      ((loadPage t cache pid p targets).2 = true → ∃ page, (loadPage t cache pid p targets).1 p = some page ∧
        ∀ map ∈ targets, map.localData = none → ∀ i : Nat, i < 65536 → map.segment.Has (p + i) →
          page.get i = t.mem (p + i)) := by
  have hP := pageSize_eq
  by_cases hlast : p + pageSize < 2 ^ 63
  on_goal 2 =>
    have hend : long (p + pageSize) = -2 ^ 63 := by
      rw [long_of_le (by omega) (by omega)]
      omega
    rw [loadPage_last cache htargets pid hend]
    exact ⟨grown_noPages, nofun⟩
  have hend : long (p + pageSize) = p + pageSize := long_eq_self (by omega) hlast
  rw [loadPage]
  obtain ⟨maps, hmaps⟩ : ∃ maps, maps = targets.filter fun map =>
    map.localData.isNone && map.start < p + pageSize && map.stop > p := ⟨_, rfl⟩
  simp only [hend, ← hmaps]
  obtain ⟨hgrows, hright⟩ := grows_foldl_copyMap (t := t) (p := p) hend maps
    (fun map hmap => htargets (List.mem_of_mem_filter (hmaps ▸ hmap)))
    (fun map hmap => by
      have hkeep := (List.mem_filter.mp (hmaps ▸ hmap)).2
      simp only [Bool.and_eq_true, Option.isNone_iff_eq_none] at hkeep
      exact hkeep.1.1)
    ((cache p).getD blankPage, false)
  split
  · exact ⟨grown_noPages, nofun⟩
  · split
    · refine ⟨grown_noPages.update hp hgrows, fun _ => ⟨_, Function.update_self _ _ _, ?_⟩⟩
      intro map hmap hremote i hi hhas
      refine hright map ?_ i hi hhas
      have := segment_has.mp hhas
      rw [hmaps, List.mem_filter]
      refine ⟨hmap, ?_⟩
      simp only [hremote, Option.isNone_none, Bool.true_and, Bool.and_eq_true, decide_eq_true_eq]
      omega
    · exact ⟨grown_noPages, nofun⟩

/-- A page of the loop over a chunk. -/
theorem mem_pagesBefore {first stop : Int} :
    p ∈ pagesBefore first stop ↔ ∃ i : Nat, p = first + i * 65536 ∧ p < stop := by
  rw [pagesBefore, List.mem_map, pageSize_eq]
  constructor
  · rintro ⟨i, hi, rfl⟩
    have := List.mem_range.mp hi
    exact ⟨i, rfl, by omega⟩
  · rintro ⟨i, rfl, hlt⟩
    exact ⟨i, List.mem_range.mpr (by omega), rfl⟩

/-- What was stored stays stored, and grows. -/
def Stays (t : Target) (pages pages' : Cache) : Prop :=
  ∀ p page, pages p = some page → ∃ page', pages' p = some page' ∧ Grows t p page page'

theorem Stays.refl (t : Target) (pages : Cache) : Stays t pages pages := fun p page h => ⟨page, h, .refl t p page⟩

theorem Stays.trans {pages pages' pages'' : Cache} (h : Stays t pages pages') (h' : Stays t pages' pages'') :
    Stays t pages pages'' := by
  intro p page hp
  obtain ⟨page', hp', hgrows⟩ := h p page hp
  obtain ⟨page'', hp'', hgrows'⟩ := h' p page' hp'
  exact ⟨page'', hp'', hgrows.trans hgrows'⟩

/-- The page is stored, and its byte is the target's. -/
def Shows (t : Target) (pages : Cache) (p : Int) (i : Nat) : Prop :=
  ∃ page, pages p = some page ∧ page.get i = t.mem (p + i)

theorem Shows.stays {pages pages' : Cache} {i : Nat} (h : Shows t pages p i) (hi : i < 65536)
    (hstays : Stays t pages pages') :
    Shows t pages' p i := by
  obtain ⟨page, hp, hright⟩ := h
  obtain ⟨page', hp', hgrows⟩ := hstays p page hp
  exact ⟨page', hp', hgrows.right hi hright⟩

theorem Stays.update {pages : Cache} {page : Arr UInt8} (h : ∀ old, pages p = some old → Grows t p old page) :
    Stays t pages (Function.update pages p (some page)) := by
  intro q old hq
  by_cases hqp : q = p
  · subst hqp
    exact ⟨page, Function.update_self _ _ _, h old hq⟩
  · exact ⟨old, (Function.update_of_ne hqp _ _).trans hq, .refl t q old⟩

theorem size_base (haligned : Aligned cache) (p : Int) : ((cache p).getD blankPage).size = 65536 := by
  cases hp : cache p with
  | none => rfl
  | some page => exact (haligned p page hp).2

/-- One page of a chunk whose bytes were read. -/
theorem copyPage_spec {chunkStart chunkEnd : Int} {pages : Cache} {pageAddr : Int} (hpage : 65536 ∣ pageAddr)
    (haligned : Aligned cache) (hgrown : Grown t cache pages) {data : List UInt8}
    (hdata : data = (List.range (chunkEnd - chunkStart).toNat).map fun i : Nat => t.mem (chunkStart + i)) :
    let pages' := copyPage cache data chunkStart chunkEnd pages pageAddr
    Grown t cache pages' ∧ Stays t pages pages' ∧ ∀ i : Nat, i < 65536 → chunkStart ≤ pageAddr + i →
      pageAddr + i < chunkEnd → Shows t pages' pageAddr i := by
  have hP := pageSize_eq
  have hlength : data.length = (chunkEnd - chunkStart).toNat := by
    rw [hdata, List.length_map, List.length_range]
  obtain ⟨copyStart, hstart⟩ : ∃ copyStart, copyStart = max pageAddr chunkStart := ⟨_, rfl⟩
  obtain ⟨copyEnd, hend⟩ : ∃ copyEnd, copyEnd = min (pageAddr + pageSize) chunkEnd := ⟨_, rfl⟩
  simp only [copyPage, ← hstart, ← hend]
  split
  · rename_i hcopy
    obtain ⟨base, hbase⟩ : ∃ base, base = (pages pageAddr).getD
        (if copyEnd - copyStart = pageSize ∧ (copyStart - pageAddr).toNat = 0 then blankPage
          else (cache pageAddr).getD blankPage) := ⟨_, rfl⟩
    rw [← hbase]
    obtain ⟨hgrows, hright⟩ := grows_arraycopy (t := t) (p := pageAddr) base data
      (copyStart - chunkStart).toNat (copyStart - pageAddr).toNat (copyEnd - copyStart).toNat hcopy.2
        (fun i b hle _ hb => by
        rw [hdata] at hb
        rw [getElem?_read hb]
        exact congrArg t.mem (by omega))
    refine ⟨hgrown.update hpage ?_, .update fun old hold => ?_, fun i hi hlo hhi =>
      ⟨_, Function.update_self _ _ _, hright i (by omega) (by omega)⟩⟩
    · cases hold : pages pageAddr with
      | some old =>
        rw [hold, Option.getD_some] at hbase
        subst hbase
        exact (hgrown pageAddr base hold).2.trans hgrows
      | none =>
        rw [hold, Option.getD_none] at hbase
        by_cases hfull : copyEnd - copyStart = pageSize ∧ (copyStart - pageAddr).toNat = 0
        · -- A full page keeps nothing of the one that was cached.
          rw [if_pos hfull] at hbase
          refine ⟨?_, fun i hi => .inr (hright i (by omega) (by omega))⟩
          rw [hgrows.size, hbase, size_base haligned]
          rfl
        · rw [if_neg hfull] at hbase
          subst hbase
          exact hgrows
    · rw [hold, Option.getD_some] at hbase
      subst hbase
      exact hgrows
  · refine ⟨hgrown, .refl t pages, fun i hi hlo hhi => ?_⟩
    omega

/-- The pages of a chunk whose bytes were read. -/
theorem foldl_copyPage_spec {chunkStart chunkEnd : Int} {addrs : List Int} (haddrs : ∀ p ∈ addrs, 65536 ∣ p)
    (haligned : Aligned cache) {data : List UInt8}
    (hdata : data = (List.range (chunkEnd - chunkStart).toNat).map fun i : Nat => t.mem (chunkStart + i)) :
    ∀ {pages : Cache}, Grown t cache pages →
      Grown t cache (addrs.foldl (copyPage cache data chunkStart chunkEnd) pages) ∧
        Stays t pages (addrs.foldl (copyPage cache data chunkStart chunkEnd) pages) ∧
          ∀ p ∈ addrs, ∀ i : Nat, i < 65536 → chunkStart ≤ p + i → p + i < chunkEnd →
            Shows t (addrs.foldl (copyPage cache data chunkStart chunkEnd) pages) p i := by
  induction addrs with
  | nil => exact fun {pages} hgrown => ⟨hgrown, .refl t pages, nofun⟩
  | cons addr addrs ih =>
    intro pages hgrown
    obtain ⟨hgrown', hstays, hshows⟩ := copyPage_spec (haddrs addr List.mem_cons_self) haligned hgrown hdata
    obtain ⟨hgrown'', hstays', hshows'⟩ := ih (fun p hp => haddrs p (List.mem_cons_of_mem _ hp)) hgrown'
    refine ⟨hgrown'', hstays.trans hstays', fun p hp i hi hlo hhi => ?_⟩
    rcases List.mem_cons.mp hp with rfl | hp
    · exact (hshows i hi hlo hhi).stays hi hstays'
    · exact hshows' p hp i hi hlo hhi

/-- What `loadChunkAt` stores of a chunk of a remote map. -/
theorem loadChunkAt_spec {map : MemoryRange} (hmap : map ∈ t.maps) (hremote : map.localData = none) {chunkStart : Int}
    (hstart : map.start ≤ chunkStart) (hin : chunkStart < map.stop) (hfits : chunkStart + chunkSize < 2 ^ 63)
    (haligned : Aligned cache) :
    Grown t cache (loadChunkAt t cache map chunkStart).1 ∧
      ((loadChunkAt t cache map chunkStart).2 = true → ∀ p, ∀ i : Nat, i < 65536 → pageOf chunkStart ≤ p → 65536 ∣ p →
        chunkStart ≤ p + i → p + i < chunkStart + chunkSize → p + i < map.stop →
          Shows t (loadChunkAt t cache map chunkStart).1 p i) := by
  have hsize : chunkSize = 1048576 := rfl
  have hlow := (t.longs map hmap).1
  obtain ⟨chunkEnd, hend⟩ : ∃ chunkEnd, chunkEnd = min (chunkStart + chunkSize) map.stop := ⟨_, rfl⟩
  rw [loadChunkAt, long_eq_self (by omega) hfits]
  simp only [← hend]
  rw [long_eq_self (n := chunkEnd - chunkStart) (by omega) (by omega), int_eq_self (by omega) (by omega)]
  split
  · exact ⟨grown_noPages, nofun⟩
  · rw [read_remote hmap hremote chunkStart _ hstart (by omega)]
    simp only []
    split
    · have haddrs : ∀ q ∈ pagesBefore (pageOf chunkStart) chunkEnd, 65536 ∣ q := by
        intro q hq
        obtain ⟨i, rfl, -⟩ := mem_pagesBefore.mp hq
        exact Int.dvd_add (pageOf_dvd _) (Int.dvd_mul_left _ _)
      obtain ⟨hgrown, -, hshows⟩ := foldl_copyPage_spec (t := t) haddrs haligned rfl grown_noPages
      refine ⟨hgrown, fun _ p i hi hle hp hlo hhi hstop => hshows p ?_ i hi hlo (by omega)⟩
      have := pageOf_dvd chunkStart
      exact mem_pagesBefore.mpr ⟨((p - pageOf chunkStart) / 65536).toNat, by omega, by omega⟩
    · exact ⟨grown_noPages, nofun⟩

/-- What the preloader reads is the target's, from the start of the page on, and has the bytes of the map that the
page is to show. -/
theorem preloadData_spec {map : MemoryRange} (hmap : map ∈ t.maps) {pid : Option Nat}
    (hwhole : Whole t cache (.preload map pid)) (hcache : cache (pageOf map.start) = none) {data : List UInt8}
    (hdata : preloadData t map pid = some data) :
    (∀ (i : Nat) b, data[i]? = some b → b = t.mem (pageOf map.start + i)) ∧
      (data ≠ [] → ∀ i : Nat, i < 65536 → map.segment.Has (pageOf map.start + i) →
        (∀ localData, map.localData = some localData → pageOf map.start + i - map.start < localData.length) →
          i < data.length) := by
  have hP := pageSize_eq
  have hsize : map.size = map.stop - map.start := rfl
  obtain hbad | ⟨⟨hnonneg, hfits⟩, hwhole⟩ := hwhole
  · exact absurd hcache hbad
  rw [preloadData, long_eq_self (by omega) hfits, int_eq_self (by omega) (by omega)] at hdata
  cases hlocal : map.localData with
  | some localData =>
    obtain hstart | ⟨hremote, -⟩ := hwhole
    · simp only [hlocal] at hdata
      split at hdata
      · cases hdata
      · cases hdata
        refine ⟨fun i b hb => ?_, fun _ i hi hhas hknown => ?_⟩
        · rw [List.getElem?_take] at hb
          split at hb
          · rw [hstart]
            exact (t.local_mem map hmap localData hlocal i b hb).symm
          · cases hb
        · have := segment_has.mp hhas
          have := hknown localData rfl
          rw [List.length_take]
          omega
    · rw [hlocal] at hremote
      cases hremote
  | none =>
    simp only [hlocal] at hdata
    split at hdata
    · rename_i hpid
      have hmapped : (∀ a, pageOf map.start ≤ a → a < pageOf map.start + (min pageSize map.size).toNat → t.mapped a) ∧
          min (pageOf map.start + pageSize) map.stop ≤ pageOf map.start + min pageSize map.size := by
        obtain hstart | ⟨-, hnone | hnone | ⟨hcovers, hmapped⟩⟩ := hwhole
        · refine ⟨fun a hle hlt => t.remote_mapped map hmap hlocal a (segment_has.mpr ⟨?_, ?_⟩), ?_⟩ <;> omega
        · rw [hnone] at hpid
          cases hpid
        · rw [hnone] at hdata
          cases hdata
        · exact ⟨fun a hle hlt => hmapped a hle (by omega), hcovers⟩
      rw [t.read_mapped hmapped.1] at hdata
      cases hdata
      refine ⟨fun i b hb => getElem?_read hb, fun _ i hi hhas _ => ?_⟩
      have := segment_has.mp hhas
      rw [List.length_map, List.length_range]
      omega
    · cases hdata
      exact ⟨nofun, fun hne => absurd rfl hne⟩

/-- What the preloader stores. -/
theorem preload_spec {map : MemoryRange} (hmap : map ∈ t.maps) {pid : Option Nat}
    (hwhole : Whole t cache (.preload map pid)) :
    Grown t cache (preloadRegionInBackground t cache map pid).1 ∧
      ((preloadRegionInBackground t cache map pid).2 = true → ∀ i : Nat, i < 65536 →
        map.segment.Has (pageOf map.start + i) →
          (∀ localData, map.localData = some localData → pageOf map.start + i - map.start < localData.length) →
            Shows t (preloadRegionInBackground t cache map pid).1 (pageOf map.start) i) := by
  rw [preloadRegionInBackground]
  split
  · exact ⟨grown_noPages, nofun⟩
  · rename_i hcache
    have hcache' := Option.not_isSome_iff_eq_none.mp hcache
    split
    · rename_i data hdata
      obtain ⟨hmem, hlong⟩ := preloadData_spec hmap hwhole hcache' hdata
      split
      · rename_i hfits
        obtain ⟨hgrows, hright⟩ := grows_arraycopy (t := t) (p := pageOf map.start) blankPage data 0 0 data.length
          (by omega) fun i b _ _ hb => hmem i b (by simpa using hb)
        refine ⟨grown_noPages.update (pageOf_dvd _) (by rw [hcache']; exact hgrows), fun _ i hi hhas hknown =>
          ⟨_, Function.update_self _ _ _, hright i (Nat.zero_le i) ?_⟩⟩
        have := hlong hfits.1 i hi hhas hknown
        omega
      · exact ⟨grown_noPages, nofun⟩
    · exact ⟨grown_noPages, nofun⟩

/-- What any load stores. -/
theorem loaded_spec {load : Load} (hover : load.Over t.maps) (hwhole : Whole t cache load) (haligned : Aligned cache) :
    Grown t cache (loaded t cache load).1 ∧
      ((loaded t cache load).2 = true → ∀ a, load.For a → ∀ i : Nat, a = pageOf a + i → i < 65536 →
        Shows t (loaded t cache load).1 (pageOf a) i) := by
  cases load with
  | page rowAddr pid targets pruned =>
    obtain ⟨htargets, hrow⟩ := hover
    have hpage := pageOf_bounds hrow.1 hrow.2
    obtain ⟨hgrown, hshows⟩ := loadPage_spec cache htargets pid (pageOf_dvd rowAddr) hpage.1 hpage.2
    refine ⟨hgrown, fun hsuccess a hfor i ha hi => ?_⟩
    obtain ⟨hpage, map, hmap, hremote, hhas⟩ := hfor
    obtain ⟨page, hp, hright⟩ := hshows hsuccess
    rw [hpage] at ha ⊢
    exact ⟨page, hp, hright map hmap hremote i hi (ha ▸ hhas)⟩
  | chunk map index pruned =>
    have hstart : map.start ≤ chunkStartOf map index := by
      rw [chunkStartOf, chunkSize]
      omega
    obtain ⟨hgrown, hshows⟩ := loadChunkAt_spec hover.1 hover.2.1 hstart hover.2.2 hwhole haligned
    refine ⟨hgrown, fun hsuccess a hfor i ha hi => ?_⟩
    obtain ⟨hhas, hlo, hhi⟩ := hfor
    have := segment_has.mp hhas
    exact hshows hsuccess (pageOf a) i hi (pageOf_mono hlo) (pageOf_dvd a) (by omega) (by omega) (by omega)
  | preload map pid =>
    obtain ⟨hgrown, hshows⟩ := preload_spec hover hwhole
    refine ⟨hgrown, fun hsuccess a hfor i ha hi => ?_⟩
    obtain ⟨hpage, hhas, hknown⟩ := hfor
    rw [hpage] at ha ⊢
    exact hshows hsuccess i hi (ha ▸ hhas) (ha ▸ hknown)

end Loaders

/-! ## Sessions keep the cache faithful -/

section Sessions

variable {t : Target} {cache : Cache}

/-- A byte that is cached lies at its offset in its page. -/
theorem cachedByte_eq_some {a : Int} {b : UInt8} : cachedByte cache a = some b ↔
    ∃ page, cache (pageOf a) = some page ∧ ∃ i : Nat, a = pageOf a + i ∧ i < page.size ∧ page.get i = b := by
  rw [cachedByte]
  cases hp : cache (pageOf a) with
  | none => exact iff_of_false nofun fun ⟨_, hpage, _⟩ => nomatch hpage
  | some page =>
    simp only [Option.some.injEq, exists_eq_left']
    split
    · rename_i hin
      rw [Option.some.injEq]
      refine ⟨fun hb => ⟨(a - pageOf a).toNat, by omega, by omega, hb⟩, ?_⟩
      rintro ⟨i, ha, -, rfl⟩
      exact congrArg page.get (by omega)
    · refine iff_of_false nofun ?_
      rintro ⟨i, ha, hi, -⟩
      omega

/-- A page after a load is one that the load stored, or one that was there. -/
theorem step_eq_some {load : Load} {p : Int} {page : Arr UInt8} (h : step t cache load p = some page) :
    (loaded t cache load).1 p = some page ∨ (loaded t cache load).1 p = none ∧ cache p = some page := by
  rw [step, pruneCacheIfNeeded] at h
  split at h
  · cases h
  · exact Option.or_eq_some_iff.mp h

/-- **One load.** -/
theorem good_step {load : Load} (hover : load.Over t.maps) (hwhole : Whole t cache load) (haligned : Aligned cache) :
    Good t cache load := by
  obtain ⟨hgrown, hshows⟩ := loaded_spec hover hwhole haligned
  have haligned' : Aligned (step t cache load) := by
    intro p page hp
    rcases step_eq_some hp with hnew | ⟨-, hold⟩
    · obtain ⟨hdvd, hgrows⟩ := hgrown p page hnew
      exact ⟨hdvd, hgrows.size.trans (size_base haligned p)⟩
    · exact haligned p page hold
  refine ⟨haligned', fun hsuccess a hfor b hb => ?_, fun a hright b hb => ?_⟩
  · obtain ⟨page, hp, i, ha, hi, rfl⟩ := cachedByte_eq_some.mp hb
    rw [(haligned' _ page hp).2] at hi
    obtain ⟨page', hp', hmem⟩ := hshows hsuccess a hfor i ha hi
    rcases step_eq_some hp with hnew | ⟨hnone, -⟩
    · obtain rfl := Option.some.inj (hnew.symm.trans hp')
      rw [hmem, ← ha]
    · rw [hnone] at hp'
      cases hp'
  · obtain ⟨old, hold, j, haj, -, hmem⟩ := cachedByte_eq_some.mp hright
    obtain ⟨page, hp, i, ha, hi, rfl⟩ := cachedByte_eq_some.mp hb
    obtain rfl : j = i := by omega
    rw [(haligned' _ page hp).2] at hi
    rcases step_eq_some hp with hnew | ⟨-, hsame⟩
    · have hgrows := (hgrown _ page hnew).2
      rw [hold, Option.getD_some] at hgrows
      rw [hgrows.right hi (by rw [hmem, ← ha]), ← ha]
    · obtain rfl := Option.some.inj (hsame.symm.trans hold)
      exact hmem

/-- **Sessions.** Loads over the maps of a target, in any order, keep the cache faithful when each preload that
stores a page is of a map that begins with the page, or reads what the page is to show. -/
theorem loads_are_faithful (t : Target) (loads : List Load) (hover : ∀ load ∈ loads, load.Over t.maps)
    (hwhole : Along (step t) (Whole t) noPages loads) : Along (step t) (Good t) noPages loads := by
  refine Along.of_invariant Aligned (fun cache load haligned hok => ?_) loads nofun
    (Along.and_forall loads hover hwhole)
  have hgood := good_step hok.1 hok.2 haligned
  exact ⟨hgood.aligned, hgood⟩

end Sessions

/-- A process whose memory is all mapped, with some remote maps. -/
def Target.ofMem (maps : List MemoryRange) (longs : ∀ map ∈ maps, -2 ^ 63 ≤ map.start ∧ map.stop < 2 ^ 63)
    (hremote : ∀ map ∈ maps, map.localData = none) (mem : Int → UInt8) : Target where
  maps
  longs
  mem
  mapped := fun _ => True
  readMemory := fun start len => some ((List.range len).map fun i : Nat => mem (start + i))
  read_mapped := fun _ => rfl
  remote_mapped := fun _ _ _ _ _ => trivial
  local_mem := fun map hmap _ hdata => nomatch (hremote map hmap).symm.trans hdata

def code : MemoryRange where
  name := "code"
  start := 0x10000
  stop := 0x11000
  protections := 5

def data : MemoryRange where
  name := "data"
  start := 0x11000
  stop := 0x12000
  protections := 3

/-- A process with two maps on one page. -/
def twoMaps : Target :=
  .ofMem [code, data] (by decide) (by simp [code, data]) fun a => if a < 0x11000 then 1 else 2

theorem aligned_map_preloaded : Along (step twoMaps) (Good twoMaps) noPages
    [.preload code (some 1), .page 0x11000 (some 1) [code, data] fun _ => false, .chunk data 0 fun _ => false] :=
  loads_are_faithful twoMaps _ (by simp [Load.Over, twoMaps, Target.ofMem, code, data, chunkStartOf])
    ⟨.inr ⟨by decide, .inl rfl⟩, trivial, show chunkStartOf data 0 + chunkSize < 2 ^ 63 by decide, trivial⟩

/-- The page of a map that begins behind the start of the page is filled with the bytes before the map, and then
zeros. -/
theorem unaligned_map_preloaded : ¬ ∀ (t : Target) (loads : List Load), MemoryRange.Disjoint t.maps →
    (∀ load ∈ loads, load.Over t.maps) → Along (step t) (Good t) noPages loads := by
  intro hall
  obtain ⟨hgood, -⟩ := hall twoMaps [.preload data (some 1)]
    ⟨by simp [twoMaps, Target.ofMem, code, data],
      by simp [twoMaps, Target.ofMem, code, data, MemoryRange.segment, Segment.Apart]⟩
    (by simp [Load.Over, twoMaps, Target.ofMem])
  obtain ⟨bytes, hbytes⟩ : ∃ bytes, bytes = (List.range 4096).map fun i : Nat => twoMaps.mem (0x10000 + i) := ⟨_, rfl⟩
  have hlength : bytes.length = 4096 := by rw [hbytes, List.length_map, List.length_range]
  have hreadLen : (int (min pageSize (long data.size))).toNat = 4096 := by decide
  have hread : preloadData twoMaps data (some 1) = some bytes := by
    have hremote : preloadData twoMaps data (some 1) =
        twoMaps.readMemory 0x10000 (int (min pageSize (long data.size))).toNat := rfl
    rw [hremote, hreadLen, hbytes]
    exact twoMaps.read_mapped fun _ _ _ => trivial
  have hloaded : loaded twoMaps noPages (.preload data (some 1)) =
      (Function.update noPages 0x10000 (some (blankPage.arraycopy bytes 0 0 4096)), true) := by
    have hfits : bytes ≠ [] ∧ bytes.length ≤ pageSize.toNat := by
      rw [hlength]
      exact ⟨List.ne_nil_of_length_eq_add_one hlength, by decide⟩
    rw [loaded, preloadRegionInBackground, if_neg (by simp [noPages]), hread]
    simp only [hfits, hlength, ne_eq, not_false_eq_true]
    rfl
  have hcached : cachedByte (step twoMaps noPages (.preload data (some 1))) 0x11000 = some 0 := by
    refine cachedByte_eq_some.mpr ⟨blankPage.arraycopy bytes 0 0 4096, ?_, 4096, rfl, ?_, ?_⟩
    · rw [step, hloaded]
      rfl
    · rw [Arr.size_arraycopy]
      decide
    · exact Arr.get_arraycopy_outside (by omega)
  have hbyte := hgood.right (by rw [hloaded]) 0x11000 ⟨rfl, by decide, nofun⟩ 0 hcached
  exact absurd hbyte (by decide)

end HexCache

end Ps5Debugger

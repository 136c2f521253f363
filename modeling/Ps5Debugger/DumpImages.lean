import Ps5Debugger.DumpRegions

/-!
# Images of modules

A module that the dumper writes with headers of its own is an image when a reader finds each range where its
program header says. The offsets in the headers count from the address of the module, but the file only
grows: a range is where its header says when nothing that was written before goes further than its offset.
-/

namespace Ps5Debugger

open Lib ScannerView

namespace MemoryDumper

/-! ## Reading an image -/

/-- A word of a file. -/
def wordIn (n off : Nat) (file : List Byte) : Option Nat :=
  if off + n ≤ file.length then some (leNat n (file.drop off)) else none

/-- The fields of a program header that say what is where; no offset in a file reaches `2 ^ 63`. -/
structure ProgramHeader where
  offset : Int
  vaddr : Int
  filesz : Nat

/-- `e_phnum` -/
def ePhnum (file : List Byte) : Option Nat := wordIn 2 56 file

/-- A program header, found by `e_phoff` and `e_phentsize`. -/
def programHeader (file : List Byte) (i : Nat) : Option ProgramHeader := do
  let phoff ← wordIn 8 32 file
  let phentsize ← wordIn 2 54 file
  let header := file.drop (phoff + i * phentsize)
  let offset ← wordIn 8 8 header
  let vaddr ← wordIn 8 16 header
  let filesz ← wordIn 8 32 header
  return { offset := wrap64 offset, vaddr := wrap64 vaddr, filesz := filesz }

/-- An image of memory with so many segments. -/
structure ValidImage (memory : Int → Byte) (segments : Nat) (file : List Byte) : Prop where
  phnum : ePhnum file = some segments
  segments : ∀ i < segments, ∃ ph, programHeader file i = some ph ∧
    ∀ j < ph.filesz, byteAt file (ph.offset + j) = some (memory (ph.vaddr + j))

section Words

variable {n off x : Nat} {file front back : List Byte}

theorem wordIn_append (h : front.length ≤ off) :
    wordIn n off (front ++ back) = wordIn n (off - front.length) back := by
  obtain ⟨k, rfl⟩ := Nat.exists_eq_add_of_le h
  have hiff : front.length + k + n ≤ (front ++ back).length ↔ k + n ≤ back.length := by
    rw [List.length_append, Nat.add_assoc, Nat.add_le_add_iff_left]
  rw [wordIn, wordIn, Nat.add_sub_cancel_left, List.drop_length_add_append]
  simp only [hiff]

theorem wordIn_leBytes (n x : Nat) (back : List Byte) : wordIn n 0 (leBytes n x ++ back) = some (x % 256 ^ n) := by
  have hlen : n ≤ (leBytes n x).length := (length_leBytes n x).ge
  have hle : 0 + n ≤ (leBytes n x ++ back).length := by
    rw [List.length_append]
    omega
  rw [wordIn, if_pos hle, List.drop_zero, leNat_append _ hlen, leNat_leBytes]

theorem wordIn_putLong (m : Int) (back : List Byte) :
    wordIn 8 0 (putLong m ++ back) = some (m % 2 ^ 64).toNat := by
  rw [putLong, wordIn_leBytes, Nat.mod_eq_of_lt (by omega)]

theorem words_header (base : Int) (segments : Nat) (rest : List Byte) :
    ePhnum (buildElf64Header base segments ++ rest) = some (segments % 2 ^ 16) ∧
      wordIn 8 32 (buildElf64Header base segments ++ rest) = some 64 ∧
      wordIn 2 54 (buildElf64Header base segments ++ rest) = some 56 := by
  refine ⟨?_, ?_, ?_⟩
  · simp [ePhnum, buildElf64Header, wordIn_append, wordIn_leBytes]
  · simp [buildElf64Header, wordIn_append, wordIn_putLong]
  · simp [buildElf64Header, wordIn_append, wordIn_leBytes]

theorem words_phdr (base : Int) (r : DumpRange) (rest : List Byte) :
    wordIn 8 8 (phdr base r ++ rest) = some (segFileOffset base r % 2 ^ 64).toNat ∧
      wordIn 8 16 (phdr base r ++ rest) = some (r.start % 2 ^ 64).toNat ∧
      wordIn 8 32 (phdr base r ++ rest) = some (segSize r % 2 ^ 64).toNat := by
  refine ⟨?_, ?_, ?_⟩ <;> simp [phdr, buildElf64Phdr, wordIn_append, wordIn_putLong]

/-- A word as it was put. -/
theorem wrap64_toNat_emod {m : Int} (hlo : -2 ^ 63 ≤ m) (hhi : m < 2 ^ 63) : wrap64 ((m % 2 ^ 64).toNat : Int) = m := by
  rw [Int.toNat_of_nonneg (Int.emod_nonneg m (by decide)), wrap64]
  exact (Int.emod_bmod m (2 ^ 64)).trans (wrap64_eq_self hlo hhi)

end Words

/-! ## The headers of an image -/

section Headers

variable {memory : Int → Byte} {base : Int} {sorted : List DumpRange} {r : DumpRange} {i : Nat}

/-- The values of a `Long`. -/
def IsLong (n : Int) : Prop := -2 ^ 63 ≤ n ∧ n < 2 ^ 63

/-- The header and the program headers. -/
def headers (base : Int) (sorted : List DumpRange) : List Byte :=
  buildElf64Header base sorted.length ++ sorted.flatMap (phdr base)

theorem length_headers (base : Int) (sorted : List DumpRange) :
    (headers base sorted).length = 64 + 56 * sorted.length := by
  rw [headers, List.length_append, length_buildElf64Header, length_records fun r _ => length_phdr base r, Nat.mul_comm]

/-- `p_filesz` of a range. -/
def filesz (r : DumpRange) : Nat := (segSize r % 2 ^ 64).toNat

/-- The program header of a range is found. -/
theorem programHeader_headers (base : Int) (hr : sorted[i]? = some r) (hlong : IsLong r.start) (rest : List Byte) :
    programHeader (headers base sorted ++ rest) i =
      some { offset := segFileOffset base r, vaddr := r.start, filesz := filesz r } := by
  obtain ⟨hi, rfl⟩ := List.getElem?_eq_some_iff.mp hr
  obtain ⟨-, hphoff, hphentsize⟩ := words_header base sorted.length (sorted.flatMap (phdr base) ++ rest)
  have hphdrs : (sorted.flatMap (phdr base)).length = sorted.length * 56 := length_records fun r _ => length_phdr base r
  have hdrop : (headers base sorted ++ rest).drop (64 + i * 56) =
      phdr base sorted[i] ++ ((sorted.drop (i + 1)).flatMap (phdr base) ++ rest) := by
    rw [headers, List.append_assoc, ← List.drop_drop, List.drop_left' (length_buildElf64Header base _),
      List.drop_append_of_le_length (by rw [hphdrs]; exact Nat.mul_le_mul_right 56 hi.le),
      drop_records fun r _ => length_phdr base r, List.drop_eq_getElem_cons hi, List.flatMap_cons, List.append_assoc]
  obtain ⟨hoffset, hvaddr, hfilesz⟩ := words_phdr base sorted[i] ((sorted.drop (i + 1)).flatMap (phdr base) ++ rest)
  obtain ⟨hlo, hhi⟩ := segFileOffset_bounds base sorted[i]
  rw [programHeader, headers, List.append_assoc, hphoff, hphentsize, ← List.append_assoc, ← headers]
  simp only [Option.bind_eq_bind, Option.bind_some, hdrop, hoffset, hvaddr, hfilesz, Option.pure_def]
  rw [wrap64_toNat_emod hlo hhi, wrap64_toNat_emod hlong.1 hlong.2, filesz]

/-- A file with headers is an image when their number fits and the ranges are where they say. -/
theorem validImage_iff (hlong : ∀ r ∈ sorted, IsLong r.start) {file rest : List Byte}
    (hfile : file = headers base sorted ++ rest) : ValidImage memory sorted.length file ↔ sorted.length < 2 ^ 16 ∧
      ∀ r ∈ sorted, ∀ j < filesz r, byteAt file (segFileOffset base r + j) = some (memory (r.start + j)) := by
  have hphnum : ePhnum file = some (sorted.length % 2 ^ 16) := by
    rw [hfile, headers, List.append_assoc]
    exact (words_header base sorted.length _).1
  constructor
  · rintro ⟨hcount, hsegments⟩
    rw [hphnum] at hcount
    have heq := Option.some.inj hcount
    refine ⟨by omega, fun r hr j hj => ?_⟩
    obtain ⟨i, hi, rfl⟩ := List.mem_iff_getElem.mp hr
    obtain ⟨ph, hph, hbytes⟩ := hsegments i hi
    rw [hfile, programHeader_headers base (List.getElem?_eq_getElem hi) (hlong _ hr)] at hph
    obtain rfl := Option.some.inj hph
    exact hbytes j hj
  · rintro ⟨hcount, hsegments⟩
    refine ⟨hphnum.trans (congrArg some (Nat.mod_eq_of_lt hcount)), fun i hi => ?_⟩
    have hr := List.getElem_mem hi
    have hph := programHeader_headers base (List.getElem?_eq_getElem hi) (hlong _ hr) rest
    exact ⟨_, hfile ▸ hph, hsegments sorted[i] hr⟩

end Headers

/-! ## The bytes of an image -/

section Images

variable {memory : Int → Byte} {e : DumpRegionEntry} {r : DumpRange} {sorted : List DumpRange} {a : Int} {q : Nat}

/-- The ranges of an entry as they are written. -/
def DumpRegionEntry.sortedRanges (e : DumpRegionEntry) : List DumpRange := sortedByStart e.subRanges

/-- The zeros behind the headers. -/
def padding (segments : Nat) : Nat := (headerPageSize - wrap64 (64 + 56 * segments : Nat)).toNat

/-- All that is written in front of the ranges. -/
def headerBytes (base : Int) (sorted : List DumpRange) : List Byte :=
  headers base sorted ++ List.replicate (padding sorted.length) 0

theorem length_headerBytes (base : Int) (h : sorted.length < 2 ^ 16) :
    (headerBytes base sorted).length = max 0x4000 (64 + 56 * sorted.length) := by
  rw [headerBytes, List.length_append, length_headers, List.length_replicate, padding, headerPageSize,
    wrap64_eq_self (by omega) (by omega)]
  omega

/-- The file of a module that gets headers. -/
def image (memory : Int → Byte) (e : DumpRegionEntry) : List Byte :=
  e.sortedRanges.foldl (addSegment memory e.start) (headerBytes e.start e.sortedRanges)

theorem foldl_write (base : Int) (sorted : List DumpRange) (bytes : List Byte) :
    sorted.foldl (fun fos segment => fos.write (phdr base segment)) (FileOutput.of bytes) =
      .of (bytes ++ sorted.flatMap (phdr base)) := by
  induction sorted generalizing bytes with
  | nil => rw [List.foldl_nil, List.flatMap_nil, List.append_nil]
  | cons r sorted ih => rw [List.foldl_cons, write_of, ih, List.flatMap_cons, List.append_assoc]

theorem writeHeaders_of (base : Int) (sorted : List DumpRange) :
    writeHeaders base sorted (.of []) = .of (headerBytes base sorted) := by
  rw [writeHeaders, write_of, List.nil_append, foldl_write, ← headers, currentFileOffset_of, writeZeros_of,
    length_headers]
  rfl

theorem dumpEntry_eq (hnamed : isUnnamedEntry e.name = false)
    (hmagic : memoryHasElfHeader memory e.sortedRanges = false)
    (hspan : ∀ r ∈ e.sortedRanges, r.stop - r.start < 2 ^ 63) : dumpEntry memory e = some (image memory e) := by
  have hnew : ({ bytes := [], currentFileOffset := 0 } : FileOutput) = .of [] := by
    rw [FileOutput.of, List.length_nil, Nat.cast_zero, wrap64_eq_self (by decide) (by decide)]
  have hsynthesize : (!isUnnamedEntry e.name && !memoryHasElfHeader memory e.sortedRanges) = true := by
    rw [hnamed, hmagic]
    rfl
  rw [DumpRegionEntry.sortedRanges] at hsynthesize
  rw [dumpEntry]
  simp only [hsynthesize, if_true]
  rw [hnew, writeHeaders_of]
  rw [DumpRegionEntry.sortedRanges] at hspan
  rw [foldlM_dumpSegment hnamed hspan]
  rfl

theorem dumpEntry_eq_none (hr : r ∈ e.sortedRanges) (h : 2 ^ 63 ≤ r.stop - r.start) (hlt : r.stop - r.start < 2 ^ 64) :
    dumpEntry memory e = none := by
  have hmem : r ∈ sortedByStart e.subRanges := hr
  rw [dumpEntry, foldlM_dumpSegment_eq_none hmem h hlt]
  rfl

/-! ### Where its bytes come from -/

def segmentOrigins (r : DumpRange) : List (Origin Int Byte) :=
  (List.range (r.stop - r.start).toNat).map fun (i : Nat) => .copied (r.start + i)

theorem map_segmentOrigins (memory : Int → Byte) (r : DumpRange) :
    (segmentOrigins r).map (Origin.read memory) = segmentBytes memory r := by
  rw [segmentOrigins, List.map_map]
  rfl

theorem length_segmentOrigins (r : DumpRange) : (segmentOrigins r).length = (r.stop - r.start).toNat := by
  rw [segmentOrigins, List.length_map, List.length_range]

theorem getElem?_segmentOrigins {m : Nat} :
    (segmentOrigins r)[m]? = some (.copied a) ↔ m < (r.stop - r.start).toNat ∧ a = r.start + m := by
  rw [segmentOrigins, List.getElem?_map]
  constructor
  · intro h
    obtain ⟨i, hi, hcopied⟩ := Option.map_eq_some_iff.mp h
    obtain ⟨hlt, rfl⟩ := List.getElem?_eq_some_iff.mp hi
    rw [List.length_range] at hlt
    rw [List.getElem_range] at hcopied
    exact ⟨hlt, (Origin.copied.inj hcopied).symm⟩
  · rintro ⟨hlt, rfl⟩
    rw [List.getElem?_range hlt]
    rfl

/-- The origins of the bytes of an image, which the memory does not change. -/
def origins (e : DumpRegionEntry) : List (Origin Int Byte) :=
  e.sortedRanges.foldl (appendBlock (gapTo e.start) segmentOrigins (.fixed 0))
    ((headerBytes e.start e.sortedRanges).map .fixed)

theorem image_eq (memory : Int → Byte) (e : DumpRegionEntry) :
    image memory e = (origins e).map (Origin.read memory) := by
  rw [origins, map_foldl_appendBlock, List.map_map]
  simp only [map_segmentOrigins]
  exact (congrArg (e.sortedRanges.foldl (addSegment memory e.start)) (List.map_id _).symm)

/-- Where the ranges stand in the file. -/
def standing (e : DumpRegionEntry) : List (Nat × DumpRange) :=
  placements (gapTo e.start) segmentOrigins (headerBytes e.start e.sortedRanges).length e.sortedRanges

/-- The bytes of an image that are copied come from the ranges where they stand. -/
theorem getElem?_origins : (origins e)[q]? = some (.copied a) ↔
    ∃ p ∈ standing e, ∃ m, q = p.1 + m ∧ m < (p.2.stop - p.2.start).toNat ∧ a = p.2.start + m := by
  have hfixed : ((headerBytes e.start e.sortedRanges).map (Origin.fixed (α := Int)))[q]? ≠ some (.copied a) := by
    rw [List.getElem?_map]
    intro h
    obtain ⟨b, -, hb⟩ := Option.map_eq_some_iff.mp h
    cases hb
  have hcopied : Origin.copied a ≠ Origin.fixed (0 : Byte) := fun h => by cases h
  rw [origins, getElem?_foldl_appendBlock hcopied, or_iff_right hfixed, List.length_map]
  simp only [getElem?_segmentOrigins]
  rfl

/-! ## When a file is an image -/

/-- The bytes of ranges. -/
def totalSizeOf (ranges : List DumpRange) : Nat := (ranges.map fun r => (r.stop - r.start).toNat).sum

/-- What is written before a range, the headers and the ranges before it, does not go further than its offset. -/
structure HasRoom (e : DumpRegionEntry) (before : List DumpRange) (r : DumpRange) : Prop where
  headers : max 0x4000 (64 + 56 * e.sortedRanges.length) + totalSizeOf before ≤ segFileOffset e.start r
  ranges : ∀ r' l, (r' :: l) <:+ before → segFileOffset e.start r' + totalSizeOf (r' :: l) ≤ segFileOffset e.start r

/-- The ranges of an entry of which the file is an image. -/
structure Whole (e : DumpRegionEntry) : Prop where
  count : e.sortedRanges.length < 2 ^ 16
  spans : ∀ r ∈ e.sortedRanges, r.start ≤ r.stop ∧ r.stop - r.start < 2 ^ 63
  offsets : ∀ r ∈ e.sortedRanges, r.start < r.stop → 0 ≤ segFileOffset e.start r
  covered : ∀ r ∈ e.sortedRanges, ∀ a, r.start ≤ a → a < r.stop → ∃ before r' after,
    e.sortedRanges = before ++ r' :: after ∧ HasRoom e before r' ∧ r'.start ≤ a ∧ a < r'.stop

/-- The numbers of an entry are `Long`s. -/
structure Longs (e : DumpRegionEntry) : Prop where
  start : IsLong e.start
  ranges : ∀ r ∈ e.sortedRanges, IsLong r.start ∧ IsLong r.stop

/-- A range stands at its offset exactly when it has room. -/
theorem standing_iff_hasRoom (hcount : e.sortedRanges.length < 2 ^ 16) (p : Nat × DumpRange) :
    p ∈ standing e ∧ (p.1 : Int) = segFileOffset e.start p.2 ↔
      (p.1 : Int) = segFileOffset e.start p.2 ∧ ∃ before after, e.sortedRanges = before ++ p.2 :: after ∧
        HasRoom e before p.2 := by
  have hbound : segFileOffset e.start p.2 < (2 ^ 63 : Nat) := (segFileOffset_bounds e.start p.2).2
  have hsize : ∀ l, totalLength segmentOrigins l = totalSizeOf l := fun l => by
    simp only [totalLength, totalSizeOf, length_segmentOrigins]
  rw [standing, mem_placements_iff, length_headerBytes _ hcount]
  constructor
  · rintro ⟨⟨before, after, hsorted, hp⟩, heq⟩
    refine ⟨heq, before, after, hsorted, ?_⟩
    rw [hp] at heq
    have hle := (at_target_iff (forward_gapTo e.start) hbound).mp heq
    obtain ⟨hheaders, hranges⟩ := (endPos_le_iff (forward_gapTo e.start) hbound).mp hle
    simp only [hsize] at hheaders hranges
    exact ⟨hheaders, hranges⟩
  · rintro ⟨heq, before, after, hsorted, hheaders, hranges⟩
    simp only [← hsize] at hheaders hranges
    have hle := (endPos_le_iff (forward_gapTo e.start) hbound).mpr ⟨hheaders, hranges⟩
    have htarget := (at_target_iff (forward_gapTo e.start) hbound).mpr hle
    exact ⟨⟨before, after, hsorted, Nat.cast_injective (heq.trans htarget.symm)⟩, heq⟩

theorem mem_sortedRanges_of_standing {p : Nat × DumpRange} (hp : p ∈ standing e) : p.2 ∈ e.sortedRanges := by
  have hmem := List.mem_map_of_mem (f := Prod.snd) hp
  rwa [standing, map_snd_placements] at hmem

/-- Every range stands somewhere, at its offset or behind it. -/
theorem exists_standing (hr : r ∈ e.sortedRanges) : ∃ pos, (pos, r) ∈ standing e ∧ segFileOffset e.start r ≤ pos := by
  have hmem : r ∈ (standing e).map Prod.snd := by
    rw [standing, map_snd_placements]
    exact hr
  obtain ⟨⟨pos, r'⟩, hp, rfl⟩ := List.mem_map.mp hmem
  obtain ⟨before, after, -, hpos⟩ := mem_placements_iff.mp hp
  refine ⟨pos, hp, ?_⟩
  change pos = _ at hpos
  rw [hpos]
  exact target_le (forward_gapTo e.start) (segFileOffset_bounds e.start r').2

theorem filesz_eq (hspan : r.stop - r.start < 2 ^ 63) (hle : r.start ≤ r.stop) :
    filesz r = (r.stop - r.start).toNat := by
  rw [filesz, segSize, wrap64_eq_self (by omega) hspan]
  omega

/-- The offsets of two ranges are as far apart as their addresses, but for what does not fit a `Long`. -/
theorem exists_segFileOffset_sub (base : Int) (r r' : DumpRange) : ∃ k,
    segFileOffset base r' - segFileOffset base r = r'.start - r.start + 2 ^ 64 * k := by
  have hoffset : ∀ s : DumpRange, ∃ k, segFileOffset base s = headerPageSize + (s.start - base) + 2 ^ 64 * k := by
    intro s
    obtain ⟨k, hk⟩ := exists_wrap64_eq (s.start - base)
    obtain ⟨k', hk'⟩ := exists_wrap64_eq (headerPageSize + wrap64 (s.start - base))
    refine ⟨k + k', ?_⟩
    rw [segFileOffset, hk', hk]
    ring
  obtain ⟨k, hk⟩ := hoffset r
  obtain ⟨k', hk'⟩ := hoffset r'
  refine ⟨k' - k, ?_⟩
  rw [hk, hk']
  ring

/-- Where a byte of a range is found under its offset, the range that it comes from stands at its own offset. -/
theorem at_offset_of_origin {p : Nat × DumpRange} {j m : Nat} (hr : r ∈ e.sortedRanges)
    (hj : j < (r.stop - r.start).toNat) (hnonneg : 0 ≤ segFileOffset e.start r) (hp : p ∈ standing e)
    (hpos : segFileOffset e.start r + j = p.1 + m) (ha : r.start + j = p.2.start + m) :
    (p.1 : Int) = segFileOffset e.start p.2 := by
  obtain ⟨pos, hstands, hle⟩ := exists_standing hr
  obtain ⟨k, hk⟩ := exists_segFileOffset_sub e.start r p.2
  obtain ⟨hlo, hhi⟩ := segFileOffset_bounds e.start p.2
  have hr63 := (segFileOffset_bounds e.start r).2
  have hsorted : e.sortedRanges.Pairwise fun r r' => r.start ≤ r'.start := pairwise_sortedByStart e.subRanges
  rcases placements_trichotomy hsorted hp hstands with rfl | ⟨-, hstart⟩ | ⟨hend, -⟩
  · -- it comes from the range itself
    dsimp only at hpos ha ⊢
    omega
  · -- from a range before it
    dsimp only at hstart
    omega
  · -- a range behind it stands too far back
    rw [length_segmentOrigins] at hend
    dsimp only at hend
    omega

/-- Every byte that a program header promises is the copy of its address. -/
def Found (e : DumpRegionEntry) : Prop :=
  ∀ r ∈ e.sortedRanges, ∀ j < filesz r, 0 ≤ segFileOffset e.start r + j ∧
    (origins e)[(segFileOffset e.start r + j).toNat]? = some (.copied (r.start + j))

/-- A range that ends before it starts promises the byte at the end of the address space, which is never read. -/
theorem Found.le (h : Found e) (hlongs : Longs e) (hr : r ∈ e.sortedRanges) : r.start ≤ r.stop := by
  by_contra hlt
  obtain ⟨⟨hlo, hhi⟩, hlo', hhi'⟩ := hlongs.ranges r hr
  obtain ⟨k, hk⟩ := exists_wrap64_eq (r.stop - r.start)
  have hlast : (2 ^ 63 - 1 - r.start).toNat < filesz r := by
    rw [filesz, segSize, hk]
    omega
  obtain ⟨p, hp, m, -, hm, ha⟩ := getElem?_origins.mp (h r hr _ hlast).2
  have hstop := (hlongs.ranges p.2 (mem_sortedRanges_of_standing hp)).2.2
  omega

theorem found_iff_whole (hlongs : Longs e) (hcount : e.sortedRanges.length < 2 ^ 16)
    (hspan : ∀ r ∈ e.sortedRanges, r.stop - r.start < 2 ^ 63) : Found e ↔ Whole e := by
  constructor
  · intro h
    have hle : ∀ r ∈ e.sortedRanges, r.start ≤ r.stop := fun r hr => h.le hlongs hr
    have hoffsets : ∀ r ∈ e.sortedRanges, r.start < r.stop → 0 ≤ segFileOffset e.start r := by
      intro r hr hlt
      have hzero := (h r hr 0 (by rw [filesz_eq (hspan r hr) hlt.le]; omega)).1
      rwa [Nat.cast_zero, Int.add_zero] at hzero
    refine ⟨hcount, fun r hr => ⟨hle r hr, hspan r hr⟩, hoffsets, fun r hr a hlo hhi => ?_⟩
    have hj : (a - r.start).toNat < filesz r := by
      rw [filesz_eq (hspan r hr) (hle r hr)]
      omega
    obtain ⟨hnonneg, horigin⟩ := h r hr _ hj
    obtain ⟨p, hp, m, hpos, hm, ha⟩ := getElem?_origins.mp horigin
    rw [filesz_eq (hspan r hr) (hle r hr)] at hj
    have heq := at_offset_of_origin hr hj (hoffsets r hr (by omega)) hp (by omega) ha
    obtain ⟨-, before, after, hsorted, hroom⟩ := (standing_iff_hasRoom hcount p).mp ⟨hp, heq⟩
    exact ⟨before, p.2, after, hsorted, hroom, by omega, by omega⟩
  · intro h r hr j hj
    obtain ⟨hle, -⟩ := h.spans r hr
    rw [filesz_eq (hspan r hr) hle] at hj
    have hnonneg := h.offsets r hr (by omega)
    obtain ⟨before, r', after, hsorted, hroom, hlo, hhi⟩ := h.covered r hr (r.start + j) (by omega) (by omega)
    have hr' : r' ∈ e.sortedRanges := hsorted ▸ List.mem_append_right _ List.mem_cons_self
    have hnonneg' : 0 ≤ segFileOffset e.start r' := h.offsets r' hr' (by omega)
    obtain ⟨hstands, -⟩ := (standing_iff_hasRoom hcount ((segFileOffset e.start r').toNat, r')).mpr
      ⟨Int.toNat_of_nonneg hnonneg', before, after, hsorted, hroom⟩
    -- the offsets of the two ranges fit, and so does their distance
    obtain ⟨k, hk⟩ := exists_segFileOffset_sub e.start r r'
    have hbounds := segFileOffset_bounds e.start r
    have hbounds' := segFileOffset_bounds e.start r'
    have hspan' := hspan r' hr'
    have hspan := hspan r hr
    refine ⟨by omega, getElem?_origins.mpr ⟨_, hstands, (r.start + j - r'.start).toNat, ?_, ?_, ?_⟩⟩
    · dsimp only
      omega
    · dsimp only
      omega
    · dsimp only
      omega

/-! ### Ranges that do not overlap -/

theorem segFileOffset_eq {base : Int} (hlo : base ≤ r.start) (hhi : r.start - base < 2 ^ 63 - 0x4000) :
    segFileOffset base r = 0x4000 + (r.start - base) := by
  have hdistance : wrap64 (r.start - base) = r.start - base := wrap64_eq_self (by omega) (by omega)
  rw [segFileOffset, headerPageSize, hdistance, wrap64_eq_self (by omega) (by omega)]

/-- Ranges that follow each other have room for their bytes up to the next one. -/
theorem totalSizeOf_le {l : List DumpRange} {lo : Int} (hlo : lo ≤ r.start) (hl : ∀ s ∈ l, lo ≤ s.start)
    (hspan : ∀ s ∈ l, s.start ≤ s.stop) (hapart : (l ++ [r]).Pairwise fun s s' => s.stop ≤ s'.start) :
    totalSizeOf l ≤ r.start - lo := by
  induction l generalizing lo with
  | nil =>
    rw [totalSizeOf, List.map_nil, List.sum_nil]
    omega
  | cons s l ih =>
    obtain ⟨hs, hrest⟩ := List.pairwise_cons.mp hapart
    have hle := hspan s List.mem_cons_self
    have hlo' := hl s List.mem_cons_self
    have hsum := ih (hs r (List.mem_append_right l (List.mem_singleton_self r)))
      (fun s' hs' => hs s' (List.mem_append_left _ hs')) (fun s' hs' => hspan s' (List.mem_cons_of_mem s hs')) hrest
    have hcons : totalSizeOf (s :: l) = (s.stop - s.start).toNat + totalSizeOf l := by
      rw [totalSizeOf, totalSizeOf, List.map_cons, List.sum_cons]
    omega

/-- Ranges that do not overlap make an image as long as their headers fit the page. -/
theorem whole_of_apart (hcount : 64 + 56 * e.sortedRanges.length ≤ 0x4000)
    (hspan : ∀ r ∈ e.sortedRanges, e.start ≤ r.start ∧ r.start ≤ r.stop ∧ r.stop - e.start < 2 ^ 63 - 0x4000)
    (hapart : e.sortedRanges.Pairwise fun r r' => r.stop ≤ r'.start) : Whole e := by
  have hoffset : ∀ r ∈ e.sortedRanges, segFileOffset e.start r = 0x4000 + (r.start - e.start) := by
    intro r hr
    obtain ⟨hlo, hle, hhi⟩ := hspan r hr
    exact segFileOffset_eq hlo (by omega)
  refine ⟨by omega, fun r hr => ?_, fun r hr _ => ?_, fun r hr a hlo hhi => ?_⟩
  · obtain ⟨hlo, hle, hhi⟩ := hspan r hr
    exact ⟨hle, by omega⟩
  · rw [hoffset r hr]
    obtain ⟨hlo, -, -⟩ := hspan r hr
    omega
  · -- the range is where its own header says
    obtain ⟨before, after, hsorted⟩ := List.append_of_mem hr
    have hmem : ∀ s ∈ before, s ∈ e.sortedRanges := fun s hs => hsorted ▸ List.mem_append_left _ hs
    have hbefore : (before ++ [r]).Pairwise fun s s' => s.stop ≤ s'.start := by
      refine hapart.sublist ?_
      rw [hsorted]
      exact List.Sublist.append_left (List.singleton_sublist.mpr List.mem_cons_self) before
    refine ⟨before, r, after, hsorted, ⟨?_, fun s l hl => ?_⟩, hlo, hhi⟩
    · have hsum := totalSizeOf_le (hspan r hr).1 (fun s hs => (hspan s (hmem s hs)).1)
        (fun s hs => (hspan s (hmem s hs)).2.1) hbefore
      rw [hoffset r hr, max_eq_left hcount]
      push_cast
      omega
    · have hs : s ∈ before := hl.subset List.mem_cons_self
      obtain ⟨front, hfront⟩ := hl
      rw [← hfront, List.append_assoc] at hbefore
      have htail := (List.pairwise_append.mp hbefore).2.1
      have hnext := (List.pairwise_cons.mp htail).1
      have hle : ∀ s' ∈ s :: l, s'.start ≤ s'.stop := fun s' hs' =>
        (hspan s' (hmem s' (hfront ▸ List.mem_append_right front hs'))).2.1
      have hself := hle s List.mem_cons_self
      have hstarts : ∀ s' ∈ s :: l, s.start ≤ s'.start := by
        intro s' hs'
        rcases List.mem_cons.mp hs' with rfl | hs'
        · exact le_refl _
        · exact hself.trans (hnext s' (List.mem_append_left _ hs'))
      have hlast := hself.trans (hnext r (List.mem_append_right l (List.mem_singleton_self r)))
      have hsum := totalSizeOf_le hlast hstarts hle htail
      rw [hoffset r hr, hoffset s (hmem s hs)]
      omega

/-- A module has at most 291 ranges when something is at its start. -/
theorem Whole.length_le (h : Whole e) (hr : r ∈ e.sortedRanges) (hstart : r.start = e.start) (hlt : r.start < r.stop)
    (hfirst : ∀ r' ∈ e.sortedRanges, e.start ≤ r'.start) : e.sortedRanges.length ≤ 291 := by
  obtain ⟨before, r', after, hsorted, hroom, hlo, -⟩ := h.covered r hr r.start (le_refl _) hlt
  have hle := hfirst r' (hsorted ▸ List.mem_append_right _ List.mem_cons_self)
  have hheaders := hroom.headers
  rw [segFileOffset_eq hle (by omega)] at hheaders
  push_cast at hheaders
  omega

end Images

end MemoryDumper

end Ps5Debugger

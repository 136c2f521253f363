import Ps5Debugger.DumpImages

/-!
# The files of a dump

A dump of modules that get headers is right when every file is an image and no two names share a file.
`dumps_valid_iff` says when it is, whatever the memory has: the ranges of each entry must be ones whose offsets
are reached in time, and different names must not become one, be it because other characters are replaced or
because an ending is added.
-/

namespace Ps5Debugger

open Lib ScannerView

namespace MemoryDumper

variable {memory : Int → Byte} {regions : List DumpRegionEntry} {e : DumpRegionEntry} {pid : Int}
  {outputDir : List Text} {files : List OutputFile} {P : (Int → Byte) → Prop} {q a : Int}

/-! ## One file -/

theorem byteAt_image : byteAt (image memory e) q =
    (if 0 ≤ q then (origins e)[q.toNat]? else none).map (Origin.read memory) := by
  rw [byteAt, image_eq]
  split
  · rw [List.getElem?_map]
  · rfl

theorem validImage_image_iff (hlong : ∀ r ∈ e.sortedRanges, IsLong r.start) :
    ValidImage memory e.sortedRanges.length (image memory e) ↔ e.sortedRanges.length < 2 ^ 16 ∧
      ∀ r ∈ e.sortedRanges, ∀ j < filesz r,
        byteAt (image memory e) (segFileOffset e.start r + j) = some (memory (r.start + j)) := by
  have hprefix : headerBytes e.start e.sortedRanges <+: image memory e := prefix_foldl_appendBlock _ _
  obtain ⟨rest, hrest⟩ := hprefix
  have hfile : image memory e =
      headers e.start e.sortedRanges ++ (List.replicate (padding e.sortedRanges.length) 0 ++ rest) := by
    rw [← hrest, headerBytes, List.append_assoc]
  exact validImage_iff hlong hfile

/-- No memory of zeros and ones has the ELF magic anywhere. -/
theorem memoryHasElfHeader_eq_false (h : ∀ a, memory a = 0 ∨ memory a = 1) (sorted : List DumpRange) :
    memoryHasElfHeader memory sorted = false := by
  cases sorted with
  | nil => rfl
  | cons first rest =>
    refine decide_eq_false fun heq => ?_
    have hfirst : memory (first.start + (0 : Nat)) = 0x7F := (List.cons.inj heq).1
    rcases h (first.start + (0 : Nat)) with hzero | hone
    · exact absurd (hzero.symm.trans hfirst) (by decide)
    · exact absurd (hone.symm.trans hfirst) (by decide)

section OneFile

variable (hP : ∀ memory : Int → Byte, (∀ a, memory a = 0 ∨ memory a = 1) → P memory)

include hP

/-- A byte is right for every memory when it is copied from its address. -/
theorem forall_byteAt_iff : (∀ memory, P memory → byteAt (image memory e) q = some (memory a)) ↔
    0 ≤ q ∧ (origins e)[q.toNat]? = some (.copied a) := by
  simp only [byteAt_image]
  rw [forall_read_iff (show (0 : Byte) ≠ 1 by decide) hP]
  by_cases hq : 0 ≤ q
  · rw [if_pos hq, and_iff_right hq]
  · rw [if_neg hq]
    exact iff_of_false nofun fun h => hq h.1

/-- The file of an entry is an image, whatever the memory has, exactly when its ranges are such. -/
theorem valid_iff_whole (hmagic : ∀ memory, P memory → memoryHasElfHeader memory e.sortedRanges = false)
    (hnamed : isUnnamedEntry e.name = false) (hlongs : Longs e) :
    (∀ memory, P memory → ∃ bytes, dumpEntry memory e = some bytes ∧
      ValidImage memory e.subRanges.length bytes) ↔ Whole e := by
  have hlen : e.subRanges.length = e.sortedRanges.length := (sortedByStart_perm e.subRanges).length_eq.symm
  have hlong : ∀ r ∈ e.sortedRanges, IsLong r.start := fun r hr => (hlongs.ranges r hr).1
  rw [hlen]
  -- the memory of zeros is one of them
  have hzero : P fun _ => 0 := hP _ fun _ => .inl rfl
  constructor
  · intro h
    have hspan : ∀ r ∈ e.sortedRanges, r.stop - r.start < 2 ^ 63 := by
      intro r hr
      by_contra hlt
      obtain ⟨⟨hlo, hhi⟩, hlo', hhi'⟩ := hlongs.ranges r hr
      obtain ⟨bytes, hbytes, -⟩ := h _ hzero
      rw [dumpEntry_eq_none hr (by omega) (by omega)] at hbytes
      cases hbytes
    have himage : ∀ memory, P memory → ValidImage memory e.sortedRanges.length (image memory e) := by
      intro memory hmemory
      obtain ⟨bytes, hbytes, hvalid⟩ := h memory hmemory
      rw [dumpEntry_eq hnamed (hmagic memory hmemory) hspan] at hbytes
      rwa [Option.some.inj hbytes]
    have hcount := ((validImage_image_iff hlong).mp (himage _ hzero)).1
    refine (found_iff_whole hlongs hcount hspan).mp fun r hr j hj => (forall_byteAt_iff hP).mp fun memory hmemory => ?_
    exact ((validImage_image_iff hlong).mp (himage memory hmemory)).2 r hr j hj
  · intro h memory hmemory
    have hspan : ∀ r ∈ e.sortedRanges, r.stop - r.start < 2 ^ 63 := fun r hr => (h.spans r hr).2
    have hfound := (found_iff_whole hlongs h.count hspan).mpr h
    refine ⟨image memory e, dumpEntry_eq hnamed (hmagic memory hmemory) hspan, ?_⟩
    exact (validImage_image_iff hlong).mpr ⟨h.count, fun r hr j hj =>
      (forall_byteAt_iff hP).mpr (hfound r hr j hj) memory hmemory⟩

end OneFile

/-! ## The names -/

/-- Two names that are written to one file. -/
def SameFile (outputDir : List Text) (a b : Text) : Prop :=
  if isModuleName a then
    if isModuleName b then resolve outputDir a = resolve outputDir b
    else resolve outputDir a = outputDir ++ [cleanedName b ++ ".prx".toList]
  else if isModuleName b then outputDir ++ [cleanedName a ++ ".prx".toList] = resolve outputDir b
  else cleanedName a = cleanedName b

instance {a b : Text} : Decidable (SameFile outputDir a b) := inferInstanceAs (Decidable (ite _ _ _))

/-- Nothing of a cleaned name means something in a path. -/
theorem slash_notMem_cleanedName (name : Text) : '/' ∉ cleanedName name ++ ".prx".toList := by
  intro h
  rcases List.mem_append.mp h with h | h
  · rw [cleanedName] at h
    split at h
    · exact absurd h (by decide)
    · obtain ⟨c, -, hc⟩ := List.mem_map.mp h
      split at hc
      · rename_i hplain
        rw [hc] at hplain
        exact absurd hplain (by decide)
      · exact absurd hc (by decide)
  · exact absurd h (by decide)

theorem resolve_cleanedName (outputDir : List Text) (name : Text) :
    resolve outputDir (cleanedName name ++ ".prx".toList) = outputDir ++ [cleanedName name ++ ".prx".toList] := by
  have hsplit : (['/'].intercalate [cleanedName name ++ ".prx".toList]).splitOn '/' =
      [cleanedName name ++ ".prx".toList] := List.splitOn_intercalate '/'
    (fun l hl => List.mem_singleton.mp hl ▸ slash_notMem_cleanedName name) (List.cons_ne_nil _ _)
  have hlength : ∀ t : Text, t.length < 4 → cleanedName name ++ ".prx".toList ≠ t := by
    rintro t ht rfl
    rw [List.length_append] at ht
    exact absurd ht (Nat.not_lt.mpr (Nat.le_add_left 4 _))
  rw [List.intercalate_singleton] at hsplit
  rw [resolve, hsplit, List.foldl_cons, List.foldl_nil, enter,
    if_neg (not_or.mpr ⟨hlength [] (by decide), hlength _ (by decide)⟩), if_neg (hlength _ (by decide))]

theorem resolve_fileName_eq_iff {e' : DumpRegionEntry} (hnamed : isUnnamedEntry e.name = false)
    (hnamed' : isUnnamedEntry e'.name = false) :
    resolve outputDir (fileName pid e) = resolve outputDir (fileName pid e') ↔ SameFile outputDir e.name e'.name := by
  have hname : ∀ e : DumpRegionEntry, isUnnamedEntry e.name = false → resolve outputDir (fileName pid e) =
      if isModuleName e.name then resolve outputDir e.name else outputDir ++ [cleanedName e.name ++ ".prx".toList] := by
    intro e hnamed
    rw [fileName, hnamed]
    simp only [Bool.false_eq_true, if_false]
    split
    · rfl
    · exact resolve_cleanedName outputDir e.name
  rw [hname e hnamed, hname e' hnamed', SameFile]
  split <;> split
  · exact Iff.rfl
  · exact Iff.rfl
  · exact Iff.rfl
  · rw [List.append_right_inj, List.singleton_inj, List.append_left_inj]

/-! ## All files -/

/-- Every file of a dump is an image, and each name has a file of its own. -/
structure ValidDump (memory : Int → Byte) (regions : List DumpRegionEntry) (files : List OutputFile) : Prop where
  images : List.Forall₂ (fun e file => ValidImage memory e.subRanges.length file.bytes) regions files
  apart : (regions.zip files).Pairwise fun x y => x.1.name ≠ y.1.name → x.2.path ≠ y.2.path

/-- The file of an entry that is dumped. -/
def outputFile (memory : Int → Byte) (pid : Int) (outputDir : List Text) (e : DumpRegionEntry) : OutputFile :=
  { path := resolve outputDir (fileName pid e), bytes := (dumpEntry memory e).getD [] }

theorem dumpRegions_eq_some_iff : dumpRegions memory pid outputDir regions = some files ↔
    (∀ e ∈ regions, (dumpEntry memory e).isSome) ∧ files = regions.map (outputFile memory pid outputDir) := by
  by_cases hall : ∀ e ∈ regions, (dumpEntry memory e).isSome
  · have hsome : dumpRegions memory pid outputDir regions = some (regions.map (outputFile memory pid outputDir)) := by
      refine mapM_eq_some fun e he => ?_
      obtain ⟨bytes, hbytes⟩ := Option.isSome_iff_exists.mp (hall e he)
      rw [hbytes, outputFile, hbytes]
      rfl
    rw [hsome, and_iff_right hall, Option.some_inj]
    exact eq_comm
  · refine iff_of_false ?_ fun h => hall h.1
    push Not at hall
    obtain ⟨e, he, hnone⟩ := hall
    rw [dumpRegions, mapM_eq_none he]
    · nofun
    · rw [Option.not_isSome_iff_eq_none.mp hnone]
      rfl

theorem exists_valid_iff : (∃ files, dumpRegions memory pid outputDir regions = some files ∧
      ValidDump memory regions files) ↔
    (∀ e ∈ regions, ∃ bytes, dumpEntry memory e = some bytes ∧ ValidImage memory e.subRanges.length bytes) ∧
      regions.Pairwise fun e e' => e.name ≠ e'.name →
        resolve outputDir (fileName pid e) ≠ resolve outputDir (fileName pid e') := by
  constructor
  · rintro ⟨files, hfiles, himages, hapart⟩
    obtain ⟨hall, rfl⟩ := dumpRegions_eq_some_iff.mp hfiles
    rw [← List.map_prod_left_eq_zip, List.pairwise_map] at hapart
    rw [List.forall₂_map_right_iff, List.forall₂_same] at himages
    refine ⟨fun e he => ?_, hapart⟩
    obtain ⟨bytes, hbytes⟩ := Option.isSome_iff_exists.mp (hall e he)
    have hvalid := himages e he
    rw [outputFile, hbytes] at hvalid
    exact ⟨bytes, hbytes, hvalid⟩
  · rintro ⟨himages, hapart⟩
    have hall : ∀ e ∈ regions, (dumpEntry memory e).isSome := fun e he =>
      Option.isSome_iff_exists.mpr ((himages e he).imp fun _ h => h.1)
    refine ⟨_, dumpRegions_eq_some_iff.mpr ⟨hall, rfl⟩, ?_, ?_⟩
    · rw [List.forall₂_map_right_iff, List.forall₂_same]
      intro e he
      obtain ⟨bytes, hbytes, hvalid⟩ := himages e he
      rwa [outputFile, hbytes]
    · rw [← List.map_prod_left_eq_zip, List.pairwise_map]
      exact hapart

/-- A dump of these entries is right, whatever the memory has, if no ELF header is where they start. -/
def AlwaysValid (pid : Int) (outputDir : List Text) (regions : List DumpRegionEntry) : Prop :=
  ∀ memory, (∀ e ∈ regions, memoryHasElfHeader memory e.sortedRanges = false) →
    ∃ files, dumpRegions memory pid outputDir regions = some files ∧ ValidDump memory regions files

theorem dumps_valid_iff (pid : Int) (outputDir : List Text) (regions : List DumpRegionEntry)
    (hnamed : ∀ e ∈ regions, isUnnamedEntry e.name = false) (hlongs : ∀ e ∈ regions, Longs e) :
    AlwaysValid pid outputDir regions ↔ (∀ e ∈ regions, Whole e) ∧
      regions.Pairwise fun e e' => e.name ≠ e'.name → ¬ SameFile outputDir e.name e'.name := by
  have hP : ∀ memory : Int → Byte, (∀ a, memory a = 0 ∨ memory a = 1) →
      ∀ e ∈ regions, memoryHasElfHeader memory e.sortedRanges = false :=
    fun memory h e _ => memoryHasElfHeader_eq_false h e.sortedRanges
  have hnames : (regions.Pairwise fun e e' => e.name ≠ e'.name →
        resolve outputDir (fileName pid e) ≠ resolve outputDir (fileName pid e')) ↔
      regions.Pairwise fun e e' => e.name ≠ e'.name → ¬ SameFile outputDir e.name e'.name :=
    List.Pairwise.iff_of_mem fun {e e'} he he' =>
      imp_congr_right fun _ => not_congr (resolve_fileName_eq_iff (hnamed e he) (hnamed e' he'))
  simp only [AlwaysValid, exists_valid_iff, hnames]
  constructor
  · intro h
    refine ⟨fun e he => ?_, (h _ (hP (fun _ => 0) fun _ => .inl rfl)).2⟩
    exact (valid_iff_whole hP (fun memory hmemory => hmemory e he) (hnamed e he) (hlongs e he)).mp
      fun memory hmemory => (h memory hmemory).1 e he
  · rintro ⟨hwhole, hapart⟩ memory hmemory
    refine ⟨fun e he => ?_, hapart⟩
    exact (valid_iff_whole hP (fun memory hmemory => hmemory e he) (hnamed e he) (hlongs e he)).mpr
      (hwhole e he) memory hmemory

/-! ### Modules whose ranges follow each other -/

section Libraries

variable {name : Text} {base : Int} {n : Nat}

/-- Ranges of a page that follow each other. -/
def pages (name : Text) (base : Int) (n : Nat) : List DumpRange :=
  (List.range n).map fun (i : Nat) =>
    { name := String.ofList name, start := base + 0x4000 * i, stop := base + 0x4000 * i + 0x4000, protections := 5
      offset := 0x4000 * i }

/-- The entry of such a module. -/
def library (name : Text) (base : Int) (n : Nat) : DumpRegionEntry := namedEntry name (pages name base n)

theorem pairwise_pages (name : Text) (base : Int) (n : Nat) :
    (pages name base n).Pairwise fun r r' => r.stop ≤ r'.start := by
  rw [pages, List.pairwise_map]
  refine List.pairwise_lt_range.imp fun {i j} hij => ?_
  dsimp only
  omega

theorem mem_pages {r : DumpRange} (hr : r ∈ pages name base n) :
    r.stop = r.start + 0x4000 ∧ base ≤ r.start ∧ r.stop ≤ base + 0x4000 * n := by
  obtain ⟨i, hi, rfl⟩ := List.mem_map.mp hr
  have hlt := List.mem_range.mp hi
  dsimp only
  omega

theorem sortedByStart_pages (name : Text) (base : Int) (n : Nat) :
    sortedByStart (pages name base n) = pages name base n := by
  refine List.Pairwise.insertionSort_eq ((pairwise_pages name base n).imp_of_mem fun {r r'} hr _ hle => ?_)
  have hstop := (mem_pages hr).1
  omega

theorem sortedRanges_library (name : Text) (base : Int) (n : Nat) :
    (library name base n).sortedRanges = pages name base n := by
  rw [DumpRegionEntry.sortedRanges, library, namedEntry]
  exact (congrArg sortedByStart (sortedByStart_pages name base n)).trans (sortedByStart_pages name base n)

theorem start_library (name : Text) (base : Int) (n : Nat) : (library name base (n + 1)).start = base := by
  rw [library, namedEntry]
  dsimp only
  rw [sortedByStart_pages, minStart, pages, List.range_succ_eq_map]
  simp

theorem longs_library (hlo : 0 ≤ base) (hhi : base + 0x4000 * (n + 1 : Nat) < 2 ^ 63) :
    Longs (library name base (n + 1)) := by
  refine ⟨?_, fun r hr => ?_⟩
  · rw [start_library, IsLong]
    omega
  · rw [sortedRanges_library] at hr
    obtain ⟨hstop, hle, hend⟩ := mem_pages hr
    rw [IsLong, IsLong]
    omega

theorem whole_library (hn : n + 1 ≤ 291) : Whole (library name base (n + 1)) := by
  refine whole_of_apart ?_ ?_ ?_
  · rw [sortedRanges_library, pages, List.length_map, List.length_range]
    omega
  · intro r hr
    rw [sortedRanges_library] at hr
    obtain ⟨hstop, hle, hend⟩ := mem_pages hr
    rw [start_library]
    omega
  · rw [sortedRanges_library]
    exact pairwise_pages name base (n + 1)

theorem not_whole_library (hn : 291 < n + 1) : ¬ Whole (library name base (n + 1)) := by
  intro h
  obtain ⟨r, hr, hstart⟩ : ∃ r ∈ pages name base (n + 1), r.start = base :=
    ⟨_, List.mem_map_of_mem (List.mem_range.mpr (Nat.succ_pos n)), by simp⟩
  have hstop := (mem_pages hr).1
  rw [← sortedRanges_library] at hr
  have hlength := h.length_le hr (hstart.trans (start_library name base n).symm) (by omega) fun r' hr' => by
    rw [sortedRanges_library] at hr'
    rw [start_library]
    exact (mem_pages hr').2.1
  rw [sortedRanges_library, pages, List.length_map, List.length_range] at hlength
  omega

end Libraries

theorem dumps_valid_libraries : AlwaysValid 42 ["dumps".toList]
    [library "libc.prx".toList 0x800000000 2, library "libkernel".toList 0x810000000 3] := by
  refine (dumps_valid_iff 42 _ _ ?_ ?_).mpr ⟨?_, ?_⟩
  · decide
  · exact List.forall_mem_cons.mpr ⟨longs_library (by decide) (by decide),
      List.forall_mem_singleton.mpr (longs_library (by decide) (by decide))⟩
  · exact List.forall_mem_cons.mpr ⟨whole_library (by decide),
      List.forall_mem_singleton.mpr (whole_library (by decide))⟩
  · refine List.pairwise_pair.mpr fun _ hsame => ?_
    exact absurd hsame (by decide)

/-- Two names that become one, and a module with one range more than the page has room for. -/
theorem dumps_invalid :
    let sameNames := [library "libc 1".toList 0x800000000 1, library "libc_1".toList 0x810000000 1]
    let manyRanges := [library "eboot.bin".toList 0x400000 292]
    (∀ e ∈ sameNames ++ manyRanges, isUnnamedEntry e.name = false ∧ Longs e) ∧
      ¬ AlwaysValid 42 ["dumps".toList] sameNames ∧ ¬ AlwaysValid 42 ["dumps".toList] manyRanges := by
  have hnone : ∀ regions : List DumpRegionEntry, ∀ memory : Int → Byte, (∀ a, memory a = 0 ∨ memory a = 1) →
      ∀ e ∈ regions, memoryHasElfHeader memory e.sortedRanges = false :=
    fun _ _ h e _ => memoryHasElfHeader_eq_false h e.sortedRanges
  have hlongs : Longs (library "eboot.bin".toList 0x400000 292) := longs_library (by decide) (by decide)
  refine ⟨?_, fun h => ?_, fun h => ?_⟩
  · refine List.forall_mem_cons.mpr ⟨⟨by decide, longs_library (by decide) (by decide)⟩, ?_⟩
    refine List.forall_mem_cons.mpr ⟨⟨by decide, longs_library (by decide) (by decide)⟩, ?_⟩
    exact List.forall_mem_singleton.mpr ⟨by decide, hlongs⟩
  · have hapart := (exists_valid_iff.mp (h (fun _ => 0) (hnone _ _ fun _ => .inl rfl))).2
    exact List.pairwise_pair.mp hapart (by decide) (by decide)
  · have hwhole := (valid_iff_whole (hnone _) (fun memory hmemory => hmemory _ (List.mem_singleton_self _))
      (by decide) hlongs).mp fun memory hmemory =>
        (exists_valid_iff.mp (h memory hmemory)).1 _ (List.mem_singleton_self _)
    exact not_whole_library (by decide) hwhole

end MemoryDumper

end Ps5Debugger

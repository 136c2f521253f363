import Ps5Debugger.DumpEntries
import Ps5Debugger.Lib.IntArrays
import Ps5Debugger.Lib.Placement
import Ps5Debugger.Lib.Records

/-!
# What the dumper writes

`dumpRegions` (`MemoryDumperService.kt`) writes one file for each entry. A module whose memory does not begin
with an ELF header gets one: the header and the program headers are written first, with an offset for each
range that is computed from its address, and then the ranges, each after zeros up to its offset. Addresses,
offsets and sizes are signed 64-bit numbers. Every read succeeds here, every file can be written, and nobody
cancels the dump.
-/

namespace Ps5Debugger

open Lib ScannerView

namespace MemoryDumper

/-! ## The headers -/

def putLong (n : Int) : List Byte := leBytes 8 (n % 2 ^ 64).toNat

@[simp] theorem length_putLong (n : Int) : (putLong n).length = 8 := length_leBytes 8 _

/-- `e_ident` -/
def eIdent : List Byte := [0x7F, 0x45, 0x4C, 0x46, 2, 1, 1, 9, 0] ++ List.replicate 7 0

@[simp] theorem length_eIdent : eIdent.length = 16 := by simp [eIdent]

def buildElf64Header (entryPoint : Int) (phNum : Nat) : List Byte :=
  eIdent ++ leBytes 2 3 ++ leBytes 2 0x3E ++ leBytes 4 1 ++
    putLong entryPoint ++ putLong 64 ++ putLong 0 ++ leBytes 4 0 ++
    leBytes 2 64 ++ leBytes 2 56 ++ leBytes 2 phNum ++ leBytes 2 64 ++ leBytes 2 0 ++ leBytes 2 0

@[simp] theorem length_buildElf64Header (entryPoint : Int) (phNum : Nat) :
    (buildElf64Header entryPoint phNum).length = 64 := by
  simp [buildElf64Header]

def buildElf64Phdr (pType pFlags : Nat) (pOffset pVaddr pPaddr pFilesz pMemsz pAlign : Int) : List Byte :=
  leBytes 4 pType ++ leBytes 4 pFlags ++ putLong pOffset ++ putLong pVaddr ++ putLong pPaddr ++ putLong pFilesz ++
    putLong pMemsz ++ putLong pAlign

/-- `PF_R`, `PF_W` and `PF_X` of a range, the first and the last if it has none of them. -/
def phdrFlags (prot : Nat) : Nat :=
  let pFlags := (if prot &&& 1 ≠ 0 then 4 else 0) ||| (if prot &&& 2 ≠ 0 then 2 else 0) |||
    (if prot &&& 4 ≠ 0 then 1 else 0)
  if pFlags = 0 then 4 ||| 1 else pFlags

def headerPageSize : Int := 0x4000

/-- `segFileOffset` -/
def segFileOffset (base : Int) (segment : DumpRange) : Int :=
  wrap64 (headerPageSize + wrap64 (segment.start - base))

def segSize (segment : DumpRange) : Int := wrap64 (segment.stop - segment.start)

/-- The program header of a range. -/
def phdr (base : Int) (segment : DumpRange) : List Byte :=
  buildElf64Phdr 1 (phdrFlags segment.protections) (segFileOffset base segment) segment.start segment.start
    (segSize segment) (segSize segment) 0x4000

@[simp] theorem length_phdr (base : Int) (segment : DumpRange) : (phdr base segment).length = 56 := by
  simp [phdr, buildElf64Phdr]

/-! ## The file -/

/-- A file that is being written, with `currentFileOffset`. -/
structure FileOutput where
  bytes : List Byte
  currentFileOffset : Int

/-- `fos.write`, and the offset goes on by what was written. -/
def FileOutput.write (fos : FileOutput) (data : List Byte) : FileOutput :=
  { bytes := fos.bytes ++ data, currentFileOffset := wrap64 (fos.currentFileOffset + data.length) }

def chunkSize : Nat := 1024 * 1024

/-- The loops that write zeros, a buffer at a time. -/
def FileOutput.writeZeros (fos : FileOutput) (gapRemaining : Nat) : FileOutput :=
  if 0 < gapRemaining then
    let toWrite := min chunkSize gapRemaining
    (fos.write (List.replicate toWrite 0)).writeZeros (gapRemaining - toWrite)
  else fos
termination_by gapRemaining
decreasing_by
  rw [chunkSize]
  omega

/-- The bytes of a read. -/
def readMemory (memory : Int → Byte) (address : Int) (length : Nat) : List Byte :=
  (List.range length).map fun (i : Nat) => memory (address + i)

/-- The length of the next read. -/
def toRead (endAddress currentAddress : Int) : Int :=
  let remaining := wrap64 (endAddress - currentAddress)
  wrap32 (min chunkSize remaining)

/--
The loop that reads a range and writes it. A distance that is too large for 64 bits comes out negative: then
a read has a negative length, which throws, or none, and the loop never ends.
-/
def readSegment (memory : Int → Byte) (endAddress currentAddress : Int) (fos : FileOutput) : Option FileOutput :=
  if currentAddress < endAddress then
    if 0 < toRead endAddress currentAddress then
      readSegment memory endAddress (currentAddress + toRead endAddress currentAddress)
        (fos.write (readMemory memory currentAddress (toRead endAddress currentAddress).toNat))
    else none
  else some fos
termination_by (endAddress - currentAddress).toNat

/-- The headers, and zeros up to the end of the page. -/
def writeHeaders (base : Int) (sortedRanges : List DumpRange) (fos : FileOutput) : FileOutput :=
  let fos := fos.write (buildElf64Header base sortedRanges.length)
  let fos := sortedRanges.foldl (fun fos segment => fos.write (phdr base segment)) fos
  fos.writeZeros (headerPageSize - fos.currentFileOffset).toNat

/-- Zeros up to the place of a range, if that is further on. -/
def fillTo (targetOffset : Int) (fos : FileOutput) : FileOutput :=
  if targetOffset > fos.currentFileOffset then fos.writeZeros (wrap64 (targetOffset - fos.currentFileOffset)).toNat
  else fos

/-! ## The entries -/

/-- `equals("unnamed", ignoreCase = true) || isBlank()` -/
def isUnnamedEntry (name : Text) : Bool := equalsUnnamed name || name.all isWhitespace

/-- `memoryHasElfHeader` -/
def memoryHasElfHeader (memory : Int → Byte) : List DumpRange → Bool
  | [] => false
  | first :: _ => readMemory memory first.start 4 = [0x7F, 0x45, 0x4C, 0x46]

def totalSpan (e : DumpRegionEntry) : Int :=
  max 1 (if isUnnamedEntry e.name then e.totalSize else wrap64 (e.stop - e.start))

/-- `targetOffset` -/
def targetOffset (e : DumpRegionEntry) (synthesizeElfHeader : Bool) (segment : DumpRange) : Int :=
  if synthesizeElfHeader then segFileOffset e.start segment
  else if 0 ≤ segment.offset ∧ segment.offset < totalSpan e then segment.offset
  else wrap64 (segment.start - e.start)

/-- One range of an entry. -/
def dumpSegment (memory : Int → Byte) (e : DumpRegionEntry) (synthesizeElfHeader : Bool) (fos : FileOutput)
    (segment : DumpRange) : Option FileOutput :=
  let fos := if isUnnamedEntry e.name then fos else fillTo (targetOffset e synthesizeElfHeader segment) fos
  readSegment memory segment.stop segment.start fos

/-- What is written for an entry. -/
def dumpEntry (memory : Int → Byte) (e : DumpRegionEntry) : Option (List Byte) := do
  let sortedRanges := sortedByStart e.subRanges
  let synthesizeElfHeader := !isUnnamedEntry e.name && !memoryHasElfHeader memory sortedRanges
  let fos : FileOutput := { bytes := [], currentFileOffset := 0 }
  let fos := if synthesizeElfHeader then writeHeaders e.start sortedRanges fos else fos
  let fos ← sortedRanges.foldlM (dumpSegment memory e synthesizeElfHeader) fos
  return fos.bytes

/-! ## The names of the files -/

/-- A letter without its case; only the letters that are compared here matter. -/
def foldCase (c : Char) : Char :=
  if c.toNat = 0x130 ∨ c.toNat = 0x131 then 'i' else if c.toNat = 0x17F then 's' else c.toLower

/-- `endsWith(suffix, ignoreCase = true)` -/
def endsWithIgnoreCase (name suffix : Text) : Bool :=
  suffix.length ≤ name.length && (name.drop (name.length - suffix.length)).map foldCase = suffix

/-- The name is a file name of a module already. -/
def isModuleName (name : Text) : Bool :=
  endsWithIgnoreCase name ".prx".toList || endsWithIgnoreCase name ".bin".toList ||
    endsWithIgnoreCase name ".elf".toList || endsWithIgnoreCase name ".sprx".toList

/-- `[a-zA-Z0-9._-]` -/
def isPlain (c : Char) : Bool := c.isAlphanum || c = '.' || c = '_' || c = '-'

/-- `cleanedName` -/
def cleanedName (name : Text) : Text :=
  let cleaned := name.map fun c => if isPlain c then c else '_'
  if cleaned.isEmpty then "unnamed".toList else cleaned

/-- `%X` of a `Long` -/
def formatHex (n : Int) : Text := (Nat.toDigits 16 (n % 2 ^ 64).toNat).map Char.toUpper

def fileName (pid : Int) (e : DumpRegionEntry) : Text :=
  if isUnnamedEntry e.name then
    "dump_".toList ++ (toString pid).toList ++ "_unnamed_0x".toList ++ formatHex e.start ++ ".bin".toList
  else if isModuleName e.name then e.name
  else cleanedName e.name ++ ".prx".toList

/-- One component of a path. -/
def enter (path : List Text) (component : Text) : List Text :=
  if component = [] ∨ component = ".".toList then path
  else if component = "..".toList then path.dropLast
  else path ++ [component]

/-- The file of a path below a directory, where no link is followed. -/
def resolve (dir : List Text) (path : Text) : List Text := (path.splitOn '/').foldl enter dir

structure OutputFile where
  path : List Text
  bytes : List Byte

/-- The files in the order in which they are written. -/
def dumpRegions (memory : Int → Byte) (pid : Int) (outputDir : List Text) (regions : List DumpRegionEntry) :
    Option (List OutputFile) :=
  regions.mapM fun e => do
    let bytes ← dumpEntry memory e
    return { path := resolve outputDir (fileName pid e), bytes := bytes }

/-! ## The bytes of a file -/

section Bytes

variable {memory : Int → Byte} {bytes out : List Byte} {base stop cur : Int} {e : DumpRegionEntry}
  {segment : DumpRange} {sorted : List DumpRange} {fos : FileOutput}

/-- What a file is when so much was written to it. -/
def FileOutput.of (bytes : List Byte) : FileOutput := { bytes := bytes, currentFileOffset := wrap64 bytes.length }

theorem currentFileOffset_of (bytes : List Byte) : (FileOutput.of bytes).currentFileOffset = wrap64 bytes.length := by
  rw [FileOutput.of]

theorem write_of (bytes data : List Byte) : (FileOutput.of bytes).write data = .of (bytes ++ data) := by
  rw [FileOutput.write, FileOutput.of, FileOutput.of, List.length_append, Nat.cast_add, wrap64_wrap64_add]

theorem writeZeros_of (bytes : List Byte) (n : Nat) :
    (FileOutput.of bytes).writeZeros n = .of (bytes ++ List.replicate n 0) := by
  induction n using Nat.strong_induction_on generalizing bytes with
  | _ n ih =>
    rw [FileOutput.writeZeros]
    split
    · rename_i hpos
      have hlt : n - min chunkSize n < n := by
        rw [chunkSize]
        omega
      dsimp only
      rw [write_of, ih _ hlt, List.append_assoc, List.replicate_append_replicate,
        Nat.add_sub_cancel' (Nat.min_le_right _ _)]
    · rename_i hzero
      rw [Nat.eq_zero_of_not_pos hzero, List.replicate_zero, List.append_nil]

/-! ### A range -/

theorem readMemory_add (a : Int) (m n : Nat) :
    readMemory memory a (m + n) = readMemory memory a m ++ readMemory memory (a + m) n := by
  simp only [readMemory, List.range_add, List.map_append, List.map_map, Function.comp_def, Nat.cast_add, Int.add_assoc]

@[simp] theorem length_readMemory (a : Int) (n : Nat) : (readMemory memory a n).length = n := by
  rw [readMemory, List.length_map, List.length_range]

/-- The bytes of a range. -/
def segmentBytes (memory : Int → Byte) (segment : DumpRange) : List Byte :=
  readMemory memory segment.start (segment.stop - segment.start).toNat

/-- A distance of 64 bits is read. -/
theorem readSegment_of (h : stop - cur < 2 ^ 63) : readSegment memory stop cur (.of bytes) =
    some (.of (bytes ++ readMemory memory cur (stop - cur).toNat)) := by
  induction hn : (stop - cur).toNat using Nat.strong_induction_on generalizing cur bytes with
  | _ n ih =>
    rw [readSegment]
    split
    · rename_i hlt
      have hread : toRead stop cur = min (chunkSize : Int) (stop - cur) := by
        rw [toRead, wrap64_eq_self (by omega) h, chunkSize]
        exact wrap32_eq_self (by omega) (by omega)
      have hpos : 0 < toRead stop cur := by
        rw [hread, chunkSize]
        omega
      obtain ⟨k, hk⟩ := Int.eq_ofNat_of_zero_le hpos.le
      have hle : toRead stop cur ≤ stop - cur := hread ▸ min_le_right _ _
      rw [if_pos hpos, hk, write_of, ih (stop - (cur + k)).toNat (by omega) (by omega) rfl, List.append_assoc,
        Int.toNat_natCast, ← readMemory_add]
      have hsum : k + (stop - (cur + k)).toNat = n := by omega
      rw [hsum]
    · rename_i hge
      have hzero : n = 0 := by omega
      rw [hzero, readMemory, List.range_zero, List.map_nil, List.append_nil]

/-- A longer one is not, and stays too long whatever is read of it. -/
theorem readSegment_eq_none (h : 2 ^ 63 ≤ stop - cur) (hlt : stop - cur < 2 ^ 64) :
    readSegment memory stop cur fos = none := by
  induction hn : (stop - cur).toNat using Nat.strong_induction_on generalizing cur fos with
  | _ n ih =>
    rw [readSegment, if_pos (by omega)]
    split
    · rename_i hpos
      -- the low half of the distance is read
      have hread : toRead stop cur = wrap32 (stop - cur) := by
        have hwrap : wrap64 (stop - cur) = stop - cur - 2 ^ 64 := by
          obtain ⟨k, hk⟩ := exists_wrap64_eq (stop - cur)
          have hbounds := wrap64_bounds (stop - cur)
          omega
        rw [toRead, min_eq_right (by rw [hwrap]; omega), wrap32_wrap64]
      obtain ⟨k, hk⟩ := exists_wrap32_eq (stop - cur)
      have hbounds := wrap32_bounds (stop - cur)
      rw [hread] at hpos ⊢
      exact ih (stop - (cur + wrap32 (stop - cur))).toNat (by omega) (by omega) (by omega) rfl
    · rfl

/-- The zeros in front of a range. -/
def gapTo (base : Int) (pos : Nat) (segment : DumpRange) : Nat :=
  if segFileOffset base segment > wrap64 pos then (wrap64 (segFileOffset base segment - wrap64 pos)).toNat else 0

theorem segFileOffset_bounds (base : Int) (segment : DumpRange) :
    -2 ^ 63 ≤ segFileOffset base segment ∧ segFileOffset base segment < 2 ^ 63 := wrap64_bounds _

theorem gapTo_eq (base : Int) {pos : Nat} (hpos : pos < 2 ^ 63) (segment : DumpRange) :
    gapTo base pos segment = (segFileOffset base segment - pos).toNat := by
  have hbounds := segFileOffset_bounds base segment
  rw [gapTo, wrap64_eq_self (by omega) (by omega)]
  split
  · rw [wrap64_eq_self (by omega) (by omega)]
  · omega

theorem forward_gapTo (base : Int) : Forward (gapTo base) (segFileOffset base) (2 ^ 63) :=
  fun _ segment hpos => gapTo_eq base hpos segment

/-- A range behind what was written before, as an image has it. -/
def addSegment (memory : Int → Byte) (base : Int) (bytes : List Byte) (segment : DumpRange) : List Byte :=
  appendBlock (gapTo base) (segmentBytes memory) 0 bytes segment

theorem fillTo_of (base : Int) (segment : DumpRange) (bytes : List Byte) :
    fillTo (segFileOffset base segment) (.of bytes) =
      .of (bytes ++ List.replicate (gapTo base bytes.length segment) 0) := by
  rw [fillTo, gapTo, currentFileOffset_of]
  split
  · exact writeZeros_of _ _
  · rw [List.replicate_zero, List.append_nil]

variable (hnamed : isUnnamedEntry e.name = false)

include hnamed

theorem dumpSegment_of (h : segment.stop - segment.start < 2 ^ 63) :
    dumpSegment memory e true (.of bytes) segment = some (.of (addSegment memory e.start bytes segment)) := by
  rw [dumpSegment, hnamed, targetOffset, if_pos rfl]
  simp only [Bool.false_eq_true, if_false]
  rw [fillTo_of, readSegment_of h]
  rfl

theorem foldlM_dumpSegment (h : ∀ r ∈ sorted, r.stop - r.start < 2 ^ 63) (bytes : List Byte) :
    sorted.foldlM (dumpSegment memory e true) (.of bytes) =
      some (.of (sorted.foldl (addSegment memory e.start) bytes)) := by
  induction sorted generalizing bytes with
  | nil => rfl
  | cons r sorted ih =>
    obtain ⟨hr, hrest⟩ := List.forall_mem_cons.mp h
    rw [List.foldlM_cons, dumpSegment_of hnamed hr]
    exact ih hrest _

omit hnamed in
theorem foldlM_dumpSegment_eq_none {synthesize : Bool} (hmem : segment ∈ sorted)
    (h : 2 ^ 63 ≤ segment.stop - segment.start) (hlt : segment.stop - segment.start < 2 ^ 64) (fos : FileOutput) :
    sorted.foldlM (dumpSegment memory e synthesize) fos = none := by
  induction sorted generalizing fos with
  | nil => cases hmem
  | cons r sorted ih =>
    rw [List.foldlM_cons]
    rcases List.mem_cons.mp hmem with rfl | hmem
    · rw [dumpSegment, readSegment_eq_none h hlt]
      rfl
    · cases dumpSegment memory e synthesize fos r with
      | none => rfl
      | some fos' => exact ih hmem fos'

end Bytes

end MemoryDumper

end Ps5Debugger

import Ps5Debugger.ClientScan
import Ps5Debugger.Lib.IntArrays
import Ps5Debugger.Lib.Overlay

/-!
# Segments of an ELF file

`ElfUtil.getSegments` and `getMergedModule`, with which the client opens a file instead of a process. Fields
of the headers are 64 bits wide and are added as `Long`; what is used as an index is their lower half. An
exception is `none`.
-/

namespace Ps5Debugger

open Lib

namespace ElfUtil

open ScannerView (Text)

/-! ## Reading -/

/-- `isElf` -/
def isElf (bytes : List Byte) : Bool := bytes.take 4 = [0x7F, 0x45, 0x4C, 0x46]

/-- `readShortLE` -/
def readShortLE (bytes : List Byte) (offset : Int) : Option Int :=
  if wrap32 (offset + 2) > bytes.length then some 0 else int16At bytes offset

/-- `readIntLE` -/
def readIntLE (bytes : List Byte) (offset : Int) : Option Int :=
  if wrap32 (offset + 4) > bytes.length then some 0 else int32At bytes offset

/-- `readLongLE`; the halves do not overlap, and so their `or` is their sum. -/
def readLongLE (bytes : List Byte) (offset : Int) : Option Int :=
  if wrap32 (offset + 8) > bytes.length then some 0
  else do
    let low ← readIntLE bytes offset
    let high ← readIntLE bytes (wrap32 (offset + 4))
    return low % 2 ^ 32 + high * 2 ^ 32

/-- A field that is a `Long` in a 64-bit file and an unsigned word in another. -/
def readField (bytes : List Byte) (is64 : Bool) (offset at64 at32 : Int) : Option Int :=
  if is64 then readLongLE bytes (wrap32 (offset + at64))
  else (readIntLE bytes (wrap32 (offset + at32))).map (· % 2 ^ 32)

/-- The table of program headers. -/
structure Table where
  is64 : Bool
  phoff : Int
  phentsize : Int
  phnum : Nat

def readTable (bytes : List Byte) : Option Table := do
  let is64 : Bool := bytes[4]? = some 2
  let phoff ← readField bytes is64 0 0x20 0x1C
  let phentsize ← readShortLE bytes (if is64 then 0x36 else 0x2A)
  let phnum ← readShortLE bytes (if is64 then 0x38 else 0x2C)
  return ⟨is64, phoff, phentsize % 2 ^ 16, (phnum % 2 ^ 16).toNat⟩

/-- `offset` -/
def Table.offset (t : Table) (i : Nat) : Int := wrap32 (wrap64 (t.phoff + wrap32 (i * t.phentsize)))

/-- The headers before the one at which a loop breaks. -/
def Table.reached (t : Table) (bytes : List Byte) (room : Int) : List Nat :=
  (List.range t.phnum).takeWhile fun i => ¬ wrap32 (t.offset i + room) > bytes.length

/-! ## Segments -/

/-- `baseOffset` -/
def baseOffset (bytes : List Byte) (t : Table) : List Nat → Option Int
  | [] => some 0
  | i :: is => do
    let type ← readIntLE bytes (t.offset i)
    if type = 1 then do -- PT_LOAD
      let vaddr ← readField bytes t.is64 (t.offset i) 16 8
      return if vaddr = 0 then 0x400000 else 0
    else baseOffset bytes t is

/-- The fields of a program header. -/
structure Phdr where
  flags : Int
  fileOff : Int
  vaddr : Int
  filesz : Int
  memsz : Int

def readPhdr (bytes : List Byte) (is64 : Bool) (offset : Int) : Option Phdr := do
  let flags ← readIntLE bytes (wrap32 (offset + if is64 then 4 else 24))
  let fileOff ← readField bytes is64 offset 8 4
  let vaddr ← readField bytes is64 offset 16 8
  let filesz ← readField bytes is64 offset 32 16
  let memsz ← readField bytes is64 offset 40 20
  return ⟨flags, fileOff, vaddr, filesz, memsz⟩

/-- `MemoryRange`, as far as segments have its fields -/
structure ModuleRange where
  name : Text
  start : Int
  stop : Int
  offset : Int
  protections : Nat
  localData : List Byte

/-- `bytes.copyOfRange(fromIndex, toIndex)` -/
def copyOfRange (bytes : List Byte) (fromIndex toIndex : Int) : Option (List Byte) :=
  if 0 ≤ fromIndex ∧ fromIndex ≤ toIndex ∧ toIndex ≤ bytes.length then
    some ((bytes.take toIndex.toNat).drop fromIndex.toNat)
  else none

/-- `protections` -/
def protectionsOf (flags : Int) : Nat :=
  (if (BitVec.ofInt 32 flags)[2] then 1 else 0) ||| (if (BitVec.ofInt 32 flags)[1] then 2 else 0) |||
    (if (BitVec.ofInt 32 flags)[0] then 4 else 0)

/-- `filesz > 0 && fileOff + filesz <= bytes.size` -/
def Phdr.Accepted (h : Phdr) (bytes : List Byte) : Prop :=
  h.filesz > 0 ∧ wrap64 (h.fileOff + h.filesz) ≤ bytes.length

instance (h : Phdr) (bytes : List Byte) : Decidable (h.Accepted bytes) := inferInstanceAs (Decidable (_ ∧ _))

/-- `start` -/
def Phdr.start (h : Phdr) (base : Int) : Int := wrap64 (h.vaddr + base)

/-- The segment of a header, with its bytes. -/
def Phdr.segment (h : Phdr) (fileName : Text) (base : Int) (i : Nat) (segmentData : List Byte) : ModuleRange where
  name := fileName ++ " [PT_LOAD ".toList ++ Nat.toDigits 10 i ++ "]".toList
  start := h.start base
  stop := wrap64 (h.start base + h.memsz)
  offset := h.fileOff
  protections := protectionsOf h.flags
  localData := segmentData

/-- A pass of the loop over the headers. -/
def segmentAt (bytes : List Byte) (fileName : Text) (t : Table) (base : Int) (i : Nat) :
    Option (Option ModuleRange) := do
  let type ← readIntLE bytes (t.offset i)
  if type = 1 then do -- PT_LOAD
    let h ← readPhdr bytes t.is64 (t.offset i)
    if h.Accepted bytes then do
      let segmentData ← copyOfRange bytes (wrap32 h.fileOff) (wrap32 (wrap64 (h.fileOff + h.filesz)))
      return some (h.segment fileName base i segmentData)
    else return none
  else return none

/-- `getSegments` -/
def getSegments (bytes : List Byte) (fileName : Text) : Option (List ModuleRange) :=
  if ¬ isElf bytes ∨ bytes.length < 64 then some []
  else do
    let t ← readTable bytes
    let base ← baseOffset bytes t (t.reached bytes 8)
    let segments ← (t.reached bytes (if t.is64 then 56 else 32)).mapM (segmentAt bytes fileName t base)
    return segments.reduceOption

/-! ## The module -/

/-- The pattern `[CP][UP]SA[0-9]{5}` -/
def isTitleId : Text → Bool
  | [a, b, 'S', 'A', d1, d2, d3, d4, d5] =>
    (a = 'C' ∨ a = 'P') ∧ (b = 'U' ∨ b = 'P') ∧ [d1, d2, d3, d4, d5].all Char.isDigit
  | _ => false

/-- `pattern.find`, in text that is long enough -/
def findPattern (sb : Text) : Option Text :=
  if sb.length ≥ 9 then (sb.tails.map (List.take 9)).find? isTitleId else none

/-- The loop of `findTitleId` -/
def findTitleIn : List Byte → Text → Option Text
  | [], sb => findPattern sb
  | b :: bytes, sb =>
    if 32 ≤ b.toNat ∧ b.toNat ≤ 126 then findTitleIn bytes (sb ++ [Char.ofNat b.toNat])
    else match findPattern sb with
      | some titleId => some titleId
      | none => findTitleIn bytes []

/-- `findTitleId` -/
def findTitleId (bytes : List Byte) : Option Text := findTitleIn (bytes.take 65536) []

/-- A `MemoryRange` that is merged from others -/
structure Module extends ModuleRange where
  subRanges : List ModuleRange
  titleId : Option Text

/-- `it.copyInto(mergedData, offsetInMerged)` -/
def copyInto (it mergedData : List Byte) (offsetInMerged : Int) : Option (List Byte) :=
  if 0 ≤ offsetInMerged ∧ offsetInMerged + it.length ≤ mergedData.length then
    some (overlay mergedData offsetInMerged.toNat it)
  else none

/-- `minStart` -/
def minStart (segments : List ModuleRange) : Int := (segments.map ModuleRange.start).min?.getD 0

/-- `maxEnd` -/
def maxEnd (segments : List ModuleRange) : Int := (segments.map ModuleRange.stop).max?.getD 0

/-- `totalSize` -/
def totalSize (segments : List ModuleRange) : Int := wrap32 (wrap64 (maxEnd segments - minStart segments))

/-- `offsetInMerged` -/
def offsetInMerged (segments : List ModuleRange) (seg : ModuleRange) : Int :=
  wrap32 (wrap64 (seg.start - minStart segments))

/-- `mergedData` -/
def mergedData (segments : List ModuleRange) : Option (List Byte) :=
  if totalSize segments < 0 then none
  else segments.foldlM (fun data seg => copyInto seg.localData data (offsetInMerged segments seg))
    (List.replicate (totalSize segments).toNat 0)

/-- `getMergedModule` -/
def getMergedModule (bytes : List Byte) (fileName : Text) : Option (Option Module) := do
  let segments ← getSegments bytes fileName
  if segments = [] then return none
  else do
    let data ← mergedData segments
    return some {
      name := fileName
      start := minStart segments
      stop := maxEnd segments
      offset := 0
      protections := segments.foldl (fun acc seg => acc ||| seg.protections) 0
      localData := data
      subRanges := segments
      titleId := findTitleId bytes }

/-! ## What is read -/

section Reads

variable {bytes : List Byte} {x : Int}

/-- The word at an index, and zero where it does not end in the file. -/
def word (bytes : List Byte) (x : Int) : Int :=
  if x + 4 ≤ bytes.length then wrap32 (leNat 4 (slice (ofList bytes) x.toNat 4)) else 0

/-- The double word at an index, and zero where it does not end in the file. -/
def dword (bytes : List Byte) (x : Int) : Int :=
  if x + 8 ≤ bytes.length then word bytes x % 2 ^ 32 + word bytes (x + 4) * 2 ^ 32 else 0

/-- A field of a header. -/
def field (bytes : List Byte) (is64 : Bool) (offset at64 at32 : Int) : Int :=
  if is64 then dword bytes (offset + at64) else word bytes (offset + at32) % 2 ^ 32

/-- The place of a header's fields ends in an `Int`. -/
def Spans (offset len : Int) : Prop := 0 ≤ offset ∧ offset + len < 2 ^ 31

instance (offset len : Int) : Decidable (Spans offset len) := inferInstanceAs (Decidable (_ ∧ _))

theorem Spans.mono {offset len len' : Int} (h : Spans offset len) (hle : len' ≤ len) : Spans offset len' :=
  ⟨h.1, by have := h.2; omega⟩

variable (hlong : 64 ≤ bytes.length) (hsize : bytes.length < 2 ^ 31)

include hlong hsize

/-- Below the array nothing is read. -/
theorem readIntLE_neg (hlo : -2 ^ 31 ≤ x) (hneg : x < 0) : readIntLE bytes x = none := by
  have hnext : wrap32 (x + 4) = x + 4 := wrap32_eq_self (by omega) (by omega)
  rw [readIntLE, hnext, if_neg (by omega)]
  exact int32At_eq_none hlo (by omega) (.inl hneg)

/-- A word is read unless its end wraps around. -/
theorem readIntLE_wrap32 (hlo : -2 ^ 31 ≤ x) (hhi : x < 2 ^ 32) :
    readIntLE bytes (wrap32 x) = if Spans x 4 then some (word bytes x) else none := by
  by_cases hbig : 2 ^ 31 ≤ x
  · have hx : wrap32 x = x - 2 ^ 32 := wrap32_of_le hbig (by omega)
    rw [hx, if_neg fun h => by have := h.2; omega]
    exact readIntLE_neg hlong hsize (by omega) (by omega)
  have hx : wrap32 x = x := wrap32_eq_self hlo (by omega)
  rw [hx]
  by_cases hneg : x < 0
  · rw [if_neg fun h => by have := h.1; omega]
    exact readIntLE_neg hlong hsize hlo hneg
  by_cases hspan : x + 4 < 2 ^ 31
  · have hend : wrap32 (x + 4) = x + 4 := wrap32_eq_self (by omega) hspan
    have hspans : Spans x 4 := ⟨by omega, hspan⟩
    rw [if_pos hspans, readIntLE, hend, word]
    by_cases hin : x + 4 ≤ bytes.length
    · obtain ⟨off, rfl⟩ := Int.eq_ofNat_of_zero_le (Int.not_lt.mp hneg)
      rw [if_neg (by omega), if_pos hin]
      exact int32At_eq hsize (by omega)
    · rw [if_pos (by omega), if_neg hin]
  · -- the end wraps around, and the bytes are not there
    have hend : wrap32 (x + 4) = x + 4 - 2 ^ 32 := wrap32_of_le (by omega) (by omega)
    rw [readIntLE, hend, if_neg (by omega), if_neg fun h => hspan h.2]
    exact int32At_eq_none hlo (by omega) (.inr (by omega))

/-- So is a double word. -/
theorem readLongLE_wrap32 (hlo : -2 ^ 31 ≤ x) (hhi : x < 2 ^ 31 + 2 ^ 16) :
    readLongLE bytes (wrap32 x) = if Spans x 8 then some (dword bytes x) else none := by
  have hlow := readIntLE_wrap32 hlong hsize hlo (by omega)
  have hhigh := readIntLE_wrap32 hlong hsize (x := x + 4) (by omega) (by omega)
  have hadd (k : Int) : wrap32 (wrap32 x + k) = wrap32 (x + k) := Int.bmod_add_bmod
  rw [readLongLE, hadd, hadd, hlow, hhigh]
  by_cases hspan : Spans x 8
  · have hend : wrap32 (x + 8) = x + 8 := wrap32_eq_self (by omega) hspan.2
    rw [hend, if_pos hspan, dword]
    by_cases hin : x + 8 ≤ bytes.length
    · obtain ⟨hnonneg, hlt⟩ := hspan
      have hfirst : Spans x 4 := ⟨hnonneg, by omega⟩
      have hsecond : Spans (x + 4) 4 := ⟨by omega, by omega⟩
      rw [if_neg (by omega), if_pos hin, if_pos hfirst, if_pos hsecond]
      rfl
    · rw [if_pos (by omega), if_neg hin]
  · have hend : ¬ wrap32 (x + 8) > bytes.length := by
      by_cases hwrap : x + 8 < 2 ^ 31
      · rw [wrap32_eq_self (by omega) hwrap]
        have : ¬ 0 ≤ x := fun h => hspan ⟨h, hwrap⟩
        omega
      · rw [wrap32_of_le (by omega) (by omega)]
        omega
    rw [if_neg hend, if_neg hspan]
    by_cases hfirst : Spans x 4
    · have hsecond : ¬ Spans (x + 4) 4 := fun h => hspan ⟨hfirst.1, by have := h.2; omega⟩
      rw [if_pos hfirst, if_neg hsecond]
      rfl
    · rw [if_neg hfirst]
      rfl

/-- A field is read unless its end wraps around. -/
theorem readField_eq {is64 : Bool} {offset at64 at32 : Int} (hlo : 0 ≤ offset) (hhi : offset < 2 ^ 31)
    (h64 : 0 ≤ at64 ∧ at64 < 2 ^ 16) (h32 : 0 ≤ at32 ∧ at32 < 2 ^ 16) :
    readField bytes is64 offset at64 at32 =
      if Spans offset (if is64 then at64 + 8 else at32 + 4) then some (field bytes is64 offset at64 at32)
        else none := by
  have hiff (k w : Int) (hk : 0 ≤ k) : Spans (offset + k) w ↔ Spans offset (k + w) := by
    rw [Spans, Spans]
    omega
  cases is64 with
  | true =>
    rw [readField, if_pos rfl, readLongLE_wrap32 hlong hsize (by omega) (by omega)]
    simp only [hiff at64 8 h64.1, if_true, field]
  | false =>
    rw [readField, if_neg Bool.false_ne_true, readIntLE_wrap32 hlong hsize (by omega) (by omega)]
    simp only [hiff at32 4 h32.1, Bool.false_eq_true, if_false, field]
    split <;> rfl

/-- The fields of a header. -/
def phdr (bytes : List Byte) (is64 : Bool) (offset : Int) : Phdr where
  flags := word bytes (offset + if is64 then 4 else 24)
  fileOff := field bytes is64 offset 8 4
  vaddr := field bytes is64 offset 16 8
  filesz := field bytes is64 offset 32 16
  memsz := field bytes is64 offset 40 20

theorem readPhdr_eq {is64 : Bool} {offset : Int} (hlo : 0 ≤ offset) (hhi : offset < 2 ^ 31) :
    readPhdr bytes is64 offset =
      if Spans offset (if is64 then 48 else 28) then some (phdr bytes is64 offset) else none := by
  have hflags := readIntLE_wrap32 hlong hsize (x := offset + if is64 then 4 else 24)
    (by split <;> omega) (by split <;> omega)
  rw [readPhdr, hflags, readField_eq hlong hsize hlo hhi (by decide) (by decide),
    readField_eq hlong hsize hlo hhi (by decide) (by decide), readField_eq hlong hsize hlo hhi (by decide) (by decide),
    readField_eq hlong hsize hlo hhi (by decide) (by decide)]
  -- the last field of a header ends behind the others
  cases is64 with
  | true =>
    simp only [Spans, if_true]
    split_ifs <;> first | rfl | omega
  | false =>
    simp only [Spans, Bool.false_eq_true, if_false]
    split_ifs <;> first | rfl | omega

end Reads

end ElfUtil

end Ps5Debugger

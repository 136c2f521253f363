import Mathlib.Data.List.Sort
import Ps5Debugger.DisasmFormatter
import Ps5Debugger.Lib.Distinct
import Ps5Debugger.Lib.MaxRuns

/-!
# Lines of a preloaded chunk

`preloadRegionInBackground` (`RegionPreloader.kt`) reads a region of a process in chunks, and makes the lines of a chunk
from three sources: the instructions that the server found, the strings in the bytes, and the runs of zeros, which are
shown in lines of 16 bytes and cut short. Where two lines have the same address the first source wins.

A range is an offset in the chunk and a length.
-/

namespace Ps5Debugger

open Lib
open Rpc.MemoryRpcService (Ps5DisasmInstr)

namespace RegionPreloader

/-! ## Strings and zeros -/

def isText (v : Byte) : Bool := decide (0x20 ≤ v ∧ v ≤ 0x7E) || v = 0x09

/-- The string that ends at `i`, before the byte `next`. -/
def stringRange (strStart i : Nat) (next : Option Byte) : List (Nat × Nat) :=
  let slen := i - strStart
  match next with
  | some v => if slen ≥ 8 ∨ (v = 0 ∧ slen ≥ 4) then [(strStart, if v = 0 then slen + 1 else slen)] else []
  | none => if slen ≥ 8 then [(strStart, slen)] else []

def stringRanges (rawBytes : List Byte) : List (Nat × Nat) := scanRuns isText stringRange 0 none rawBytes

/-- The zeros that end at `i`. -/
def zeroRange (zStart i : Nat) (_ : Option Byte) : List (Nat × Nat) :=
  let zlen := i - zStart
  if zlen ≥ 16 then [(zStart, zlen)] else []

def zeroRanges (rawBytes : List Byte) : List (Nat × Nat) := scanRuns (fun v => decide (v = 0)) zeroRange 0 none rawBytes

section Pieces

variable (chunkStart : Int64) (syncAddrs : Int64 → Bool)

/-- The offset of the first sync address behind `curOff` and before `endOff`. -/
def nextSync (endOff curOff : Nat) : Option Nat :=
  (List.range' (curOff + 1) (endOff - (curOff + 1))).find? fun off => syncAddrs (chunkStart + Int64.ofNat off)

theorem lt_nextSync {endOff curOff off : Nat} (h : nextSync chunkStart syncAddrs endOff curOff = some off) :
    curOff < off ∧ off < endOff := by
  have hmem := List.mem_range'_1.mp (List.mem_of_find?_eq_some h)
  omega

/-- `while (curOff < endOff)`: the lines for a run of zeros, of which those behind the first 64 bytes are left out up to
the next sync address. -/
def zeroPieces (endOff curOff emitted : Nat) : List (Nat × Nat) :=
  if _h : curOff < endOff then
    if emitted ≥ 64 ∧ !syncAddrs (chunkStart + Int64.ofNat curOff) then
      match _hnext : nextSync chunkStart syncAddrs endOff curOff with
      | some off => zeroPieces endOff off 0
      | none => []
    else
      (curOff, min 16 (endOff - curOff)) ::
        zeroPieces endOff (curOff + min 16 (endOff - curOff)) (emitted + min 16 (endOff - curOff))
  else []
termination_by endOff - curOff
decreasing_by
  · have := lt_nextSync chunkStart syncAddrs _hnext
    omega
  · omega

/-- The lines for all runs of zeros. -/
def zeroLines (rawBytes : List Byte) : List (Nat × Nat) :=
  (zeroRanges rawBytes).flatMap fun z => zeroPieces chunkStart syncAddrs (z.1 + z.2) z.1 0

end Pieces

/-! ## The lines of a chunk -/

/-- `(instr.addr - chunkStart).toInt()` -/
def offsetOf (chunkStart : Int64) (instr : Ps5DisasmInstr) : Int := (instr.addr - chunkStart).toInt32.toInt

/-- Whether an instruction is left out: it is in a string, or it is all zeros and meets a run of zeros. -/
def isDropped (rawBytes : List Byte) (chunkStart : Int64) (instr : Ps5DisasmInstr) : Bool :=
  let iStart := offsetOf chunkStart instr
  let iEnd := iStart + instr.length
  if iStart < 0 ∨ iEnd > rawBytes.length then false
  else if (stringRanges rawBytes).any fun s => decide (iStart ≥ s.1 ∧ iEnd ≤ s.1 + s.2) then true
  else if (copyOfRange rawBytes iStart.toNat instr.length).all (· = 0) then
    (zeroRanges rawBytes).any fun z => decide (iStart < z.1 + z.2 ∧ iEnd > z.1)
  else false

def filtered (rawBytes : List Byte) (chunkStart : Int64) (rawInstrs : List Ps5DisasmInstr) : List Ps5DisasmInstr :=
  if (stringRanges rawBytes).isEmpty && (zeroRanges rawBytes).isEmpty then rawInstrs
  else rawInstrs.filter fun instr => !isDropped rawBytes chunkStart instr

def dataAt (chunkStart : Int64) (kind : Nat) (range : Nat × Nat) : Ps5DisasmInstr :=
  .data (chunkStart + Int64.ofNat range.1) range.2 kind

/-- The entries of the lines. -/
def mergedInstrs (rawBytes : List Byte) (chunkStart : Int64) (syncAddrs : Int64 → Bool)
    (rawInstrs : List Ps5DisasmInstr) : List Ps5DisasmInstr :=
  (distinctBy (·.addr)
    (filtered rawBytes chunkStart rawInstrs ++ (stringRanges rawBytes).map (dataAt chunkStart 0x100) ++
      (zeroLines chunkStart syncAddrs rawBytes).map (dataAt chunkStart 0x200))).insertionSort (·.addr ≤ ·.addr)

/-- A line and the bytes of it that are in the chunk. -/
def lineOf (rawBytes : List Byte) (chunkStart : Int64) (instr : Ps5DisasmInstr) : DisasmLine where
  instr
  bytes :=
    let offset := offsetOf chunkStart instr
    if offset ≥ 0 ∧ offset + instr.length ≤ rawBytes.length then copyOfRange rawBytes offset.toNat instr.length else []

def chunkLines (rawBytes : List Byte) (chunkStart : Int64) (syncAddrs : Int64 → Bool)
    (rawInstrs : List Ps5DisasmInstr) : List DisasmLine :=
  (mergedInstrs rawBytes chunkStart syncAddrs rawInstrs).map (lineOf rawBytes chunkStart)

end RegionPreloader

end Ps5Debugger

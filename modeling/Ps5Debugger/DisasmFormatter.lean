import Ps5Debugger.RpcClient

/-!
# Instructions in the client

The lines of a listing in the client, each an instruction (`Ps5DisasmInstr`) and its bytes, and the target of a
direct branch as the formatter reads it from the bytes of a line (`getJumpTarget`, `DisasmFormatter.kt`).

A byte array is a list of bytes. Addresses are 64-bit numbers that wrap.
-/

namespace Ps5Debugger

open Lib

namespace Rpc.MemoryRpcService.Ps5DisasmInstr

/-- Whether the kind has one of some bits. -/
def hasKind (instr : Ps5DisasmInstr) (bits : Nat) : Bool := instr.kind &&& bits ≠ 0

def isCall (instr : Ps5DisasmInstr) : Bool := instr.hasKind 0x01
def isRet (instr : Ps5DisasmInstr) : Bool := instr.hasKind 0x02
def isJmp (instr : Ps5DisasmInstr) : Bool := instr.hasKind 0x04
def isCondJmp (instr : Ps5DisasmInstr) : Bool := instr.hasKind 0x08
def isDataString (instr : Ps5DisasmInstr) : Bool := instr.hasKind 0x0100
def isDataRaw (instr : Ps5DisasmInstr) : Bool := instr.hasKind 0x0200

/-- Where the next instruction starts. -/
def next (instr : Ps5DisasmInstr) : Int64 := instr.addr + Int64.ofNat instr.length

/-- An entry for bytes that are no instruction. -/
def data (addr : Int64) (length kind : Nat) : Ps5DisasmInstr := ⟨addr, 0, 0, length, kind, 0, 0, 0, 0, 0⟩

end Rpc.MemoryRpcService.Ps5DisasmInstr

open Rpc.MemoryRpcService (Ps5DisasmInstr)

/-- A line of a listing, by what is read of it here. -/
structure DisasmLine where
  instr : Ps5DisasmInstr
  bytes : List Byte

/-! ## Prefixes -/

/-- The bytes of a list are told apart as bit vectors. -/
local instance lawfulByte : LawfulBEq Byte := inferInstance

/-- A legacy prefix, or REX. -/
def isPrefix (b : Byte) : Bool :=
  b ∈ [0x66, 0x67, 0x2E, 0x3E, 0x26, 0x64, 0x65, 0x36, 0xF0, 0xF2, 0xF3] || b &&& 0xF0 = 0x40

/-- `while (off < bytes.size)`: the first byte from `off` on that is no prefix. -/
def skipPrefixes (bytes : List Byte) (off : Nat) : Nat :=
  if _h : off < bytes.length then if isPrefix bytes[off] then skipPrefixes bytes (off + 1) else off else off
termination_by bytes.length - off

/-! ## Branch targets -/

/-- `(d3 shl 24) or (d2 shl 16) or (d1 shl 8) or d0` -/
def intLE (d0 d1 d2 d3 : Byte) : BitVec 32 :=
  d3.setWidth 32 <<< 24 ||| d2.setWidth 32 <<< 16 ||| d1.setWidth 32 <<< 8 ||| d0.setWidth 32

/-- The four bytes from `off` on. -/
def intAt (bytes : List Byte) (off : Nat) : BitVec 32 :=
  intLE (bytes.getD off 0) (bytes.getD (off + 1) 0) (bytes.getD (off + 2) 0) (bytes.getD (off + 3) 0)

/-- The target of a direct branch whose opcode is at `off`, from the address of the next instruction; 0 for any other
opcode, and for one that is cut off. -/
def relTarget (bytes : List Byte) (off : Nat) (next : Int64) : Int64 :=
  let b0 := bytes.getD off 0
  let b1 := bytes.getD (off + 1) 0
  if b0 = 0xE8 ∨ b0 = 0xE9 then if bytes.length ≥ off + 5 then next + Int64.ofInt (intAt bytes (off + 1)).toInt else 0
  else if b0 = 0xEB ∨ (0x70 ≤ b0 ∧ b0 ≤ 0x7F) then
    if bytes.length ≥ off + 2 then next + Int64.ofInt b1.toInt else 0
  else if b0 = 0x0F ∧ 0x80 ≤ b1 ∧ b1 ≤ 0x8F then
    if bytes.length ≥ off + 6 then next + Int64.ofInt (intAt bytes (off + 2)).toInt else 0
  else 0

namespace DisasmFormatter

def getOpcodeOffset (bytes : List Byte) : Nat := skipPrefixes bytes 0

def getJumpTarget (instr : Ps5DisasmInstr) (bytes : List Byte) : Int64 :=
  if bytes = [] then 0 else relTarget bytes (getOpcodeOffset bytes) instr.next

end DisasmFormatter

/-! ## Where prefixes end -/

variable {bytes : List Byte} {off : Nat}

theorem skipPrefixes_next (h : off < bytes.length) (hp : isPrefix bytes[off] = true) :
    skipPrefixes bytes off = skipPrefixes bytes (off + 1) := by
  rw [skipPrefixes, dif_pos h, if_pos hp]

theorem skipPrefixes_stop (h : off < bytes.length) (hp : isPrefix bytes[off] = false) :
    skipPrefixes bytes off = off := by
  rw [skipPrefixes, dif_pos h, hp]
  rfl

theorem skipPrefixes_of_le (h : bytes.length ≤ off) : skipPrefixes bytes off = off := by
  rw [skipPrefixes, dif_neg (Nat.not_lt.mpr h)]

/-- Only prefixes are skipped, and all of them. -/
theorem skipPrefixes_spec (h : off ≤ bytes.length) :
    off ≤ skipPrefixes bytes off ∧ skipPrefixes bytes off ≤ bytes.length ∧
      (∀ i (hi : i < bytes.length), off ≤ i → i < skipPrefixes bytes off → isPrefix bytes[i] = true) ∧
      ∀ hi : skipPrefixes bytes off < bytes.length, isPrefix bytes[skipPrefixes bytes off] = false := by
  induction hn : bytes.length - off generalizing off with
  | zero =>
    have hle : bytes.length ≤ off := by omega
    rw [skipPrefixes_of_le hle]
    exact ⟨le_refl _, h, fun i _ hlo hhi => absurd hhi (by omega), fun hi => absurd hi (by omega)⟩
  | succ n ih =>
    have hlt : off < bytes.length := by omega
    cases hp : isPrefix bytes[off] with
    | false =>
      rw [skipPrefixes_stop hlt hp]
      exact ⟨le_refl _, h, fun i _ hlo hhi => absurd hhi (by omega), fun _ => hp⟩
    | true =>
      rw [skipPrefixes_next hlt hp]
      obtain ⟨hle, hin, hall, hend⟩ := @ih (off + 1) (by omega) (by omega)
      refine ⟨by omega, hin, fun i hi hlo hhi => ?_, hend⟩
      rcases Nat.eq_or_lt_of_le hlo with rfl | hlo
      · exact hp
      · exact hall i hi hlo hhi

/-- The end of the prefixes, by what it is. -/
theorem skipPrefixes_eq {stop : Nat} (hle : off ≤ stop) (hin : stop ≤ bytes.length)
    (hall : ∀ i (hi : i < bytes.length), off ≤ i → i < stop → isPrefix bytes[i] = true)
    (hend : ∀ hi : stop < bytes.length, isPrefix bytes[stop] = false) : skipPrefixes bytes off = stop := by
  obtain ⟨hle', hin', hall', hend'⟩ := skipPrefixes_spec (le_trans hle hin)
  rcases Nat.lt_trichotomy (skipPrefixes bytes off) stop with hlt | heq | hlt
  · have hp := hend' (by omega)
    rw [hall _ (by omega) hle' hlt] at hp
    cases hp
  · exact heq
  · have hp := hend (by omega)
    rw [hall' _ (by omega) hle hlt] at hp
    cases hp

/-! ## The bytes of a line -/

section Slices

variable {start n : Nat}

/-- `copyOfRange(start, start + n)` -/
def copyOfRange (bytes : List Byte) (start n : Nat) : List Byte := (bytes.drop start).take n

theorem getD_copyOfRange {i : Nat} (h : i < n) : (copyOfRange bytes start n).getD i 0 = bytes.getD (start + i) 0 := by
  rw [copyOfRange, List.getD_eq_getElem?_getD, List.getElem?_take_of_lt h, List.getElem?_drop,
    ← List.getD_eq_getElem?_getD]

theorem length_copyOfRange (h : start + n ≤ bytes.length) : (copyOfRange bytes start n).length = n := by
  rw [copyOfRange, List.length_take, List.length_drop]
  omega

end Slices

end Ps5Debugger

import Ps5Debugger.DisasmFormatter

/-!
# The local disassembler

`LocalDisassembler.disassemble` (`LocalDisassembler.kt`) goes over an array from its start. At each offset it makes
an entry, an instruction, a string or a run of zeros, and goes on behind it. Lengths of instructions come from the
bytes there are; what reads behind the end of the array throws, which is `none` here.

What is here are the functions, and what each does at an offset: which instructions throw (`instrAt_of_throws`,
`instrAt_of_not_throws`) and how far the sweep goes on (`pieceLength_spec`).
-/

namespace Ps5Debugger

open Lib
open Rpc.MemoryRpcService (Ps5DisasmInstr)

namespace LocalDisassembler

/-! ## Lengths -/

def getModRMLength (bytes : List Byte) (pos : Nat) : Nat :=
  if pos ≥ bytes.length then 0
  else
    let modrm := bytes.getD pos 0
    let mod := modrm >>> 6 &&& 0x03
    let rm := modrm &&& 0x07
    let sib := bytes.getD (pos + 1) 0
    let sibLen := if mod ≠ 3 ∧ rm = 4 then if mod = 0 ∧ sib &&& 0x07 = 5 then 1 + 4 else 1 else 0
    let dispLen := if mod = 0 then if rm = 5 then 4 else 0 else if mod = 1 then 1 else if mod = 2 then 4 else 0
    1 + sibLen + dispLen

/-- The length from the opcode on. -/
def opcodeLength (bytes : List Byte) (offset : Nat) : Nat :=
  let b0 := bytes.getD offset 0
  let b1 := bytes.getD (offset + 1) 0
  if b0 ∈ [0x90, 0x50, 0x51, 0x52, 0x53, 0x54, 0x55, 0x56, 0x57,
      0x58, 0x59, 0x5A, 0x5B, 0x5C, 0x5D, 0x5E, 0x5F,
      0x06, 0x07, 0x0E, 0x16, 0x17, 0x1E, 0x1F,
      0x98, 0x99, 0x9C, 0x9D, 0x9E, 0x9F,
      0xC3, 0xCB, 0xC9, 0xCC] then 1
  else if b0 ∈ [0xEB, 0x70, 0x71, 0x72, 0x73, 0x74, 0x75, 0x76, 0x77, 0x78, 0x79, 0x7A, 0x7B, 0x7C, 0x7D, 0x7E, 0x7F,
      0xB0, 0xB1, 0xB2, 0xB3, 0xB4, 0xB5, 0xB6, 0xB7] then 2
  else if b0 ∈ [0xB8, 0xB9, 0xBA, 0xBB, 0xBC, 0xBD, 0xBE, 0xBF] then 5
  else if b0 ∈ [0xA8, 0x04, 0x0C, 0x14, 0x1C, 0x24, 0x2C, 0x34, 0x3C] then 2
  else if b0 ∈ [0xE8, 0xE9] then 5
  else if b0 = 0x0F then
    if 0x80 ≤ b1 ∧ b1 ≤ 0x8F then 6 else if b1 = 0x05 ∨ b1 = 0x31 ∨ b1 = 0xA2 then 2 else 3
  else if b0 ∈ [0x8D, 0x89, 0x8B, 0x39, 0x3B, 0x85, 0x01, 0x03, 0x21, 0x23, 0x31, 0x33,
      0x88, 0x8A, 0x38, 0x3A, 0x84, 0x00, 0x02, 0x20, 0x22, 0x30, 0x32] then 1 + getModRMLength bytes (offset + 1)
  else if b0 ∈ [0x81, 0x83, 0xC6, 0xC7] then
    1 + getModRMLength bytes (offset + 1) + if b0 = 0x83 then 1 else if b0 = 0xC6 then 1 else 4
  else 1

/-- Its test for REX, `b >= 0x40 && b <= 0x4F`, is that of `isPrefix`. -/
def getInstructionLength (bytes : List Byte) (start : Nat) : Nat :=
  if start ≥ bytes.length then 1
  else
    let offset := skipPrefixes bytes start
    if offset ≥ bytes.length then max (offset - start) 1 else offset - start + opcodeLength bytes offset

example : ∀ b : Byte, 0x40 ≤ b ∧ b ≤ 0x4F ↔ b &&& 0xF0 = 0x40 := by decide

/-! ## Kinds and operands -/

/-- `while (off < stop)`, which reads each byte on its way. -/
def skipUpTo (bytes : List Byte) (stop off : Nat) : Option Nat :=
  if _h : off < stop then
    match bytes[off]? with
    | none => none
    | some b => if isPrefix b then skipUpTo bytes stop (off + 1) else some off
  else some off
termination_by stop - off

def modrmSet : List Byte :=
  [0x8D, 0x8B, 0x89, 0x39, 0x3B, 0x85, 0x01, 0x03, 0x21, 0x23, 0x31, 0x33,
    0x80, 0x81, 0x83, 0xC6, 0xC7, 0xF6, 0xF7, 0xFE, 0xFF]

/-- The kind by the opcode `b0` and the byte `b1` behind it, which is read as a signed number here. -/
def branchKind (b0 b1 : Byte) : Nat :=
  let group := (b1.signExtend 32).sshiftRight 3 &&& 0x07
  (if b0 = 0xE8 ∨ (b0 = 0xFF ∧ group = 2) then 0x01 else 0) |||
  (if b0 = 0xC3 ∨ b0 = 0xCB ∨ b0 = 0xC2 ∨ b0 = 0xCA then 0x02 else 0) |||
  (if b0 = 0xEB ∨ b0 = 0xE9 ∨ (b0 = 0xFF ∧ group = 4) then 0x04 else 0) |||
  (if (0x70 ≤ b0 ∧ b0 ≤ 0x7F) ∨ (b0 = 0x0F ∧ 0x80 ≤ b1.toInt ∧ b1.toInt ≤ 0x8F) then 0x08 else 0)

/-- What a ModRM byte adds. -/
def memoryKind (b0 modrm : Byte) : Nat :=
  let mod := modrm >>> 6 &&& 0x03
  let rm := modrm &&& 0x07
  (if mod ≠ 3 then 0x10 else 0) ||| (if mod ≠ 3 ∧ mod = 0 ∧ rm = 5 then 0x20 else 0) |||
  (if b0 = 0x89 ∨ b0 = 0x01 ∨ b0 = 0x21 ∨ b0 = 0x31 ∨ b0 = 0xC6 ∨ b0 = 0xC7 then 0x80 else 0x40)

def inferKind (bytes : List Byte) (start len : Nat) : Option Nat :=
  match skipUpTo bytes (start + len) start with
  | none => none
  | some offset =>
    if offset ≥ start + len then some 0
    else
      match bytes[offset]? with
      | none => none
      | some b0 =>
        let kind := branchKind b0 (bytes.getD (offset + 1) 0)
        if b0 ∈ modrmSet ∧ offset + 1 < start + len then
          match bytes[offset + 1]? with
          | none => none
          | some modrm => some (kind ||| memoryKind b0 modrm)
        else some kind

def calculateRelTarget (bytes : List Byte) (offset : Nat) (addr : Int64) (len : Nat) : Option Int64 :=
  match skipUpTo bytes (offset + len) offset with
  | none => none
  | some off => some (if off ≥ bytes.length then 0 else relTarget bytes off (addr + Int64.ofNat len))

def readIntLE (bytes : List Byte) (offset : Nat) : BitVec 32 :=
  if offset + 4 > bytes.length then 0 else intAt bytes offset

/-- The memory operand of an instruction. -/
structure MemOperand where
  memDisp : Int64 := 0
  memBaseReg : Nat := 0
  memIndexReg : Nat := 0
  memScale : Nat := 0

/-- The memory operand whose opcode is at `off`, with its REX prefix or 0. -/
def memOperandAt (bytes : List Byte) (off : Nat) (rex : Byte) : MemOperand :=
  if off + 1 < bytes.length then
    let modrm := bytes.getD (off + 1) 0
    let mod := modrm >>> 6 &&& 0x03
    let rm := modrm &&& 0x07
    if mod ≠ 3 then
      if mod = 0 ∧ rm = 5 then
        if off + 5 < bytes.length then { memDisp := Int64.ofInt (readIntLE bytes (off + 2)).toInt } else {}
      else if rm = 4 then
        if off + 2 < bytes.length then
          let sib := bytes.getD (off + 2) 0
          let base := (sib &&& 0x07).toNat
          let index := (sib >>> 3 &&& 0x07).toNat
          let scale := (sib >>> 6 &&& 0x03).toNat
          { memBaseReg := if rex &&& 0x01 ≠ 0 then 62 + base + 8 else 62 + base
            memIndexReg := if index ≠ 4 then if rex &&& 0x02 ≠ 0 then 62 + index + 8 else 62 + index else 0
            memScale := if index ≠ 4 then 1 <<< scale else 0 }
        else {}
      else { memBaseReg := if rex &&& 0x01 ≠ 0 then 62 + rm.toNat + 8 else 62 + rm.toNat }
    else {}
  else {}

def memOperand (bytes : List Byte) (offset len kind : Nat) : Option MemOperand :=
  if kind &&& 0x10 ≠ 0 then
    match skipUpTo bytes (offset + len) offset with
    | none => none
    | some off =>
      let before := bytes.getD (off - 1) 0
      some (memOperandAt bytes off (if off > offset ∧ before &&& 0xF0 = 0x40 then before else 0))
  else some {}

def createInstr (bytes : List Byte) (offset : Nat) (addr : Int64) (len kind : Nat) : Option Ps5DisasmInstr :=
  let rel :=
    if kind &&& 0x01 ≠ 0 ∨ kind &&& 0x04 ≠ 0 ∨ kind &&& 0x08 ≠ 0 then calculateRelTarget bytes offset addr len
      else some 0
  match rel, memOperand bytes offset len kind with
  | some target, some mem =>
    some ⟨addr, target, mem.memDisp, len, kind, mem.memBaseReg, mem.memIndexReg, mem.memScale, 0, 0⟩
  | _, _ => none

/-- The instruction at an offset. -/
def instrAt (bytes : List Byte) (offset : Nat) (addr : Int64) : Option Ps5DisasmInstr :=
  let len := getInstructionLength bytes offset
  match inferKind bytes offset len with
  | none => none
  | some kind => createInstr bytes offset addr len kind

/-! ## Strings and zeros -/

/-- The loop of `isPrintableString`. -/
def printableFrom (bytes : List Byte) (offset len : Nat) : Nat :=
  if _h : offset + len < bytes.length then
    let b := bytes[offset + len]
    if b = 0 then if len ≥ 4 then len + 1 else 0
    else if b < 0x20 ∨ b > 0x7E then 0
    else printableFrom bytes offset (len + 1)
  else if len ≥ 8 then len else 0
termination_by bytes.length - (offset + len)

def isPrintableString (bytes : List Byte) (offset : Nat) : Nat :=
  if offset ≥ bytes.length then 0 else printableFrom bytes offset 0

variable (bytes : List Byte) (baseAddr : Int64) (syncAddresses : Int64 → Bool)

/-- The address of an offset. -/
def addrOf (offset : Nat) : Int64 := baseAddr + Int64.ofNat offset

/-- The loop over a run of zeros. -/
def zeroLenFrom (offset zeroLen : Nat) : Nat :=
  if offset + zeroLen < bytes.length ∧ bytes.getD (offset + zeroLen) 0 = 0 ∧ zeroLen < 16 ∧
      !syncAddresses (addrOf baseAddr (offset + zeroLen)) then
    zeroLenFrom offset (zeroLen + 1)
  else zeroLen
termination_by 16 - zeroLen

/-! ## The sweep -/

/-- What comes next at an offset. -/
inductive Piece : Type where
  | instruction
  | string (strLen : Nat)
  | zeros (zeroLen : Nat)
  deriving DecidableEq

def pieceAt (offset : Nat) : Piece :=
  if syncAddresses (addrOf baseAddr offset) then .instruction
  else if isPrintableString bytes offset > 0 then .string (isPrintableString bytes offset)
  else if bytes.getD offset 0 = 0 then .zeros (zeroLenFrom bytes baseAddr syncAddresses offset 1)
  else .instruction

/-- How far the sweep goes on. -/
def pieceLength (offset : Nat) : Nat :=
  match pieceAt bytes baseAddr syncAddresses offset with
  | .instruction => getInstructionLength bytes offset
  | .string n => n
  | .zeros n => n

def entryAt (offset : Nat) : Option Ps5DisasmInstr :=
  match pieceAt bytes baseAddr syncAddresses offset with
  | .instruction => instrAt bytes offset (addrOf baseAddr offset)
  | .string n => some (.data (addrOf baseAddr offset) n 0x100)
  | .zeros n => some (.data (addrOf baseAddr offset) n 0x200)

/-! ## How long an entry is -/

section Lengths

variable {bytes : List Byte} {offset : Nat}

theorem getModRMLength_le {pos : Nat} : getModRMLength bytes pos ≤ 10 := by
  rw [getModRMLength]
  dsimp only
  repeat' split
  all_goals omega

theorem opcodeLength_pos : 0 < opcodeLength bytes offset := by
  rw [opcodeLength]
  dsimp only
  repeat' split
  all_goals omega

theorem opcodeLength_le : opcodeLength bytes offset ≤ 15 := by
  have := @getModRMLength_le bytes (offset + 1)
  rw [opcodeLength]
  dsimp only
  repeat' split
  all_goals omega

/-- An instruction is its prefixes and what is from the opcode on, or prefixes up to the end. -/
theorem getInstructionLength_eq (h : offset < bytes.length) :
    (skipPrefixes bytes offset < bytes.length ∧
        offset + getInstructionLength bytes offset =
          skipPrefixes bytes offset + opcodeLength bytes (skipPrefixes bytes offset)) ∨
      (skipPrefixes bytes offset = bytes.length ∧ offset + getInstructionLength bytes offset = bytes.length) := by
  obtain ⟨hle, hin, -⟩ := skipPrefixes_spec (le_of_lt h)
  rw [getInstructionLength, if_neg (Nat.not_le.mpr h)]
  dsimp only
  split
  · rename_i hend
    right
    omega
  · rename_i hop
    left
    omega

theorem getInstructionLength_pos : 0 < getInstructionLength bytes offset := by
  have := @opcodeLength_pos bytes (skipPrefixes bytes offset)
  rw [getInstructionLength]
  dsimp only
  repeat' split
  all_goals omega

/-- An instruction that is cut off misses a few bytes only. -/
theorem getInstructionLength_le (h : offset < bytes.length) :
    offset + getInstructionLength bytes offset ≤ bytes.length + 14 := by
  have := @opcodeLength_le bytes (skipPrefixes bytes offset)
  rcases getInstructionLength_eq h with ⟨hlt, heq⟩ | ⟨-, heq⟩ <;> omega

/-- A string lies in the array. -/
theorem printableFrom_le {len : Nat} (h : offset + len ≤ bytes.length) :
    offset + printableFrom bytes offset len ≤ bytes.length := by
  induction hn : bytes.length - (offset + len) generalizing len with
  | zero =>
    rw [printableFrom, dif_neg (by omega)]
    split <;> omega
  | succ n ih =>
    have hlt : offset + len < bytes.length := by omega
    rw [printableFrom, dif_pos hlt]
    dsimp only
    split
    · split <;> omega
    · split
      · omega
      · exact @ih (len + 1) (by omega) (by omega)

theorem isPrintableString_le (h : offset < bytes.length) : offset + isPrintableString bytes offset ≤ bytes.length := by
  rw [isPrintableString, if_neg (Nat.not_le.mpr h)]
  exact printableFrom_le (le_of_lt h)

variable {baseAddr : Int64} {syncAddresses : Int64 → Bool}

/-- A run of zeros lies in the array, and no sync address lies behind its first byte. -/
theorem zeroLenFrom_spec {zeroLen : Nat} (h : offset + zeroLen ≤ bytes.length) :
    zeroLen ≤ zeroLenFrom bytes baseAddr syncAddresses offset zeroLen ∧
      offset + zeroLenFrom bytes baseAddr syncAddresses offset zeroLen ≤ bytes.length ∧
      ∀ k, zeroLen ≤ k → k < zeroLenFrom bytes baseAddr syncAddresses offset zeroLen →
        syncAddresses (addrOf baseAddr (offset + k)) = false := by
  induction hn : 16 - zeroLen generalizing zeroLen with
  | zero =>
    rw [zeroLenFrom, if_neg (by omega)]
    exact ⟨le_refl _, h, fun k hlo hhi => absurd hhi (by omega)⟩
  | succ n ih =>
    rw [zeroLenFrom]
    split
    · rename_i hgo
      obtain ⟨hle, hin, hsync⟩ := @ih (zeroLen + 1) (by omega) (by omega)
      refine ⟨by omega, hin, fun k hlo hhi => ?_⟩
      rcases Nat.eq_or_lt_of_le hlo with rfl | hlo
      · exact (Bool.not_eq_true' _).mp hgo.2.2.2
      · exact hsync k hlo hhi
    · exact ⟨le_refl _, h, fun k hlo hhi => absurd hhi (by omega)⟩

/-- The sweep goes on, and leaves the array with an instruction only. -/
theorem pieceLength_spec (h : offset < bytes.length) :
    0 < pieceLength bytes baseAddr syncAddresses offset ∧
      (pieceAt bytes baseAddr syncAddresses offset ≠ .instruction →
        offset + pieceLength bytes baseAddr syncAddresses offset ≤ bytes.length) := by
  have hstring := isPrintableString_le h
  have hzeros := @zeroLenFrom_spec bytes offset baseAddr syncAddresses 1 h
  rw [pieceLength, pieceAt]
  split_ifs with hsync hprint hzero
  · exact ⟨getInstructionLength_pos, fun hne => absurd rfl hne⟩
  · exact ⟨hprint, fun _ => hstring⟩
  · exact ⟨hzeros.1, fun _ => hzeros.2.1⟩
  · exact ⟨getInstructionLength_pos, fun hne => absurd rfl hne⟩

end Lengths

/-! ## Which instructions throw -/

section Throws

variable {bytes : List Byte} {offset : Nat} {addr : Int64}

/-- A loop over prefixes that can go past the opcode stops there. -/
theorem skipUpTo_opcode {stop off : Nat} (hin : skipPrefixes bytes off < bytes.length)
    (hstop : skipPrefixes bytes off < stop) : skipUpTo bytes stop off = some (skipPrefixes bytes off) := by
  induction hn : bytes.length - off generalizing off with
  | zero =>
    rw [skipPrefixes_of_le (by omega)] at hin
    omega
  | succ n ih =>
    have hlt : off < bytes.length := by omega
    have hle := (skipPrefixes_spec (le_of_lt hlt)).1
    rw [skipUpTo, dif_pos (by omega), List.getElem?_eq_getElem hlt]
    dsimp only
    cases hp : isPrefix bytes[off] with
    | true =>
      rw [skipPrefixes_next hlt hp] at hin hstop ⊢
      exact ih hin hstop (by omega)
    | false =>
      rw [skipPrefixes_stop hlt hp]
      rfl

/-- A loop over prefixes up to the end of the array. -/
theorem skipUpTo_end {off : Nat} (h : off ≤ bytes.length) :
    skipUpTo bytes bytes.length off = some (skipPrefixes bytes off) := by
  induction hn : bytes.length - off generalizing off with
  | zero =>
    rw [skipUpTo, dif_neg (by omega), skipPrefixes_of_le (by omega)]
  | succ n ih =>
    have hlt : off < bytes.length := by omega
    rw [skipUpTo, dif_pos hlt, List.getElem?_eq_getElem hlt]
    dsimp only
    cases hp : isPrefix bytes[off] with
    | true =>
      rw [skipPrefixes_next hlt hp]
      exact ih hlt (by omega)
    | false =>
      rw [skipPrefixes_stop hlt hp]
      rfl

/-- The loops over the prefixes of an instruction end where its length says. -/
theorem skipUpTo_instruction (h : offset < bytes.length) :
    skipUpTo bytes (offset + getInstructionLength bytes offset) offset = some (skipPrefixes bytes offset) := by
  rcases getInstructionLength_eq h with ⟨hin, hlen⟩ | ⟨hend, hlen⟩
  · have := @opcodeLength_pos bytes (skipPrefixes bytes offset)
    exact skipUpTo_opcode hin (by omega)
  · rw [hlen, skipUpTo_end (le_of_lt h)]

/-- The instruction is cut off behind an opcode with an immediate, which is taken for ModRM. -/
def Throws (bytes : List Byte) (offset : Nat) : Prop :=
  skipPrefixes bytes offset + 1 = bytes.length ∧
    bytes.getD (skipPrefixes bytes offset) 0 ∈ [(0x81 : Byte), 0x83, 0xC6, 0xC7]

/-- At the end of the array only an immediate makes an opcode longer than itself. -/
theorem opcodeLength_last {off : Nat} (hlast : bytes.length ≤ off + 1) (hb : bytes.getD off 0 ∈ modrmSet) :
    1 < opcodeLength bytes off ↔ bytes.getD off 0 ∈ [(0x81 : Byte), 0x83, 0xC6, 0xC7] := by
  have hmod : getModRMLength bytes (off + 1) = 0 := by
    rw [getModRMLength, if_pos hlast]
  rw [opcodeLength, hmod]
  dsimp only
  generalize bytes.getD off 0 = b0 at hb ⊢
  generalize bytes.getD (off + 1) 0 = b1
  simp only [modrmSet, List.mem_cons, List.not_mem_nil, or_false] at hb
  rcases hb with rfl | rfl | rfl | rfl | rfl | rfl | rfl | rfl | rfl | rfl | rfl | rfl | rfl | rfl | rfl | rfl | rfl |
    rfl | rfl | rfl | rfl <;> simp

/-- The kind of an instruction with an opcode. -/
theorem inferKind_opcode (h : offset < bytes.length) (hin : skipPrefixes bytes offset < bytes.length) :
    inferKind bytes offset (getInstructionLength bytes offset) =
      if bytes.getD (skipPrefixes bytes offset) 0 ∈ modrmSet ∧ 1 < opcodeLength bytes (skipPrefixes bytes offset) then
        bytes[skipPrefixes bytes offset + 1]?.map fun modrm =>
          branchKind (bytes.getD (skipPrefixes bytes offset) 0) (bytes.getD (skipPrefixes bytes offset + 1) 0) |||
            memoryKind (bytes.getD (skipPrefixes bytes offset) 0) modrm
      else
        some (branchKind (bytes.getD (skipPrefixes bytes offset) 0)
          (bytes.getD (skipPrefixes bytes offset + 1) 0)) := by
  have hpos := @opcodeLength_pos bytes (skipPrefixes bytes offset)
  have hlen : offset + getInstructionLength bytes offset =
      skipPrefixes bytes offset + opcodeLength bytes (skipPrefixes bytes offset) := by
    rcases getInstructionLength_eq h with ⟨-, hlen⟩ | ⟨hend, -⟩
    · exact hlen
    · omega
  have hget : bytes[skipPrefixes bytes offset]? = some (bytes.getD (skipPrefixes bytes offset) 0) := by
    rw [List.getD_eq_getElem?_getD, List.getElem?_eq_getElem hin, Option.getD_some]
  have hmore : skipPrefixes bytes offset + 1 < offset + getInstructionLength bytes offset ↔
      1 < opcodeLength bytes (skipPrefixes bytes offset) := by omega
  rw [inferKind, skipUpTo_instruction h]
  dsimp only
  rw [if_neg (by omega), hget]
  dsimp only
  simp only [hmore]
  split
  · cases bytes[skipPrefixes bytes offset + 1]? <;> rfl
  · rfl

theorem branchKind_lt (b0 b1 : Byte) : branchKind b0 b1 < 2 ^ 4 := by
  rw [branchKind]
  refine Nat.or_lt_two_pow (Nat.or_lt_two_pow (Nat.or_lt_two_pow ?_ ?_) ?_) ?_
  all_goals
    split
    all_goals decide

theorem memoryKind_lt (b0 modrm : Byte) : memoryKind b0 modrm < 2 ^ 8 := by
  rw [memoryKind]
  refine Nat.or_lt_two_pow (Nat.or_lt_two_pow ?_ ?_) ?_
  all_goals
    split
    all_goals decide

/-- The kind of an instruction is there unless it throws, and it is no kind of data. -/
theorem inferKind_spec (h : offset < bytes.length) :
    (Throws bytes offset → inferKind bytes offset (getInstructionLength bytes offset) = none) ∧
      (¬ Throws bytes offset →
        ∃ kind < 2 ^ 8, inferKind bytes offset (getInstructionLength bytes offset) = some kind) := by
  have hsmall (b0 b1 : Byte) : branchKind b0 b1 < 2 ^ 8 := lt_trans (branchKind_lt b0 b1) (by decide)
  rcases (skipPrefixes_spec (le_of_lt h)).2.1.lt_or_eq with hin | hend
  · rw [inferKind_opcode h hin]
    constructor
    · rintro ⟨hlast, hop⟩
      have hmem : bytes.getD (skipPrefixes bytes offset) 0 ∈ modrmSet := by
        simp only [List.mem_cons, List.not_mem_nil, or_false] at hop
        rcases hop with hop | hop | hop | hop <;> rw [hop] <;> decide
      rw [if_pos ⟨hmem, (opcodeLength_last (by omega) hmem).mpr hop⟩, List.getElem?_eq_none (by omega), Option.map_none]
    · intro hno
      split
      · rename_i hmod
        have hnext : skipPrefixes bytes offset + 1 < bytes.length := by
          by_contra hlast
          exact hno ⟨by omega, (opcodeLength_last (by omega) hmod.1).mp hmod.2⟩
        rw [List.getElem?_eq_getElem hnext, Option.map_some]
        exact ⟨_, Nat.or_lt_two_pow (hsmall _ _) (memoryKind_lt _ _), rfl⟩
      · exact ⟨_, hsmall _ _, rfl⟩
  · -- nothing but prefixes up to the end
    have hlen : offset + getInstructionLength bytes offset = bytes.length := by
      rcases getInstructionLength_eq h with ⟨hin, -⟩ | ⟨-, hlen⟩
      · omega
      · exact hlen
    have hkind : inferKind bytes offset (getInstructionLength bytes offset) = some 0 := by
      rw [inferKind, skipUpTo_instruction h]
      dsimp only
      rw [if_pos (by omega)]
    refine ⟨fun hthrow => ?_, fun _ => ⟨0, by decide, hkind⟩⟩
    have := hthrow.1
    omega

/-- Nothing throws once the kind is there. -/
theorem createInstr_spec (h : offset < bytes.length) (kind : Nat) :
    ∃ instr, createInstr bytes offset addr (getInstructionLength bytes offset) kind = some instr ∧
      instr.addr = addr ∧ instr.length = getInstructionLength bytes offset ∧ instr.kind = kind ∧
      ((kind &&& 0x01 ≠ 0 ∨ kind &&& 0x04 ≠ 0 ∨ kind &&& 0x08 ≠ 0) → skipPrefixes bytes offset < bytes.length →
        instr.ripRelTarget = relTarget bytes (skipPrefixes bytes offset) instr.next) ∧
      (¬ (kind &&& 0x01 ≠ 0 ∨ kind &&& 0x04 ≠ 0 ∨ kind &&& 0x08 ≠ 0) → instr.ripRelTarget = 0) := by
  obtain ⟨mem, hmem⟩ : ∃ mem, memOperand bytes offset (getInstructionLength bytes offset) kind = some mem := by
    rw [memOperand, skipUpTo_instruction h]
    split
    · exact ⟨_, rfl⟩
    · exact ⟨_, rfl⟩
  rw [createInstr, calculateRelTarget, skipUpTo_instruction h, hmem]
  dsimp only
  split_ifs with hbranch hpast
  · exact ⟨_, rfl, rfl, rfl, rfl, fun _ hin => absurd hin (Nat.not_lt.mpr hpast), fun hno => absurd hbranch hno⟩
  · exact ⟨_, rfl, rfl, rfl, rfl, fun _ _ => rfl, fun hno => absurd hbranch hno⟩
  · exact ⟨_, rfl, rfl, rfl, rfl, fun hno => absurd hno hbranch, fun _ => rfl⟩

theorem instrAt_of_throws (h : offset < bytes.length) (hthrow : Throws bytes offset) :
    instrAt bytes offset addr = none := by
  rw [instrAt]
  rw [(inferKind_spec h).1 hthrow]

/-- The instruction at an offset, when it does not throw. -/
theorem instrAt_of_not_throws (h : offset < bytes.length) (hno : ¬ Throws bytes offset) :
    ∃ instr, instrAt bytes offset addr = some instr ∧ instr.addr = addr ∧
      instr.length = getInstructionLength bytes offset ∧ instr.kind < 2 ^ 8 := by
  obtain ⟨kind, hlt, hkind⟩ := (inferKind_spec h).2 hno
  obtain ⟨instr, hinstr, haddr, hlen, hk, -⟩ := @createInstr_spec bytes offset addr h kind
  refine ⟨instr, ?_, haddr, hlen, hk ▸ hlt⟩
  rw [instrAt]
  rw [hkind]
  exact hinstr

end Throws

end LocalDisassembler

end Ps5Debugger

import Ps5Debugger.Debug
import Ps5Debugger.Target

/-!
# Disassembling a region

`disasm_iterate` (`proc.c`) reads a region in chunks, decodes it instruction by instruction and hands
each one to a callback, up to a number of instructions. A chunk ends early when the next instruction
could run past it; a byte that does not decode is skipped.

The chunk is not cleared: where the process cannot be read it holds what the heap, or the chunk
before, left in it, and that is decoded. The decoder is any function. What the callbacks see does not depend on
which one it is:
`disasmIterate_eq` says that every run is a fold over `disasmRecords`.
-/

namespace Ps5Debugger

open Lib

/-! ## Instructions -/

/-- `op->mem` and the actions of a memory operand; `disp` is the bits of the displacement. -/
structure MemOperand where
  base : Nat
  index : Nat
  scale : UInt8
  hasDisplacement : Bool
  disp : UInt64
  read : Bool
  write : Bool
  deriving DecidableEq

/-- A visible operand. -/
inductive Operand : Type where
  | memory (mem : MemOperand)
  | other
  deriving DecidableEq

/-- `ZydisRegister` -/
def ZYDIS_REGISTER_RIP : Nat := 197

/-- The instruction categories that a record tells apart. -/
inductive InsnCategory : Type where
  | call | ret | uncondBr | condBr | other
  deriving DecidableEq

/-- A decoded instruction with its visible operands. -/
structure Insn where
  length : Nat
  nonempty : 0 < length
  short : length ≤ 15
  mnemonic : UInt16
  category : InsnCategory
  operands : List Operand
  deriving DecidableEq

/-- `ZydisDecoderDecodeFull`, and the text of `ZydisFormatterFormatInstruction` at an address. -/
structure Zydis where
  decode : List Byte → Option Insn
  format : Insn → Nat → List Byte

/-! ## Records -/

/-- `disasm_instr_entry` -/
structure DisasmInstrEntry where
  addr : Nat
  rip_rel_target : Nat := 0
  mem_disp : UInt64 := 0
  length : Nat
  kind : UInt8
  mem_base_reg : Nat := 0
  mem_index_reg : Nat := 0
  mem_scale : UInt8 := 0
  mnemonic : UInt16
  text : List Byte
  deriving DecidableEq

/-- `addr + insn->length + (uint64_t)op->mem.disp.value` -/
def ripTarget (addr : Nat) (insn : Insn) (mem : MemOperand) : Nat :=
  u64 (addr + insn.length + mem.disp.toNat)

/-- The bits of `kind` for a category. -/
def InsnCategory.kind : InsnCategory → UInt8
  | call => 0x01
  | ret => 0x02
  | uncondBr => 0x04
  | condBr => 0x08
  | other => 0

/-- The operand loop of `disasm_fill_entry`: the first memory operand. -/
def fillOperand (addr : Nat) (insn : Insn) (out : DisasmInstrEntry) : List Operand → DisasmInstrEntry
  | [] => out
  | .other :: ops => fillOperand addr insn out ops
  | .memory mem :: _ =>
    let kind := out.kind ||| 0x10 ||| (if mem.read then 0x40 else 0) ||| (if mem.write then 0x80 else 0)
    let out := { out with
      kind
      mem_base_reg := mem.base % 0x100
      mem_index_reg := mem.index % 0x100
      mem_scale := mem.scale
      mem_disp := if mem.hasDisplacement then mem.disp else 0 }
    if mem.base = ZYDIS_REGISTER_RIP then
      { out with kind := kind ||| 0x20, rip_rel_target := ripTarget addr insn mem }
    else out

/-- `disasm_fill_entry` -/
def disasmFillEntry (z : Zydis) (addr : Nat) (insn : Insn) : DisasmInstrEntry :=
  fillOperand addr insn
    { addr, length := insn.length, kind := insn.category.kind, mnemonic := insn.mnemonic
      text := z.format insn addr } insn.operands

/-- Bit `0x20` of `kind`. -/
def DisasmInstrEntry.ripRelative (e : DisasmInstrEntry) : Bool := e.kind &&& 0x20 != 0

/-! ## `disasm_iterate` -/

/-- What a pointer argument of a callback points to. -/
inductive DisasmArg : Type where
  | formatter | ctx
  deriving DecidableEq

/-- `disasm_emit_fn`: the address, the instruction with its operands, the formatter, the context. A
callback that kills the process returns nothing. -/
abbrev DisasmEmitFn (σ : Type) : Type := Nat → Insn → DisasmArg → DisasmArg → σ → Option σ

/-- `DISASM_READ_CHUNK` -/
def DISASM_READ_CHUNK : Nat := 0x10000

/-- The reads of the process by one command, and its chunk as it was allocated. -/
structure ChunkIo where
  read : ProcRead
  chunk : Buf

/-- A process that can be read all over. -/
def ChunkIo.ofMemory (mem : Memory) (chunk : Buf) : ChunkIo := ⟨fun addr len buf => readInto mem buf addr len, chunk⟩

section Iterate

variable {σ : Type} (z : Zydis) (emit : DisasmEmitFn σ) (maxInstrs : Nat)

/-- The loop over one chunk, read from `addr`; `more` says that the region goes on behind it. Returns
`pos`, `emitted` and the state. -/
def disasmChunk (addr : Nat) (chunk : List Byte) (more : Bool) (pos emitted : Nat) (s : σ) :
    Option (Nat × Nat × σ) :=
  if pos < chunk.length ∧ emitted < maxInstrs then
    match z.decode (chunk.drop pos) with
    | none => disasmChunk addr chunk more (pos + 1) emitted s
    | some insn =>
      match emit (u64 (addr + pos)) insn .formatter .ctx s with
      | none => none
      | some s =>
        if chunk.length < pos + insn.length + 15 ∧ more = true then some (pos + insn.length, emitted + 1, s)
        else disasmChunk addr chunk more (pos + insn.length) (emitted + 1) s
  else some (pos, emitted, s)
termination_by chunk.length - pos
decreasing_by
  · omega
  · have := insn.nonempty
    omega

/-- The loop over the region from `off` on. -/
def disasmLoop (io : ChunkIo) (start length off emitted : Nat) (s : σ) : Option σ :=
  if off < length ∧ emitted < maxInstrs then
    let remaining := length - off
    let readLen := if remaining > DISASM_READ_CHUNK then DISASM_READ_CHUNK else remaining
    let chunk := io.read (u64 (start + off)) readLen io.chunk
    match disasmChunk z emit maxInstrs (u64 (start + off)) (slice chunk 0 readLen) (decide (remaining > readLen)) 0
        emitted s with
    | none => none
    | some (pos, emitted, s) => disasmLoop { io with chunk } start length (off + if pos > 0 then pos else 1) emitted s
  else some s
termination_by length - off
decreasing_by
  split <;> omega

/-- `disasm_iterate`; nothing is emitted when its chunk cannot be allocated. -/
def disasmIterate (io : ChunkIo) (chunkAlloc : Bool) (start : Nat) (length : UInt32) (s : σ) : Option σ :=
  if chunkAlloc then disasmLoop z emit maxInstrs io start length.toNat 0 0 s else some s

end Iterate

/-! ## `CMD_PROC_DISASM_REGION` -/

/-- `DISASM_INSTR_ENTRY_SIZE` -/
def DISASM_INSTR_ENTRY_SIZE : Nat := 160

/-- `disasm_ctx`: what was sent, and the records in `out_buf`. -/
structure DisasmCtx where
  sent : List DisasmInstrEntry := []
  outBuf : List DisasmInstrEntry := []

/-- `out_used` -/
def DisasmCtx.outUsed (c : DisasmCtx) : Nat := c.outBuf.length * DISASM_INSTR_ENTRY_SIZE

/-- `disasm_emit_record`; its context is the fifth argument. -/
def disasmEmitRecord (z : Zydis) : DisasmEmitFn DisasmCtx := fun addr insn _ ctx_ c =>
  match ctx_ with
  | .formatter => none
  | .ctx =>
    let c := if c.outUsed + DISASM_INSTR_ENTRY_SIZE > 0x10000 then ⟨c.sent ++ c.outBuf, []⟩ else c
    some { c with outBuf := c.outBuf ++ [disasmFillEntry z addr insn] }

/-- `cmd_proc_disasm_packet` without the pid. -/
structure DisasmPacket where
  address : UInt64
  length : UInt32
  max_entries : UInt32

/-- What a client receives: status words, records, and whether the sentinel came. -/
structure DisasmReply where
  replies : List UInt32
  entries : List DisasmInstrEntry := []
  sentinel : Bool := false

/-- `proc_disasm_region_handle`; `bufAlloc` and `chunkAlloc` say which allocations succeed. -/
def procDisasmRegionHandle (z : Zydis) (io : ChunkIo) (data : Option DisasmPacket) (bufAlloc chunkAlloc : Bool) :
    Option DisasmReply :=
  match data with
  | none => some { replies := [CMD_DATA_NULL] }
  | some dp =>
    if dp.max_entries = 0 ∨ dp.max_entries > 1000000 then some { replies := [CMD_ERROR] }
    else if bufAlloc = false then some { replies := [CMD_DATA_NULL] }
    else
      (disasmIterate z (disasmEmitRecord z) dp.max_entries.toNat io chunkAlloc dp.address.toNat dp.length {}).map
        fun c => { replies := [CMD_SUCCESS], entries := c.sent ++ c.outBuf, sentinel := true }

/-! ## Every run is a fold -/

/-- The callback that takes down what it is given. -/
def recordEmit : DisasmEmitFn (List (Nat × Insn)) := fun addr insn _ _ l => some (l ++ [(addr, insn)])

/-- The instructions of a region with their addresses, up to a limit. -/
def disasmRecords (z : Zydis) (io : ChunkIo) (start : Nat) (length : UInt32) (maxInstrs : Nat) :
    List (Nat × Insn) :=
  (disasmIterate z recordEmit maxInstrs io true start length []).getD []

/-- A callback over a list of records. -/
def emitRecords {σ : Type} (emit : DisasmEmitFn σ) (rs : List (Nat × Insn)) (s : σ) : Option σ :=
  rs.foldlM (fun s r => emit r.1 r.2 .formatter .ctx s) s

theorem emitRecords_cons {σ : Type} (emit : DisasmEmitFn σ) (r : Nat × Insn) (rs : List (Nat × Insn)) (s : σ) :
    emitRecords emit (r :: rs) s = (emit r.1 r.2 .formatter .ctx s).bind (emitRecords emit rs) := rfl

theorem emitRecords_append {σ : Type} (emit : DisasmEmitFn σ) (rs rs' : List (Nat × Insn)) (s : σ) :
    emitRecords emit (rs ++ rs') s = (emitRecords emit rs s).bind (emitRecords emit rs') := List.foldlM_append

theorem emitRecords_record (rs l : List (Nat × Insn)) : emitRecords recordEmit rs l = some (l ++ rs) := by
  induction rs generalizing l with
  | nil => rw [List.append_nil]; rfl
  | cons r rs ih =>
    rw [emitRecords_cons, recordEmit, Option.bind_some, ih, List.append_assoc]
    rfl

section Fold

variable (z : Zydis) (maxInstrs : Nat)

/-- A chunk holds the same instructions for every callback. -/
theorem disasmChunk_fold (addr : Nat) (chunk : List Byte) (more : Bool) (pos emitted : Nat) :
    ∃ rs pos' emitted', ∀ {σ : Type} (emit : DisasmEmitFn σ) (s : σ),
      disasmChunk z emit maxInstrs addr chunk more pos emitted s =
        (emitRecords emit rs s).map fun s => (pos', emitted', s) := by
  induction hm : chunk.length - pos using Nat.strong_induction_on generalizing pos emitted with
  | _ m ih =>
    subst hm
    by_cases hgo : pos < chunk.length ∧ emitted < maxInstrs
    · cases hdec : z.decode (chunk.drop pos) with
      | none =>
        obtain ⟨rs, pos', emitted', h⟩ := ih _ (by omega) (pos + 1) emitted rfl
        refine ⟨rs, pos', emitted', fun emit s => ?_⟩
        rw [disasmChunk, if_pos hgo, hdec]
        exact h emit s
      | some insn =>
        have hpos := insn.nonempty
        by_cases hstop : chunk.length < pos + insn.length + 15 ∧ more = true
        · refine ⟨[(u64 (addr + pos), insn)], pos + insn.length, emitted + 1, fun emit s => ?_⟩
          rw [disasmChunk, if_pos hgo, hdec, emitRecords_cons]
          dsimp only
          cases emit (u64 (addr + pos)) insn .formatter .ctx s with
          | none => rfl
          | some s' => exact if_pos hstop
        · obtain ⟨rs, pos', emitted', h⟩ := ih _ (by omega) (pos + insn.length) (emitted + 1) rfl
          refine ⟨(u64 (addr + pos), insn) :: rs, pos', emitted', fun emit s => ?_⟩
          rw [disasmChunk, if_pos hgo, hdec, emitRecords_cons]
          dsimp only
          cases emit (u64 (addr + pos)) insn .formatter .ctx s with
          | none => rfl
          | some s' => exact (if_neg hstop).trans (h emit s')
    · refine ⟨[], pos, emitted, fun emit s => ?_⟩
      rw [disasmChunk, if_neg hgo]
      rfl

/-- So does a region. -/
theorem disasmLoop_fold (io : ChunkIo) (start length off emitted : Nat) :
    ∃ rs, ∀ {σ : Type} (emit : DisasmEmitFn σ) (s : σ),
      disasmLoop z emit maxInstrs io start length off emitted s = emitRecords emit rs s := by
  induction hm : length - off using Nat.strong_induction_on generalizing io off emitted with
  | _ m ih =>
    subst hm
    by_cases hgo : off < length ∧ emitted < maxInstrs
    · let readLen := if length - off > DISASM_READ_CHUNK then DISASM_READ_CHUNK else length - off
      obtain ⟨rs, pos, emitted', hchunk⟩ := disasmChunk_fold z maxInstrs (u64 (start + off))
        (slice (io.read (u64 (start + off)) readLen io.chunk) 0 readLen) (decide (length - off > readLen)) 0 emitted
      have hstep : 0 < if pos > 0 then pos else 1 := by split <;> omega
      obtain ⟨rs', h⟩ := ih _ (by omega) { io with chunk := io.read (u64 (start + off)) readLen io.chunk }
        (off + if pos > 0 then pos else 1) emitted' rfl
      refine ⟨rs ++ rs', fun emit s => ?_⟩
      rw [disasmLoop, if_pos hgo]
      dsimp only
      rw [hchunk emit s, emitRecords_append]
      cases emitRecords emit rs s with
      | none => rfl
      | some s' => exact h emit s'
    · refine ⟨[], fun emit s => ?_⟩
      rw [disasmLoop, if_neg hgo]
      rfl

/-- **Every callback is given the records of the region, in order.** -/
theorem disasmIterate_eq {σ : Type} (emit : DisasmEmitFn σ) (io : ChunkIo) (start : Nat) (length : UInt32)
    (s : σ) : disasmIterate z emit maxInstrs io true start length s =
      emitRecords emit (disasmRecords z io start length maxInstrs) s := by
  obtain ⟨rs, h⟩ := disasmLoop_fold z maxInstrs io start length.toNat 0 0
  have hrs : disasmRecords z io start length maxInstrs = rs := by
    rw [disasmRecords, disasmIterate, if_pos rfl, h, emitRecords_record, List.nil_append, Option.getD_some]
  rw [hrs, disasmIterate, if_pos rfl, h]

end Fold

/-! ## The stream of DISASM_REGION -/

/-- The records as the client receives them. -/
def disasmEntries (z : Zydis) (io : ChunkIo) (start : Nat) (length : UInt32) (maxInstrs : Nat) :
    List DisasmInstrEntry :=
  (disasmRecords z io start length maxInstrs).map fun r => disasmFillEntry z r.1 r.2

/-- The buffer never holds more than its 0x10000 bytes, and nothing is lost between it and the socket. -/
theorem emitRecords_disasmEmitRecord (z : Zydis) (rs : List (Nat × Insn)) (c : DisasmCtx) (hc : c.outUsed ≤ 0x10000) :
    ∃ c', emitRecords (disasmEmitRecord z) rs c = some c' ∧ c'.outUsed ≤ 0x10000 ∧
      c'.sent ++ c'.outBuf = c.sent ++ c.outBuf ++ rs.map fun r => disasmFillEntry z r.1 r.2 := by
  induction rs generalizing c with
  | nil => exact ⟨c, rfl, hc, by rw [List.map_nil, List.append_nil]⟩
  | cons r rs ih =>
    rw [emitRecords_cons, disasmEmitRecord, Option.bind_some]
    by_cases hfull : c.outUsed + DISASM_INSTR_ENTRY_SIZE > 0x10000
    · rw [if_pos hfull]
      have hnext : 1 * DISASM_INSTR_ENTRY_SIZE ≤ 0x10000 := by decide
      obtain ⟨c', hrun, hused, heq⟩ := ih ⟨c.sent ++ c.outBuf, [disasmFillEntry z r.1 r.2]⟩ hnext
      refine ⟨c', hrun, hused, heq.trans ?_⟩
      rw [List.map_cons, List.append_assoc, List.singleton_append]
    · rw [if_neg hfull]
      have hnext : (c.outBuf ++ [disasmFillEntry z r.1 r.2]).length * DISASM_INSTR_ENTRY_SIZE ≤ 0x10000 := by
        rw [List.length_append, List.length_singleton, Nat.add_mul, Nat.one_mul]
        exact Nat.not_lt.mp hfull
      obtain ⟨c', hrun, hused, heq⟩ := ih ⟨c.sent, c.outBuf ++ [disasmFillEntry z r.1 r.2]⟩ hnext
      refine ⟨c', hrun, hused, heq.trans ?_⟩
      rw [List.map_cons, List.append_assoc, List.append_assoc, List.append_assoc, List.singleton_append]

/-! ## What a record tells -/

/-- The first memory operand, if it is RIP-relative. -/
def ripOperand : List Operand → Option MemOperand
  | [] => none
  | .other :: ops => ripOperand ops
  | .memory mem :: _ => if mem.base = ZYDIS_REGISTER_RIP then some mem else none

theorem kind_memory (c : InsnCategory) (read write : Bool) :
    (c.kind ||| 0x10 ||| (if read then 0x40 else 0) ||| (if write then 0x80 else 0)) &&& 0x20 = 0 ∧
      (c.kind ||| 0x10 ||| (if read then 0x40 else 0) ||| (if write then 0x80 else 0) ||| 0x20) &&& 0x20 ≠ 0 := by
  cases c <;> cases read <;> cases write <;> decide

/-- **A record tells whether the first memory operand is RIP-relative, and then where it points.** -/
theorem disasmFillEntry_rip (z : Zydis) (addr : Nat) (insn : Insn) :
    (disasmFillEntry z addr insn).addr = addr ∧
      match ripOperand insn.operands with
      | none => (disasmFillEntry z addr insn).ripRelative = false
      | some mem => (disasmFillEntry z addr insn).ripRelative = true ∧
          (disasmFillEntry z addr insn).rip_rel_target = ripTarget addr insn mem := by
  rw [disasmFillEntry]
  induction insn.operands with
  | nil =>
    refine ⟨rfl, ?_⟩
    show (insn.category.kind &&& 0x20 != 0) = false
    cases insn.category <;> decide
  | cons op ops ih =>
    cases op with
    | other => exact ih
    | memory m =>
      obtain ⟨hoff, hon⟩ := kind_memory insn.category m.read m.write
      rw [fillOperand, ripOperand]
      by_cases hbase : m.base = ZYDIS_REGISTER_RIP
      · rw [if_pos hbase, if_pos hbase]
        exact ⟨rfl, bne_iff_ne.mpr hon, rfl⟩
      · rw [if_neg hbase, if_neg hbase]
        exact ⟨rfl, by rw [DisasmInstrEntry.ripRelative, hoff]; rfl⟩

end Ps5Debugger

import Mathlib
import Ps5Debugger.Lib.FlatWrite
import Ps5Debugger.Lib.Machine
import Ps5Debugger.RpcUploads
import Ps5Debugger.WriteMulti

/-!
# Memory at the other end

`readMemory`, `writeMemory` and `writeMemoryMulti` of `MemoryRpcService`, one after the other over one connection,
against the handlers of the server, which split what they are asked for into blocks (`proc_read_handle`,
`proc_write_handle`, `proc_write_multi_handle`, with `proc_read_mem` and `proc_write_mem` of `proc.c`).

What they come to is a flat memory: a read has the bytes that the writes before it left (`remote_memory`). That is so
in whichever order client and server take their steps, and each call leaves the connection as it found it, so the next
one starts afresh. A server without memory for a buffer refuses a call, and nothing has happened.
-/

namespace Ps5Debugger

open Lib

namespace Rpc

/-! ## The process -/

/-- A memory in which each address stands for itself. -/
abbrev FlatMemory : Type := WriteMulti.Memory WriteMulti.Address

/-- How the process is read and written. -/
structure Target where
  writer : WriteMulti.Writer WriteMulti.Address
  /-- `proc_aux_range_contains` -/
  auxRangeContains : WriteMulti.Address → Nat → Bool
  /-- `proc_ptwalk_read`: the buffer, and whether it succeeds -/
  ptwalkRead : FlatMemory → WriteMulti.Address → Nat → Buf → Buf × Bool
  /-- `sys_proc_rw_w0` -/
  procRwRead : FlatMemory → WriteMulti.Address → Nat → Buf → Buf

/-- `proc_read_mem` -/
def procReadMem (t : Target) (m : FlatMemory) (addr : WriteMulti.Address) (len : Nat) (buf : Buf) : Buf :=
  if t.auxRangeContains addr len then
    let walk := t.ptwalkRead m addr len buf
    if walk.2 then walk.1 else t.procRwRead m addr len walk.1
  else t.procRwRead m addr len buf

/-- `proc_write_mem` -/
def procWriteMem (t : Target) (m : FlatMemory) (addr : WriteMulti.Address) (buf : List Byte) :
    FlatMemory :=
  if t.writer.needsDmap then
    let walk := t.writer.ptwalkWrite m addr buf
    if walk.2 then walk.1 else (t.writer.procRw walk.1 addr buf).1
  else (t.writer.procRw m addr buf).1

/-- The bytes from an address on. -/
def bytesAt (m : FlatMemory) (a : WriteMulti.Address) (n : Nat) : List Byte :=
  (List.range n).map fun i => m (a + BitVec.ofNat 64 i)

/-- A range of the process that is there. -/
def Within (mapped : WriteMulti.Address → Prop) (a : WriteMulti.Address) (n : Nat) : Prop :=
  ∀ i < n, mapped (a + BitVec.ofNat 64 i)

/-- What the system promises for the ranges that are there. A page walk that fails may have got part of the way. -/
structure Target.Keeps (t : Target) (mapped : WriteMulti.Address → Prop) : Prop where
  ptwalkRead : ∀ m a n buf, Within mapped a n → (t.ptwalkRead m a n buf).2 = true →
    slice (t.ptwalkRead m a n buf).1 0 n = bytesAt m a n
  procRwRead : ∀ m a n buf, Within mapped a n → slice (t.procRwRead m a n buf) 0 n = bytesAt m a n
  ptwalkWrite : ∀ m a bs, Within mapped a bs.length → (t.writer.ptwalkWrite m a bs).2 = true →
    (t.writer.ptwalkWrite m a bs).1 = flatWrite m a bs
  ptwalkPart : ∀ m a bs, Within mapped a bs.length → Partly m a bs (t.writer.ptwalkWrite m a bs).1
  procRw : ∀ m a bs, Within mapped a bs.length → (t.writer.procRw m a bs).1 = flatWrite m a bs

section Target

variable {t : Target} {mapped : WriteMulti.Address → Prop} {m : FlatMemory} {a : WriteMulti.Address}

theorem slice_procReadMem (ht : t.Keeps mapped) {n : Nat} (hn : Within mapped a n) (buf : Buf) :
    slice (procReadMem t m a n buf) 0 n = bytesAt m a n := by
  unfold procReadMem
  split
  · dsimp only
    split
    · rename_i hwalk
      exact ht.ptwalkRead m a n buf hn hwalk
    · exact ht.procRwRead m a n _ hn
  · exact ht.procRwRead m a n buf hn

theorem procWriteMem_eq (ht : t.Keeps mapped) {bs : List Byte} (hbs : Within mapped a bs.length) :
    procWriteMem t m a bs = flatWrite m a bs := by
  unfold procWriteMem
  split
  · dsimp only
    split
    · rename_i hwalk
      exact ht.ptwalkWrite m a bs hbs hwalk
    · rw [ht.procRw _ a bs hbs, (ht.ptwalkPart m a bs hbs).flatWrite_eq]
  · exact ht.procRw m a bs hbs

theorem bytesAt_add (n k : Nat) : bytesAt m a (n + k) = bytesAt m a n ++ bytesAt m (a + BitVec.ofNat 64 n) k := by
  simp only [bytesAt, List.range_add, List.map_append, List.map_map, Function.comp_def, BitVec.ofNat_add,
    BitVec.add_assoc]

theorem Within.left {n k : Nat} (h : Within mapped a (n + k)) : Within mapped a n := fun i hi => h i (by omega)

theorem Within.right {n k : Nat} (h : Within mapped a (n + k)) : Within mapped (a + BitVec.ofNat 64 n) k := by
  intro i hi
  have hmapped := h (n + i) (by omega)
  rwa [BitVec.ofNat_add, ← BitVec.add_assoc] at hmapped

end Target

theorem ofNat_u64 (n : Nat) : BitVec.ofNat 64 (u64 n) = BitVec.ofNat 64 n := by
  apply BitVec.eq_of_toNat_eq
  rw [BitVec.toNat_ofNat, BitVec.toNat_ofNat, u64, Nat.mod_mod]

/-! ## What a pass of the server comes to -/

/-- The memory after what a handler has written. -/
def landed (t : Target) : FlatMemory → List Seen → FlatMemory
  | m, [] => m
  | m, .memory a data :: seen => landed t (procWriteMem t m (BitVec.ofNat 64 a) data) seen
  | m, .notification _ :: seen | m, .registers _ _ :: seen | m, .elf _ :: seen => landed t m seen

theorem landed_append (t : Target) (seen seen' : List Seen) :
    ∀ m, landed t m (seen ++ seen') = landed t (landed t m seen) seen' := by
  induction seen with
  | nil => intro m; rfl
  | cons s seen ih =>
    intro m
    cases s with
    | memory => exact ih _
    | notification => exact ih _
    | registers => exact ih _
    | elf => exact ih _

/-- The server has memory for the packet, and reads the process. -/
structure Serves (t : Target) (pid : UInt32) (m : FlatMemory) (os : ServerOs) : Prop where
  bodyAlloc : os.bodyAlloc = true
  readMem : ∀ a n, os.readMem pid a n = procReadMem t m (BitVec.ofNat 64 a) n fun _ => 0

section Blocks

variable {t : Target} {mapped : WriteMulti.Address → Prop} {m : FlatMemory} {os : ServerOs} {pid : UInt32}

/-- The blocks of a read are together what there is to be read. -/
theorem flatten_readBlocks (ht : t.Keeps mapped) (hos : Serves t pid m os) {a n : Nat}
    (hn : Within mapped (BitVec.ofNat 64 a) n) :
    (readBlocks os pid a n).flatten = bytesAt m (BitVec.ofNat 64 a) n := by
  induction n using Nat.strong_induction_on generalizing a with
  | _ n ih =>
    rw [readBlocks]
    split
    · rename_i hbig
      obtain ⟨k, rfl⟩ := Nat.exists_eq_add_of_lt hbig
      rw [Nat.add_assoc] at hn ⊢
      have hright := hn.right
      rw [← BitVec.ofNat_add, ← ofNat_u64] at hright
      rw [Nat.add_sub_cancel_left, List.flatten_cons, hos.readMem, slice_procReadMem ht hn.left, ih _ (by omega) hright,
        ofNat_u64, BitVec.ofNat_add, ← bytesAt_add]
    · split
      · rw [List.flatten_singleton, hos.readMem, slice_procReadMem ht hn]
      · rename_i hzero
        rw [Nat.eq_zero_of_not_pos hzero]
        rfl

/-- What lands block by block is one write. -/
theorem landed_of_lands (ht : t.Keeps mapped) {seen : List Seen} {a : Nat} {data : List Byte}
    (h : Lands a data seen) (hlen : data.length ≤ 2 ^ 64) (hdata : Within mapped (BitVec.ofNat 64 a) data.length) :
    landed t m seen = flatWrite m (BitVec.ofNat 64 a) data := by
  induction seen generalizing a data m with
  | nil =>
    obtain rfl : data = [] := h
    rw [flatWrite_nil, landed]
  | cons s seen ih =>
    cases s with
    | memory a' block =>
      obtain ⟨rfl, rest, rfl, hrest⟩ := h
      rw [List.length_append] at hlen hdata
      have hright := hdata.right
      rw [← BitVec.ofNat_add, ← ofNat_u64] at hright
      rw [landed, procWriteMem_eq ht hdata.left, ih hrest (by omega) hright, ofNat_u64, BitVec.ofNat_add,
        flatWrite_append hlen]
    | notification => exact absurd h id
    | registers => exact absurd h id
    | elf => exact absurd h id

end Blocks

/-! ## Calls on one connection -/

/-- A call with its arguments. -/
inductive Access : Type where
  | read (address : Int64) (length : Int32)
  | write (address : Int64) (data : ByteArr)
  | writeMulti (writes : MemoryRpcService.Writes) (withStatusReport : Bool)

/-- What a call tells its caller. -/
inductive Reply : Type where
  | bytes (data : List Byte)
  | done
  | refused
  /-- the call does not return, or the connection is closed -/
  | lost

/-- The process, and what is on its way. -/
structure Connection where
  mem : FlatMemory
  toServer : List Byte
  toClient : List Byte

/-- What a call comes to, from how its program ends. -/
def replyOf {R : Type} (f : R → Reply) : Proc (RpcResult R) → Reply
  | .ret (.value v) => f v
  | .ret .refused => .refused
  | _ => .lost

/-- `Boolean` -/
def replyOfBool (ok : Bool) : Reply := if ok then .done else .refused

/-- A program and a pass of the server have come to an end, and this is what they leave. -/
def Passes {R : Type} (t : Target) (os : ServerOs) (program : Proc (RpcResult R)) (f : R → Reply) (c : Connection)
    (r : Connection × Reply) : Prop :=
  ∃ y h, Talk.Ends ⟨program, handleClient os, c.toServer, c.toClient⟩ y ∧ y.server = .ret h ∧
    r = (⟨landed t c.mem h.seen, y.toServer, y.toClient⟩, replyOf f y.client)

/-- A call, answered by a server on its system. -/
def exchange (t : Target) (pid : Int32) (c : Connection) : Access × ServerOs → Connection × Reply → Prop
  | (.read address length, os) => Passes t os (MemoryRpcService.readMemory pid address length) .bytes c
  | (.write address data, os) => Passes t os (MemoryRpcService.writeMemory pid address data) replyOfBool c
  | (.writeMulti writes withStatusReport, os) =>
    Passes t os (MemoryRpcService.writeMemoryMulti pid writes withStatusReport) replyOfBool c

/-! ## The flat memory -/

/-- The writes of a batch, one after the other. -/
def writeAll (m : FlatMemory) (ws : List (Int64 × ByteArr)) : FlatMemory :=
  ws.foldl (fun m w => flatWrite m w.1.toBitVec w.2.val) m

/-- The server does not refuse the call. -/
def Access.granted (os : ServerOs) : Access → Bool
  | .read .. | .write .. => os.malloc 0x10000
  | .writeMulti writes withStatusReport =>
    decide (writes.val.length ≤ PROC_WRITE_MULTI_MAX_COUNT) && os.malloc 0x10000 &&
      (!(withStatusReport && decide (0 < writes.val.length)) || os.malloc (UInt32.ofNat writes.val.length))

/-- A call on a flat memory. -/
def flatStep (m : FlatMemory) (c : Access × ServerOs) : FlatMemory × Reply :=
  if c.1.granted c.2 then
    match c.1 with
    | .read address length => (m, .bytes (bytesAt m address.toBitVec length.toInt.toNat))
    | .write address data => (flatWrite m address.toBitVec data.val, .done)
    | .writeMulti writes _ => (writeAll m writes.val, .done)
  else (m, .refused)

/-- A call about ranges that are there. -/
def Access.Fits (mapped : WriteMulti.Address → Prop) : Access → Prop
  | .read address length => 0 ≤ length ∧ Within mapped address.toBitVec length.toInt.toNat
  | .write address data => Within mapped address.toBitVec data.val.length
  | .writeMulti writes _ => ∀ w ∈ writes.val,
    w.2.val.length ≤ PROC_WRITE_MULTI_MAX_ENTRY ∧ Within mapped w.1.toBitVec w.2.val.length

/-! ## One call -/

theorem withBuffer_refused {os : ServerOs} {size : UInt32} (h : os.malloc size = false) (null k : Proc Handled) :
    withBuffer os size null k = null := if_pos (.inr h)

theorem withBuffer_granted {os : ServerOs} {size : UInt32} (hsize : size ≠ 0) (hends : allocEnds size = true)
    (h : os.malloc size = true) (null k : Proc Handled) : withBuffer os size null k = k := by
  have hcond : ¬ (size = 0 ∨ os.malloc size = false) := not_or.mpr ⟨hsize, by rw [h]; decide⟩
  rw [withBuffer, if_neg hcond, if_pos hends]

theorem ofNat_toUInt64 (a : Int64) : BitVec.ofNat 64 a.toUInt64.toNat = a.toBitVec := by
  rw [← UInt64.toNat_toBitVec, BitVec.ofNat_toNat, BitVec.setWidth_eq]
  rfl

section Call

variable {t : Target} {mapped : WriteMulti.Address → Prop} {m : FlatMemory} {os : ServerOs} {pid : Int32}

theorem passes_iff {R : Type} {program : Proc (RpcResult R)} {e : RpcResult R} {h : Handled} (f : R → Reply)
    (hfin : Talk.finish ⟨program, handleClient os, [], []⟩ = ⟨.ret e, .ret h, [], []⟩) (r : Connection × Reply) :
    Passes t os program f ⟨m, [], []⟩ r ↔ r = (⟨landed t m h.seen, [], []⟩, replyOf f (.ret e)) := by
  constructor
  · rintro ⟨y, h', hends, hserver, rfl⟩
    rw [Talk.ends_iff, hfin] at hends
    subst hends
    obtain rfl : h = h' := Proc.ret.inj hserver
    rfl
  · rintro rfl
    exact ⟨_, h, Talk.ends_iff.mpr hfin.symm, rfl, rfl⟩

/-- A read. -/
theorem finish_readMemory (ht : t.Keeps mapped) (hos : Serves t pid.toUInt32 m os) {address : Int64} {length : Int32}
    (hfits : (Access.read address length).Fits mapped) :
    Talk.finish ⟨MemoryRpcService.readMemory pid address length, handleClient os, [], []⟩ =
      if os.malloc 0x10000 then
        ⟨.ret (.value (bytesAt m address.toBitVec length.toInt.toNat)), .ret (.returned 0 []), [], []⟩
      else ⟨.ret .refused, .ret (.returned 1 []), [], []⟩ := by
  obtain ⟨hpos, hwithin⟩ := hfits
  have hcmd (data : List Byte) : cmdHandler os 0xBDAA0002 (some data) = procReadHandle os (some data) := rfl
  have hneg : ¬ length < 0 := by rwa [Int32.not_lt]
  have hlen := toInt_of_nonneg hneg
  have hpid : word32 (writeInt pid ++ writeLong address ++ writeInt length) 0 = pid.toUInt32 := by
    rw [List.append_assoc, ← List.nil_append (writeInt pid ++ _), word32_int pid List.length_nil]
  have haddr : (word64 (writeInt pid ++ writeLong address ++ writeInt length) 4).toNat = address.toUInt64.toNat := by
    rw [List.append_assoc, word64_long address (length_writeInt pid)]
  have hword : word32 (writeInt pid ++ writeLong address ++ writeInt length) 12 = length.toUInt32 :=
    word32_int_last length (by simp)
  rw [hlen, Int.toNat_natCast, ← ofNat_toUInt64] at hwithin
  rw [MemoryRpcService.readMemory, finish_call (List.ne_nil_of_length_pos (by simp)) (by simp; decide),
    if_pos hos.bodyAlloc, hcmd, procReadHandle, hpid, haddr, hword]
  cases hmalloc : os.malloc 0x10000 with
  | false =>
    rw [withBuffer_refused hmalloc, reply, finish_failure dataNull_ne_success]
    rfl
  | true =>
    rw [withBuffer_granted (by decide) rfl hmalloc, finish_success, readExactly_of_toInt hlen,
      finish_readAll _ _ (length_readBlocks _ _ _), Talk.finish_ret, flatten_readBlocks ht hos hwithin, if_pos rfl,
      hlen, Int.toNat_natCast, ofNat_toUInt64]

/-- A write: what the handler writes lands where it belongs. -/
theorem finish_writeMemory (hos : Serves t pid.toUInt32 m os) (address : Int64) (data : ByteArr) :
    ∃ seen, Lands address.toUInt64.toNat data.val seen ∧
      Talk.finish ⟨MemoryRpcService.writeMemory pid address data, handleClient os, [], []⟩ =
        if os.malloc 0x10000 then ⟨.ret (.value true), .ret (.returned 0 seen), [], []⟩
        else ⟨.ret (.value false), .ret (.returned 1 []), [], []⟩ := by
  have hcmd (data : List Byte) : cmdHandler os 0xBDAA0003 (some data) = procWriteHandle os (some data) := rfl
  have haddr : (word64 (writeInt pid ++ writeLong address ++ leBytes 4 data.val.length) 4).toNat =
      address.toUInt64.toNat := by
    rw [List.append_assoc, word64_long address (length_writeInt pid)]
  have hlen : (word32 (writeInt pid ++ writeLong address ++ leBytes 4 data.val.length) 12).toNat = data.val.length :=
    word32_size (by simp) data.property
  obtain ⟨seen, hlands, hfin⟩ := finish_writeBlocks receiveSuccess [] [] address.toUInt64.toNat data.val fun seen =>
    .send (statusBytes CMD_SUCCESS) (.ret (.returned 0 seen))
  rw [List.append_nil] at hfin
  refine ⟨seen, hlands, ?_⟩
  rw [MemoryRpcService.writeMemory, finish_call (List.ne_nil_of_length_pos (by simp)) (by simp; decide),
    if_pos hos.bodyAlloc, hcmd, procWriteHandle, haddr, hlen]
  cases hmalloc : os.malloc 0x10000 with
  | false =>
    rw [withBuffer_refused hmalloc, reply, finish_failure dataNull_ne_success]
    rfl
  | true =>
    rw [withBuffer_granted (by decide) rfl hmalloc, finish_success, Talk.finish_clientSend, List.nil_append, hfin,
      receiveSuccess, finish_status, Talk.finish_ret, if_pos rfl, beq_self_eq_true]

variable (os pid) in
/-- The entries of a batch, and the status that the caller asked for. -/
theorem finish_entries (ws : List (Int64 × ByteArr)) (withStatusReport : Bool)
    (hws : ∀ w ∈ ws, w.2.val.length ≤ PROC_WRITE_MULTI_MAX_ENTRY) :
    ∃ seen, LandsAll ws seen ∧
      Talk.finish ⟨.send (ws.flatMap MemoryRpcService.writeEntry) <|
          if withStatusReport then .recv ws.length fun _ => receiveSuccess else receiveSuccess,
        multiEntries os pid.toUInt32 ws.length fun status seen =>
          .sendAll (if withStatusReport then [status] else []) <|
          .send (statusBytes CMD_SUCCESS) <| .ret (.returned 0 seen), [], []⟩ =
        ⟨.ret (.value true), .ret (.returned 0 seen), [], []⟩ := by
  obtain ⟨status, seen, hlen, hlands, hfin⟩ := finish_multiEntries
    (if withStatusReport then .recv ws.length fun _ => receiveSuccess else receiveSuccess) [] [] os pid.toUInt32 hws
    fun status seen => .sendAll (if withStatusReport then [status] else []) <|
      .send (statusBytes CMD_SUCCESS) <| .ret (.returned 0 seen)
  refine ⟨seen, hlands, ?_⟩
  rw [List.append_nil] at hfin
  rw [Talk.finish_clientSend, List.nil_append, hfin]
  cases withStatusReport with
  | false =>
    rw [if_neg (by decide), if_neg (by decide), Proc.sendAll, receiveSuccess, finish_status, Talk.finish_ret,
      beq_self_eq_true]
  | true =>
    rw [if_pos rfl, if_pos rfl, Proc.sendAll, Proc.sendAll, finish_exchange _ _ hlen, receiveSuccess, finish_status,
      Talk.finish_ret, beq_self_eq_true]

/-- A batch of writes, each within the limit. -/
theorem finish_writeMemoryMulti (hos : Serves t pid.toUInt32 m os) (writes : MemoryRpcService.Writes)
    (withStatusReport : Bool) (hws : ∀ w ∈ writes.val, w.2.val.length ≤ PROC_WRITE_MULTI_MAX_ENTRY) :
    ∃ seen rc, LandsAll writes.val seen ∧
      Talk.finish ⟨MemoryRpcService.writeMemoryMulti pid writes withStatusReport, handleClient os, [], []⟩ =
        if (Access.writeMulti writes withStatusReport).granted os then
          ⟨.ret (.value true), .ret (.returned 0 seen), [], []⟩
        else ⟨.ret (.value false), .ret (.returned rc []), [], []⟩ := by
  have hcmd (data : List Byte) : cmdHandler os 0xBDAACC04 (some data) = procWriteMultiHandle os (some data) := rfl
  have hpid : word32 (writeInt pid ++ leBytes 4 writes.val.length ++ writeInt (if withStatusReport then 1 else 0)) 0 =
      pid.toUInt32 := by
    rw [List.append_assoc, ← List.nil_append (writeInt pid ++ _), word32_int pid List.length_nil]
  have hsize : (UInt32.ofNat writes.val.length).toNat = writes.val.length :=
    UInt32.toNat_ofNat_of_lt' (writes.property.trans (by decide))
  obtain ⟨seen, hlands, hfin⟩ := finish_entries os pid writes.val withStatusReport hws
  refine ⟨seen, 1, hlands, ?_⟩
  rw [MemoryRpcService.writeMemoryMulti, finish_call (List.ne_nil_of_length_pos (by simp)) (by simp; decide),
    if_pos hos.bodyAlloc, hcmd, procWriteMultiHandle, Access.granted]
  simp only [wantStatus_iff, multiCount, hsize, hpid]
  by_cases hmany : writes.val.length > PROC_WRITE_MULTI_MAX_COUNT
  · rw [if_pos hmany, reply, finish_failure error_ne_success, decide_eq_false (not_le.mpr hmany)]
    rfl
  rw [if_neg hmany, decide_eq_true (not_lt.mp hmany), Bool.true_and]
  cases hmalloc : os.malloc 0x10000 with
  | false =>
    rw [withBuffer_refused hmalloc, reply, finish_failure dataNull_ne_success]
    rfl
  | true =>
    rw [withBuffer_granted (by decide) rfl hmalloc, Bool.true_and]
    by_cases hstatus : withStatusReport = true ∧ writes.val.length > 0
    · have hpos : UInt32.ofNat writes.val.length ≠ 0 := by
        intro h
        rw [h] at hsize
        exact absurd hsize.symm (Nat.ne_of_gt hstatus.2)
      rw [if_pos hstatus, hstatus.1, decide_eq_true hstatus.2, Bool.and_self, Bool.not_true, Bool.false_or]
      cases hcount : os.malloc (UInt32.ofNat writes.val.length) with
      | false =>
        rw [withBuffer_refused hcount, reply, finish_failure dataNull_ne_success]
        rfl
      | true =>
        rw [withBuffer_granted hpos (allocEnds_of_lt (by rw [hsize]; exact writes.property)) hcount, finish_success]
        rw [hstatus.1] at hfin
        exact hfin
    · have hnone : (withStatusReport && decide (0 < writes.val.length)) = false := by
        rwa [← Bool.not_eq_true, Bool.and_eq_true, decide_eq_true_eq]
      rw [if_neg hstatus, hnone, finish_success, hfin]
      rfl

/-- A batch that lands is the writes one after the other. -/
theorem landed_of_landsAll (ht : t.Keeps mapped) {ws : List (Int64 × ByteArr)} {seen : List Seen}
    (h : LandsAll ws seen) (hws : ∀ w ∈ ws, Within mapped w.1.toBitVec w.2.val.length) :
    landed t m seen = writeAll m ws := by
  induction ws generalizing seen m with
  | nil =>
    obtain rfl : seen = [] := h
    rfl
  | cons w ws ih =>
    obtain ⟨l, r, rfl, hl, hr⟩ := h
    obtain ⟨hw, hrest⟩ := List.forall_mem_cons.mp hws
    have hlen : w.2.val.length ≤ 2 ^ 64 := w.2.property.le.trans (by decide)
    rw [← ofNat_toUInt64] at hw
    rw [landed_append, landed_of_lands ht hl hlen hw, ih hr hrest, ofNat_toUInt64]
    rfl

/-- A call does to the process what it would do to a flat memory, and leaves nothing on its way. -/
theorem exchange_iff (ht : t.Keeps mapped) {c : Access × ServerOs} (hos : Serves t pid.toUInt32 m c.2)
    (hfits : c.1.Fits mapped) (r : Connection × Reply) :
    exchange t pid ⟨m, [], []⟩ c r ↔ r = (⟨(flatStep m c).1, [], []⟩, (flatStep m c).2) := by
  obtain ⟨access, os⟩ := c
  cases access with
  | read address length =>
    have hfin := finish_readMemory ht hos hfits
    rw [exchange, flatStep, Access.granted]
    cases hmalloc : os.malloc 0x10000 with
    | false =>
      rw [hmalloc] at hfin
      exact passes_iff .bytes hfin r
    | true =>
      rw [hmalloc] at hfin
      exact passes_iff .bytes hfin r
  | write address data =>
    obtain ⟨seen, hlands, hfin⟩ := finish_writeMemory hos address data
    have hlen : data.val.length ≤ 2 ^ 64 := data.property.le.trans (by decide)
    rw [Access.Fits, ← ofNat_toUInt64] at hfits
    have hmem : landed t m seen = flatWrite m address.toBitVec data.val := by
      rw [landed_of_lands ht hlands hlen hfits, ofNat_toUInt64]
    rw [exchange, flatStep, Access.granted]
    cases hmalloc : os.malloc 0x10000 with
    | false =>
      rw [hmalloc] at hfin
      exact passes_iff replyOfBool hfin r
    | true =>
      rw [hmalloc] at hfin
      rw [if_pos rfl, passes_iff replyOfBool hfin r, Handled.seen, hmem]
      rfl
  | writeMulti writes withStatusReport =>
    obtain ⟨seen, rc, hlands, hfin⟩ :=
      finish_writeMemoryMulti hos writes withStatusReport fun w hw => (hfits w hw).1
    have hmem : landed t m seen = writeAll m writes.val := landed_of_landsAll ht hlands fun w hw => (hfits w hw).2
    rw [exchange, flatStep]
    cases hgranted : (Access.writeMulti writes withStatusReport).granted os with
    | false =>
      rw [hgranted] at hfin
      exact passes_iff replyOfBool hfin r
    | true =>
      rw [hgranted] at hfin
      rw [if_pos rfl, passes_iff replyOfBool hfin r, Handled.seen, hmem]
      rfl

end Call

/-- A process that is all there. -/
def flatTarget : Target where
  writer := ⟨false, fun m a bs => (flatWrite m a bs, true), fun m a bs => (flatWrite m a bs, bs.length)⟩
  auxRangeContains := fun _ _ => false
  ptwalkRead := fun m a _ _ => (fun i => m (a + BitVec.ofNat 64 i), true)
  procRwRead := fun m a _ _ i => m (a + BitVec.ofNat 64 i)

theorem slice_flat (m : FlatMemory) (a : WriteMulti.Address) (n : Nat) :
    slice (fun i => m (a + BitVec.ofNat 64 i)) 0 n = bytesAt m a n :=
  List.map_congr_left fun i _ => by rw [Nat.zero_add]

theorem keeps_flatTarget : flatTarget.Keeps fun _ => True where
  ptwalkRead m a n _ _ _ := slice_flat m a n
  procRwRead m a n _ _ := slice_flat m a n
  ptwalkWrite _ _ _ _ _ := rfl
  ptwalkPart _ _ _ _ := partly_flatWrite
  procRw _ _ _ _ := rfl

/-- A server that reads that process. -/
def flatOs (m : FlatMemory) : ServerOs :=
  { idleOs with readMem := fun _ a n => procReadMem flatTarget m (BitVec.ofNat 64 a) n fun _ => 0 }

/-- Two bytes are written where the addresses start again, and read with the two around them. -/
def wrapCalls : List (Access × ServerOs) :=
  [(.write (-1) ⟨[0x11, 0x22], by decide⟩, flatOs fun _ => 0),
    (.read (-2) 4, flatOs (flatWrite (fun _ => 0) (BitVec.allOnes 64) [0x11, 0x22]))]

end Rpc

end Ps5Debugger

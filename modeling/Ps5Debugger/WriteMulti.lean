import Ps5Debugger.Debug
import Ps5Debugger.Lib.Places
import Ps5Debugger.Net

/-!
# Bulk writes

`proc_write_multi_handle` (`proc.c`) receives entries, each an address, a length and the bytes, and writes them to
the target in chunks of at most 64 KiB while it receives. A chunk that is not written in full is noted and the rest
goes on.

A chunk goes to the target page by page through the direct map (`proc_ptwalk_write`), or else by the kernel
(`sys_proc_rw_w1`). Two addresses may share memory: what counts is the place that an address stands for.

`write_multi_sequential`: from a client that sends its entries completely, the handler leaves the target as the
entries one after another do, whatever the chunks, up to the bytes that the target did not take; the status byte of
an entry says whether it took all of them. An entry over the limit ends the command after those before it. More than
0xFFFF entries are refused before any of them. `kernel_copyin_fast` does not look at what the pipe has taken: that
it takes all of a piece is assumed (`Kernel.Writes`).
-/

namespace Ps5Debugger

open Lib Places

namespace WriteMulti

/-! ## Writing to the target -/

abbrev Address : Type := BitVec 64

/-- The memory of the target, by the places that its addresses stand for. -/
abbrev Memory (P : Type) : Type := P → Byte

/-- How the target of the command is written: whether the firmware needs the direct map, `proc_ptwalk_write` with
whether it succeeds, and `sys_proc_rw_w1` with the bytes it says it wrote. -/
structure Writer (P : Type) where
  needsDmap : Bool
  ptwalkWrite : Memory P → Address → List Byte → Memory P × Bool
  procRw : Memory P → Address → List Byte → Memory P × Nat

/-- What the console does in a write to a process. -/
structure Kernel (P : Type) where
  /-- the byte of memory behind an address -/
  place : Address → P
  /-- `s_fw_needs_dmap` -/
  needsDmap : Bool
  /-- the process has page tables that `proc_ptwalk_write` accepts -/
  pmapOk : Bool
  /-- `ptw_walk_leaf`, the level of the leaf -/
  walkLeaf : Address → Option Nat
  /-- as many bytes from an address on are below `PTW_PHYS_BOUND` -/
  inBound : Address → Nat → Bool
  /-- `kernel_copyin_fast` can point the pipe at the frame -/
  pipeSet : Memory P → Address → Bool
  /-- `write` to the pipe, what it does to the memory; its result is dropped -/
  pipeWrite : Memory P → Address → List Byte → Memory P
  /-- the privileges for the system call are obtained -/
  privileged : Memory P → Bool
  /-- system call 573, with `out[1]` -/
  syscall573 : Memory P → Address → List Byte → Memory P × Nat

variable {P : Type}

/-- The sizes of `proc_ptwalk_write`, by the level of the leaf. -/
def leafSize : Nat → Option { size : Nat // 0 < size }
  | 3 => some ⟨0x1000, by decide⟩
  | 2 => some ⟨0x200000, by decide⟩
  | 1 => some ⟨0x40000000, by decide⟩
  | _ => none

/-- The loop of `proc_ptwalk_write`, with the bytes that are left. -/
def Kernel.ptwalkFrom (k : Kernel P) (m : Memory P) (curVa : Address) (src : List Byte) : Memory P × Bool :=
  if _h : src = [] then (m, true)
  else match (k.walkLeaf curVa).bind leafSize with
  | none => (m, false)
  | some pageSize =>
    let n := min src.length (pageSize - curVa.toNat % pageSize)
    if !k.inBound curVa n || !k.pipeSet m curVa then (m, false)
    else k.ptwalkFrom (k.pipeWrite m curVa (src.take n)) (curVa + BitVec.ofNat 64 n) (src.drop n)
termination_by src.length
decreasing_by
  have hpos := List.length_pos_iff.mpr _h
  have hmod := Nat.mod_lt curVa.toNat pageSize.property
  rw [List.length_drop]
  omega

/-- `proc_ptwalk_write` -/
def Kernel.procPtwalkWrite (k : Kernel P) (m : Memory P) (va : Address) (src : List Byte) : Memory P × Bool :=
  if src = [] ∨ k.pmapOk = false then (m, false) else k.ptwalkFrom m va src

/-- `sys_proc_rw_w1`, with `wrote`: the length, when the kernel says it wrote all, and otherwise nothing. -/
def Kernel.sysProcRwW1 (k : Kernel P) (m : Memory P) (address : Address) (data : List Byte) : Memory P × Nat :=
  if data = [] ∨ k.privileged m = false then (m, 0)
  else
    let out := k.syscall573 m address data
    (out.1, if out.2 = data.length then data.length else 0)

/-- Both ways of writing. -/
def Kernel.writer (k : Kernel P) : Writer P := ⟨k.needsDmap, k.procPtwalkWrite, k.sysProcRwW1⟩

/-- `proc_write_mem_status`: 0 when all was written. -/
def procWriteMemStatus (t : Writer P) (m : Memory P) (addr : Address) (buf : List Byte) : Memory P × Byte :=
  if t.needsDmap then
    let walk := t.ptwalkWrite m addr buf
    if walk.2 then (walk.1, 0)
    else
      let r := t.procRw walk.1 addr buf
      (r.1, if r.2 = buf.length then 0 else 1)
  else
    let r := t.procRw m addr buf
    (r.1, if r.2 = buf.length then 0 else 1)

/-! ## The handler -/

def PROC_WRITE_MULTI_F_STATUS : UInt32 := 0x1
def PROC_WRITE_MULTI_MAX_COUNT : UInt32 := 0xFFFF
def PROC_WRITE_MULTI_MAX_ENTRY : Nat := 0x100000

/-- `struct cmd_proc_write_multi_packet`; the process is that of the writer. -/
structure Packet where
  count : UInt32
  flags : UInt32

/-- The allocations of `buf` and of `status`. -/
structure Env where
  bufAlloc : Bool
  statusAlloc : Bool

/-- After the bytes of an entry: `ok` when they were all received. -/
structure EntryEnd (P : Type) where
  mem : Memory P
  rest : List Byte
  failed : Byte
  ok : Bool

/-- `while (length > 0)` -/
def writeChunks (t : Writer P) (m : Memory P) (a : Address) (s : List Byte) (failed : Byte) (length : Nat) :
    EntryEnd P :=
  if _h : length > 0 then
    let toRecv := if length > 0x10000 then 0x10000 else length
    let r := netRecvAll s toRecv
    if r.ok then
      let w := procWriteMemStatus t m a r.got
      writeChunks t w.1 (a + BitVec.ofNat 64 toRecv) r.rest (if w.2 ≠ 0 then 1 else failed) (length - toRecv)
    else ⟨m, r.rest, failed, false⟩
  else ⟨m, s, failed, true⟩
termination_by length
decreasing_by
  split <;> omega

/-- How the loop over the entries ends: behind the last, when a receive fails, or at an entry over the limit. -/
inductive Outcome : Type where
  | complete | gone | overLimit
  deriving DecidableEq

/-- What the loop leaves. -/
structure EntriesEnd (P : Type) where
  mem : Memory P
  rest : List Byte
  status : List Byte
  outcome : Outcome

/-- `for (i = 0; i < count; i++)`, with as many entries to come. -/
def writeEntries (t : Writer P) : Nat → Memory P → List Byte → List Byte → EntriesEnd P
  | 0, m, s, status => ⟨m, s, status, .complete⟩
  | left + 1, m, s, status =>
    let hdr := netRecvAll s 12
    if hdr.ok then
      let addr := BitVec.ofNat 64 (leNat 8 hdr.got)
      let len32 := leNat 4 (hdr.got.drop 8)
      if len32 > PROC_WRITE_MULTI_MAX_ENTRY then ⟨m, hdr.rest, status, .overLimit⟩
      else
        let e := writeChunks t m addr hdr.rest 0 len32
        if e.ok then writeEntries t left e.mem e.rest (status ++ [e.failed])
        else ⟨e.mem, e.rest, status, .gone⟩
    else ⟨m, hdr.rest, status, .gone⟩

/-- The target, what was sent and what is left to receive when the handler returns. -/
structure Return (P : Type) where
  mem : Memory P
  sent : List (List Byte)
  rest : List Byte
  rc : Int

/-- `proc_write_multi_handle` -/
def procWriteMultiHandle (t : Writer P) (env : Env) (mp : Option Packet) (s : List Byte) (m : Memory P) : Return P :=
  match mp with
  | none => ⟨m, [statusBytes CMD_DATA_NULL], s, 1⟩
  | some mp =>
    let wantStatus := mp.flags &&& PROC_WRITE_MULTI_F_STATUS ≠ 0
    if mp.count > PROC_WRITE_MULTI_MAX_COUNT then ⟨m, [statusBytes CMD_ERROR], s, 1⟩
    else if !env.bufAlloc then ⟨m, [statusBytes CMD_DATA_NULL], s, 1⟩
    else if wantStatus ∧ mp.count > 0 ∧ !env.statusAlloc then ⟨m, [statusBytes CMD_DATA_NULL], s, 1⟩
    else
      let e := writeEntries t mp.count.toNat m s []
      match e.outcome with
      | .gone => ⟨e.mem, [statusBytes CMD_SUCCESS], e.rest, 1⟩
      | .overLimit => ⟨e.mem, [statusBytes CMD_SUCCESS, statusBytes CMD_ERROR], e.rest, 1⟩
      | .complete =>
        ⟨e.mem, [statusBytes CMD_SUCCESS] ++ (if wantStatus ∧ mp.count > 0 then [e.status] else []) ++
            [statusBytes CMD_SUCCESS],
          e.rest, 0⟩

/-! ## What the target takes -/

/-- What is relied on. The pipe takes all of a piece and puts it in the frame behind the address; of a write the kernel
does some bytes, and all of them when it says so. -/
structure Kernel.Writes [DecidableEq P] (k : Kernel P) : Prop where
  pipe : ∀ m a bs, k.pipeWrite m a bs = putAll k.place m a bs
  mdbg_partly : ∀ m a bs, PartlyPut k.place m a bs (k.syscall573 m a bs).1
  mdbg_full : ∀ m a bs, (k.syscall573 m a bs).2 = bs.length → (k.syscall573 m a bs).1 = putAll k.place m a bs

/-- The chunk is written in full, by the page walk or else by the kernel. -/
def Writer.InFull (t : Writer P) (m : Memory P) (a : Address) (chunk : List Byte) : Prop :=
  if t.needsDmap then
    (t.ptwalkWrite m a chunk).2 = true ∨ (t.procRw (t.ptwalkWrite m a chunk).1 a chunk).2 = chunk.length
  else (t.procRw m a chunk).2 = chunk.length

variable {t : Writer P}

theorem procWriteMemStatus_eq_zero_iff {m : Memory P} {a : Address} {chunk : List Byte} :
    (procWriteMemStatus t m a chunk).2 = 0 ↔ t.InFull m a chunk := by
  rw [procWriteMemStatus, Writer.InFull]
  split
  · dsimp only
    split
    · rename_i hwalk
      exact ⟨fun _ => .inl hwalk, fun _ => rfl⟩
    · rename_i hwalk
      rw [or_iff_right hwalk]
      split <;> simp_all
  · dsimp only
    split <;> simp_all

section Kernel

variable [DecidableEq P] {k : Kernel P}

/-- The pages one after the other are one write, up to the page that is not there. -/
theorem Kernel.Writes.ptwalkFrom_spec (hk : k.Writes) (m : Memory P) (a : Address) (src : List Byte) :
    PartlyPut k.place m a src (k.ptwalkFrom m a src).1 ∧
      ((k.ptwalkFrom m a src).2 = true → (k.ptwalkFrom m a src).1 = putAll k.place m a src) := by
  induction hlen : src.length using Nat.strong_induction_on generalizing m a src with
  | _ len ih =>
    rw [Kernel.ptwalkFrom]
    split
    · rename_i hnil
      subst hnil
      exact ⟨.refl, fun _ => rfl⟩
    rename_i hsrc
    cases hleaf : (k.walkLeaf a).bind leafSize with
    | none => exact ⟨.refl, fun hok => by cases hok⟩
    | some pageSize =>
      dsimp only
      split
      · exact ⟨.refl, fun hok => by cases hok⟩
      have hmod := Nat.mod_lt a.toNat pageSize.property
      have hpos := List.length_pos_iff.mpr hsrc
      set n := min src.length (pageSize - a.toNat % pageSize)
      have hn : (src.take n).length = n := by
        rw [List.length_take]
        omega
      obtain ⟨hpart, hfull⟩ := ih (src.drop n).length (by rw [List.length_drop]; omega)
        (k.pipeWrite m a (src.take n)) (a + BitVec.ofNat 64 n) (src.drop n) rfl
      rw [hk.pipe] at hpart hfull ⊢
      constructor
      · have hfirst : PartlyPut k.place m a (src.take n) (putAll k.place m a (src.take n)) := partly_putAll
        have happ : PartlyPut k.place m a (src.take n ++ src.drop n) _ := hfirst.append (by rw [hn]; exact hpart)
        rwa [List.take_append_drop] at happ
      · intro hok
        have happ : putAll k.place (putAll k.place m a (src.take n)) (a + BitVec.ofNat 64 (src.take n).length)
            (src.drop n) = _ := putAll_append
        rw [hn, List.take_append_drop] at happ
        exact (hfull hok).trans happ

theorem Kernel.Writes.procPtwalkWrite_spec (hk : k.Writes) (m : Memory P) (a : Address) (src : List Byte) :
    PartlyPut k.place m a src (k.procPtwalkWrite m a src).1 ∧
      ((k.procPtwalkWrite m a src).2 = true → (k.procPtwalkWrite m a src).1 = putAll k.place m a src) := by
  rw [Kernel.procPtwalkWrite]
  split
  · exact ⟨.refl, fun hok => by cases hok⟩
  · exact hk.ptwalkFrom_spec m a src

theorem Kernel.Writes.sysProcRwW1_spec (hk : k.Writes) (m : Memory P) (a : Address) (data : List Byte) :
    PartlyPut k.place m a data (k.sysProcRwW1 m a data).1 ∧
      ((k.sysProcRwW1 m a data).2 = data.length → (k.sysProcRwW1 m a data).1 = putAll k.place m a data) := by
  by_cases hdata : data = []
  · subst hdata
    rw [Kernel.sysProcRwW1, if_pos (.inl rfl)]
    exact ⟨.refl, fun _ => rfl⟩
  have hpos := List.length_pos_iff.mpr hdata
  rw [Kernel.sysProcRwW1]
  split
  · exact ⟨.refl, fun hzero => absurd hzero.symm (Nat.ne_of_gt hpos)⟩
  · refine ⟨hk.mdbg_partly m a data, fun hwrote => hk.mdbg_full m a data ?_⟩
    by_contra hshort
    dsimp only at hwrote
    rw [if_neg hshort] at hwrote
    exact absurd hwrote.symm (Nat.ne_of_gt hpos)

theorem Kernel.Writes.partly (hk : k.Writes) (m : Memory P) (a : Address) (chunk : List Byte) :
    PartlyPut k.place m a chunk (procWriteMemStatus k.writer m a chunk).1 := by
  have hwalk := (hk.procPtwalkWrite_spec m a chunk).1
  rw [procWriteMemStatus]
  split
  · dsimp only
    split
    · exact hwalk
    · exact hwalk.trans (hk.sysProcRwW1_spec _ a chunk).1
  · exact (hk.sysProcRwW1_spec m a chunk).1

theorem Kernel.Writes.full (hk : k.Writes) {m : Memory P} {a : Address} {chunk : List Byte}
    (h : k.writer.InFull m a chunk) : (procWriteMemStatus k.writer m a chunk).1 = putAll k.place m a chunk := by
  obtain ⟨hpart, hall⟩ := hk.procPtwalkWrite_spec m a chunk
  rw [Writer.InFull] at h
  rw [procWriteMemStatus]
  split
  · rename_i hdmap
    rw [if_pos hdmap] at h
    dsimp only
    split
    · rename_i hwalk
      exact hall hwalk
    · rename_i hwalk
      rw [← hpart.putAll_eq]
      exact (hk.sysProcRwW1_spec _ a chunk).2 (h.resolve_left hwalk)
  · rename_i hdmap
    rw [if_neg hdmap] at h
    exact (hk.sysProcRwW1_spec m a chunk).2 h

end Kernel

/-! ## The chunks of an entry -/

/-- An entry as the client sends it. -/
structure Entry where
  address : Address
  data : List Byte

/-- An entry on the wire. -/
def Entry.frame (e : Entry) : List Byte := leBytes 8 e.address.toNat ++ leBytes 4 e.data.length ++ e.data

/-- The chunks that an entry is received in. -/
def chunks (data : List Byte) : List (List Byte) :=
  if _h : data.length > 0 then data.take 0x10000 :: chunks (data.drop 0x10000) else []
termination_by data.length
decreasing_by
  rw [List.length_drop]
  omega

/-- The target after the chunks from an address on. -/
def Writer.putChunks (t : Writer P) : Memory P → Address → List (List Byte) → Memory P
  | m, _, [] => m
  | m, a, c :: cs => t.putChunks (procWriteMemStatus t m a c).1 (a + BitVec.ofNat 64 c.length) cs

/-- Each chunk is written in full when its turn comes. -/
def Writer.AllInFull (t : Writer P) : Memory P → Address → List (List Byte) → Prop
  | _, _, [] => True
  | m, a, c :: cs => t.InFull m a c ∧ t.AllInFull (procWriteMemStatus t m a c).1 (a + BitVec.ofNat 64 c.length) cs

theorem chunks_nil : chunks [] = [] := by
  rw [chunks]
  rfl

theorem chunks_of_ne_nil {data : List Byte} (h : data ≠ []) :
    chunks data = data.take 0x10000 :: chunks (data.drop 0x10000) := by
  rw [chunks, dif_pos (List.length_pos_iff.mpr h)]

/-- An entry that is sent completely is received and written chunk by chunk. -/
theorem writeChunks_eq (m : Memory P) (a : Address) (data rest : List Byte) (failed : Byte) :
    ∃ f, writeChunks t m a (data ++ rest) failed data.length = ⟨t.putChunks m a (chunks data), rest, f, true⟩ ∧
      (f = 0 ↔ failed = 0 ∧ t.AllInFull m a (chunks data)) := by
  induction hn : data.length using Nat.strong_induction_on generalizing m a data failed with
  | _ n ih =>
    subst hn
    by_cases hdata : data = []
    · subst hdata
      refine ⟨failed, ?_, ?_⟩
      · have hzero : ¬ ([] : List Byte).length > 0 := Nat.lt_irrefl 0
        rw [writeChunks, dif_neg hzero, chunks_nil]
        rfl
      · rw [chunks_nil]
        exact (and_iff_left trivial).symm
    · have hpos := List.length_pos_iff.mpr hdata
      have hrecv : (if data.length > 0x10000 then 0x10000 else data.length) = (data.take 0x10000).length := by
        rw [List.length_take]
        split <;> omega
      have hle : (data.take 0x10000).length ≤ data.length := List.length_take_le' _ _
      have hgot : (data ++ rest).take (data.take 0x10000).length = data.take 0x10000 := by
        rw [List.take_append_of_le_length hle, List.length_take, ← List.take_eq_take_min]
      have hleft : (data ++ rest).drop (data.take 0x10000).length = data.drop 0x10000 ++ rest := by
        have hsplit : data ++ rest = data.take 0x10000 ++ (data.drop 0x10000 ++ rest) := by
          rw [← List.append_assoc, List.take_append_drop]
        rw [hsplit, List.drop_left]
      have hlen : data.length - (data.take 0x10000).length = (data.drop 0x10000).length := by
        rw [List.length_take, List.length_drop]
        omega
      obtain ⟨f, hrun, hf⟩ := ih (data.drop 0x10000).length (by rw [List.length_drop]; omega)
        (procWriteMemStatus t m a (data.take 0x10000)).1 (a + BitVec.ofNat 64 (data.take 0x10000).length)
        (data.drop 0x10000) (if (procWriteMemStatus t m a (data.take 0x10000)).2 ≠ 0 then 1 else failed) rfl
      refine ⟨f, ?_, ?_⟩
      · rw [writeChunks, dif_pos hpos]
        simp only [hrecv, netRecvAll_eq, Int.toNat_natCast, hgot, hleft, hlen]
        rw [if_pos (by rw [decide_eq_true_iff, List.length_append]; omega), hrun, chunks_of_ne_nil hdata]
        rfl
      · rw [hf, chunks_of_ne_nil hdata, Writer.AllInFull, ← procWriteMemStatus_eq_zero_iff, ← and_assoc]
        refine and_congr_left fun _ => ?_
        split
        · rename_i hbad
          exact ⟨fun h => absurd h (by decide), fun h => absurd h.2 hbad⟩
        · rename_i hgood
          exact (and_iff_left (not_not.mp hgood)).symm

/-- The chunks of an entry are one write of it, as far as the target takes them. -/
theorem Kernel.Writes.putChunks_spec [DecidableEq P] {k : Kernel P} (hk : k.Writes) (m : Memory P) (a : Address)
    (data : List Byte) :
    PartlyPut k.place m a data (k.writer.putChunks m a (chunks data)) ∧
      (k.writer.AllInFull m a (chunks data) →
        k.writer.putChunks m a (chunks data) = putAll k.place m a data) := by
  induction hn : data.length using Nat.strong_induction_on generalizing m a data with
  | _ n ih =>
    subst hn
    by_cases hdata : data = []
    · subst hdata
      rw [chunks_nil]
      exact ⟨.refl, fun _ => rfl⟩
    · have hpos := List.length_pos_iff.mpr hdata
      obtain ⟨hpart, hfull⟩ := ih (data.drop 0x10000).length (by rw [List.length_drop]; omega)
        (procWriteMemStatus k.writer m a (data.take 0x10000)).1
        (a + BitVec.ofNat 64 (data.take 0x10000).length) (data.drop 0x10000) rfl
      rw [chunks_of_ne_nil hdata]
      constructor
      · have happ := (hk.partly m a (data.take 0x10000)).append hpart
        rw [List.take_append_drop] at happ
        exact happ
      · rintro ⟨hfirst, hrest⟩
        rw [Writer.putChunks, hfull hrest, hk.full hfirst, putAll_append, List.take_append_drop]

/-! ## The entries of a command -/

/-- The target after an entry. -/
def Writer.apply (t : Writer P) (m : Memory P) (e : Entry) : Memory P := t.putChunks m e.address (chunks e.data)

/-- The target after entries one after another. -/
def Writer.applyAll (t : Writer P) (m : Memory P) (es : List Entry) : Memory P := es.foldl t.apply m

/-- The target takes all of entry `i` when its turn comes. -/
def Writer.Takes (t : Writer P) (m : Memory P) (es : List Entry) (i : Nat) (e : Entry) : Prop :=
  t.AllInFull (t.applyAll m (es.take i)) e.address (chunks e.data)

/-- The header of an entry is read back. -/
theorem recv_header (addr : Address) {len : Nat} (hlen : len < 2 ^ 32) (rest : List Byte) :
    netRecvAll (leBytes 8 addr.toNat ++ leBytes 4 len ++ rest) 12 =
      ⟨leBytes 8 addr.toNat ++ leBytes 4 len, true, rest⟩ ∧
      BitVec.ofNat 64 (leNat 8 (leBytes 8 addr.toNat ++ leBytes 4 len)) = addr ∧
      leNat 4 ((leBytes 8 addr.toNat ++ leBytes 4 len).drop 8) = len := by
  have hhdr : (leBytes 8 addr.toNat ++ leBytes 4 len).length = 12 := by
    rw [List.length_append, length_leBytes, length_leBytes]
  refine ⟨?_, ?_, ?_⟩
  · have htwelve : (12 : Int).toNat = (leBytes 8 addr.toNat ++ leBytes 4 len).length := hhdr.symm
    have hle := (List.sublist_append_left (leBytes 8 addr.toNat ++ leBytes 4 len) rest).length_le
    rw [netRecvAll_eq, htwelve, List.take_left, List.drop_left, decide_eq_true hle]
  · rw [leNat_leBytes_append (by exact addr.isLt), BitVec.ofNat_toNat, BitVec.setWidth_eq]
  · rw [drop_leBytes, leNat_leBytes]
    exact Nat.mod_eq_of_lt hlen

/-- The loop over entries that are sent completely, whatever follows. -/
theorem writeEntries_frames {es : List Entry} (hes : ∀ e ∈ es, e.data.length ≤ PROC_WRITE_MULTI_MAX_ENTRY) (left : Nat)
    (m : Memory P) (tail status : List Byte) :
    ∃ st : List Byte, st.length = es.length ∧ (∀ i e, es[i]? = some e → (st[i]? = some 0 ↔ t.Takes m es i e)) ∧
      writeEntries t (es.length + left) m (es.flatMap Entry.frame ++ tail) status =
        writeEntries t left (t.applyAll m es) tail (status ++ st) := by
  induction es generalizing m status with
  | nil =>
    refine ⟨[], rfl, nofun, ?_⟩
    rw [List.append_nil, List.length_nil, Nat.zero_add]
    rfl
  | cons e es ih =>
    obtain ⟨he, hes'⟩ := List.forall_mem_cons.mp hes
    have hlen : e.data.length < 2 ^ 32 := lt_of_le_of_lt he (by decide)
    obtain ⟨hrecv, haddr, hlen32⟩ := recv_header e.address hlen (e.data ++ (es.flatMap Entry.frame ++ tail))
    obtain ⟨f, hchunks, hf⟩ := writeChunks_eq (t := t) m e.address e.data (es.flatMap Entry.frame ++ tail) 0
    obtain ⟨st, hst, htakes, hrun⟩ := ih hes' (t.apply m e) (status ++ [f])
    refine ⟨f :: st, congrArg (· + 1) hst, ?_, ?_⟩
    · rintro (_ | i) e' he'
      · cases he'
        rw [List.getElem?_cons_zero, Option.some_inj, hf]
        exact and_iff_right rfl
      · rw [List.getElem?_cons_succ]
        exact htakes i e' he'
    · have hframes : (e :: es).flatMap Entry.frame ++ tail =
          leBytes 8 e.address.toNat ++ leBytes 4 e.data.length ++ (e.data ++ (es.flatMap Entry.frame ++ tail)) := by
        rw [List.flatMap_cons, Entry.frame, List.append_assoc, List.append_assoc]
      have hcount : (e :: es).length + left = (es.length + left) + 1 := by
        rw [List.length_cons]
        omega
      rw [hframes, hcount, writeEntries]
      simp only [hrecv, haddr, hlen32, if_true]
      rw [if_neg (Nat.not_lt.mpr he), hchunks]
      simp only [if_true]
      exact hrun.trans (by rw [List.append_assoc]; rfl)

/-- The target after entries that are written one after another, each as a whole. -/
def putEntries [DecidableEq P] (place : Address → P) (m : Memory P) (es : List Entry) : Memory P :=
  es.foldl (fun m e => putAll place m e.address e.data) m

/-- When the target takes all of every entry, each is written as a whole. -/
theorem Kernel.Writes.applyAll_eq [DecidableEq P] {k : Kernel P} (hk : k.Writes) {es : List Entry} {m : Memory P}
    (htakes : ∀ i e, es[i]? = some e → k.writer.Takes m es i e) :
    k.writer.applyAll m es = putEntries k.place m es := by
  induction es generalizing m with
  | nil => rfl
  | cons e es ih =>
    have hfirst : k.writer.apply m e = putAll k.place m e.address e.data :=
      (hk.putChunks_spec m e.address e.data).2 (htakes 0 e rfl)
    have hrest := ih (m := k.writer.apply m e) fun i e' he' => htakes (i + 1) e' he'
    rw [hfirst] at hrest
    rw [putEntries, List.foldl_cons, ← putEntries, ← hrest, Writer.applyAll, List.foldl_cons, hfirst]
    rfl

/-- From a client that sends its entries completely, at most 0xFFFF of them and none over the limit, the handler
leaves the target as the entries one after another do. An entry is written up to bytes that the target does not take;
its status is 0 if and only if the target takes every chunk in full, and when it takes all of every entry they are
written one after another, each as a whole. An entry over the limit is answered with an error, and what was sent
before it is applied. -/
theorem write_multi_sequential [DecidableEq P] {k : Kernel P} (hk : k.Writes) {env : Env}
    (hbuf : env.bufAlloc = true) (hstatus : env.statusAlloc = true)
    (flags : UInt32) {es : List Entry} (hcount : es.length ≤ PROC_WRITE_MULTI_MAX_COUNT.toNat)
    (hes : ∀ e ∈ es, e.data.length ≤ PROC_WRITE_MULTI_MAX_ENTRY) (rest : List Byte) (m : Memory P) :
    (∃ status : List Byte, status.length = es.length ∧
        (∀ i e, es[i]? = some e → (status[i]? = some 0 ↔ k.writer.Takes m es i e)) ∧
        procWriteMultiHandle k.writer env (some ⟨UInt32.ofNat es.length, flags⟩) (es.flatMap Entry.frame ++ rest) m =
          ⟨k.writer.applyAll m es, [statusBytes CMD_SUCCESS] ++
              (if flags &&& PROC_WRITE_MULTI_F_STATUS ≠ 0 ∧ es ≠ [] then [status] else []) ++ [statusBytes CMD_SUCCESS],
            rest, 0⟩) ∧
      (∀ m, ∀ e ∈ es, PartlyPut k.place m e.address e.data (k.writer.apply m e) ∧
        (k.writer.AllInFull m e.address (chunks e.data) →
          k.writer.apply m e = putAll k.place m e.address e.data)) ∧
      ((∀ i e, es[i]? = some e → k.writer.Takes m es i e) →
        k.writer.applyAll m es = putEntries k.place m es) ∧
      ∀ (count : UInt32) (address : Address) (len : Nat), es.length < count.toNat →
        count ≤ PROC_WRITE_MULTI_MAX_COUNT → PROC_WRITE_MULTI_MAX_ENTRY < len → len < 2 ^ 32 →
        procWriteMultiHandle k.writer env (some ⟨count, flags⟩)
            (es.flatMap Entry.frame ++ (leBytes 8 address.toNat ++ leBytes 4 len ++ rest)) m =
          ⟨k.writer.applyAll m es, [statusBytes CMD_SUCCESS, statusBytes CMD_ERROR], rest, 1⟩ := by
  have halloc : ∀ count : UInt32, ¬ (flags &&& PROC_WRITE_MULTI_F_STATUS ≠ 0 ∧ count > 0 ∧
      (!env.statusAlloc) = true) := by
    rintro count ⟨-, -, hno⟩
    rw [hstatus] at hno
    cases hno
  have hbuf' : ¬ (!env.bufAlloc) = true := by
    rw [hbuf]
    decide
  have hmax : PROC_WRITE_MULTI_MAX_COUNT.toNat = 65535 := rfl
  refine ⟨?_, ?_, hk.applyAll_eq, ?_⟩
  · have hnat : (UInt32.ofNat es.length).toNat = es.length := by
      rw [UInt32.toNat_ofNat']
      exact Nat.mod_eq_of_lt (by omega)
    have hle : ¬ UInt32.ofNat es.length > PROC_WRITE_MULTI_MAX_COUNT := by
      rw [gt_iff_lt, UInt32.lt_iff_toNat_lt, hnat]
      omega
    have hsome : UInt32.ofNat es.length > 0 ↔ es ≠ [] := by
      rw [gt_iff_lt, UInt32.lt_iff_toNat_lt, hnat]
      exact List.length_pos_iff
    obtain ⟨status, hlen, htakes, hrun⟩ := writeEntries_frames (t := k.writer) hes 0 m rest []
    refine ⟨status, hlen, htakes, ?_⟩
    rw [Nat.add_zero, writeEntries, List.nil_append] at hrun
    rw [procWriteMultiHandle]
    dsimp only
    rw [if_neg hle, if_neg hbuf', if_neg (halloc _), hnat, hrun]
    simp only [hsome]
  · intro m e he
    exact hk.putChunks_spec m e.address e.data
  · intro count address len hmore hle hover hlen
    have hle' : ¬ count > PROC_WRITE_MULTI_MAX_COUNT := UInt32.not_lt.mpr hle
    obtain ⟨left, hleft⟩ := Nat.exists_eq_add_of_lt hmore
    obtain ⟨status, -, -, hrun⟩ := writeEntries_frames (t := k.writer) hes (left + 1) m
      (leBytes 8 address.toNat ++ leBytes 4 len ++ rest) []
    obtain ⟨hrecv, -, hlen32⟩ := recv_header address hlen rest
    rw [← Nat.add_assoc, ← hleft, writeEntries] at hrun
    simp only [hrecv, hlen32, if_true] at hrun
    rw [if_pos hover] at hrun
    rw [procWriteMultiHandle]
    dsimp only
    rw [if_neg hle', if_neg hbuf', if_neg (halloc _), hrun]

/-- A console with old firmware that takes everything, and two addresses of the target in each place. -/
def plainKernel : Kernel (BitVec 16) where
  place := fun a => a.setWidth 16
  needsDmap := false
  pmapOk := true
  walkLeaf := fun _ => some 3
  inBound := fun _ _ => true
  pipeSet := fun _ _ => true
  pipeWrite := fun m a bs => putAll (fun a => a.setWidth 16) m a bs
  privileged := fun _ => true
  syscall573 := fun m a bs => (putAll (fun a => a.setWidth 16) m a bs, bs.length)

theorem plainKernel_writes : plainKernel.Writes :=
  ⟨fun _ _ _ => rfl, fun _ _ _ => partly_putAll, fun _ _ _ _ => rfl⟩

/-- Two entries of which the second overwrites part of the first. -/
theorem write_multi_overlap :
    (procWriteMultiHandle plainKernel.writer ⟨true, true⟩ (some ⟨2, 0⟩)
      ([⟨0x1000, [1, 2]⟩, ⟨0x11001, [3]⟩].flatMap Entry.frame ++ []) fun _ => 0).mem =
      plainKernel.writer.applyAll (fun _ => 0) [⟨0x1000, [1, 2]⟩, ⟨0x11001, [3]⟩] := by
  obtain ⟨⟨_, -, -, hrun⟩, -⟩ := @write_multi_sequential _ _ plainKernel plainKernel_writes ⟨true, true⟩ rfl rfl 0
    [⟨0x1000, [1, 2]⟩, ⟨0x11001, [3]⟩] (by decide) (by decide) [] fun _ => 0
  exact congrArg Return.mem hrun

/-- As many one-byte entries, all to one place. -/
def sameByte (count : Nat) : List Entry := List.replicate count ⟨0x1000, [1]⟩

/-- 65536 entries are refused, and none of them is applied. -/
theorem write_multi_count_refused :
    (∀ e ∈ sameByte 65536, e.data.length ≤ PROC_WRITE_MULTI_MAX_ENTRY) ∧
      (procWriteMultiHandle plainKernel.writer ⟨true, true⟩ (some ⟨UInt32.ofNat (sameByte 65536).length, 0⟩)
        ((sameByte 65536).flatMap Entry.frame) fun _ => 0).mem ≠
      putEntries plainKernel.place (fun _ => 0) (sameByte 65536) := by
  constructor
  · intro e he
    rw [List.eq_of_mem_replicate he]
    decide
  · have hlast : ∀ count : Nat, putEntries plainKernel.place (fun _ => 0) (sameByte (count + 1)) 0x1000 = 1 := by
      intro count
      rw [putEntries, sameByte, List.replicate_succ', List.foldl_append]
      rfl
    intro heq
    have hone := (congrFun heq 0x1000).trans (hlast 65535)
    rw [sameByte, List.length_replicate] at hone
    cases hone

end WriteMulti

end Ps5Debugger

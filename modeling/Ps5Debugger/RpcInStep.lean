import Ps5Debugger.RpcReplies

/-!
# Every call against its handler

The calls with a reply of their own shape, one after the other: addresses and lists, data behind the
status word in either direction, records up to a sentinel. The main result, `replies_in_step_iff`, puts
them together. `stopProcess` and `resumeProcess` are sequences of these calls.
-/

namespace Ps5Debugger

open Lib

namespace Rpc

variable {os : ServerOs} {q : List Byte}

attribute [local simp] Call.Kept

/-! ## Addresses -/

section Address

variable {k : UInt32 → List Byte → Proc (RpcResult Int64)}

/-- A call that reads an address whatever the status word says. -/
theorem not_matched_word (status : UInt32) (rc : Int) :
    ¬ Matched (Talk.finish ⟨receiveStatus fun status => readExactly 8 (k status), reply status rc, q, []⟩) := by
  rw [reply, finish_status, readExactly_of_toInt (n := 8) rfl]
  exact not_matched_starved _ (by decide)

theorem matched_address (hk : ∀ status bytes, Over (k status bytes)) (status : UInt32) (a : UInt64) (b : Handled) :
    Matched (Talk.finish ⟨receiveStatus fun status => readExactly 8 (k status),
      .send (statusBytes status) (.send (leBytes 8 a.toNat) (.ret b)), q, []⟩) := by
  rw [finish_status, readExactly_of_toInt (n := 8) rfl, finish_exchange _ _ (length_leBytes 8 _)]
  exact matched_over (hk _ _) b

theorem over_address (status : UInt32) (bytes : List Byte) :
    Over (if status ≠ CMD_SUCCESS then .ret (.value 0) else .ret (.value (readLong bytes))) := by
  split
  · exact over_value _
  · exact over_value _

end Address

theorem matches_allocateMemory_iff (pid length : Int32) :
    Matches (MemoryRpcService.allocateMemory pid length) os ↔ (Call.allocateMemory pid length).Kept os := by
  have hcmd (data : List Byte) : cmdHandler os 0xBDAA000B (some data) = procAllocHandle os (some data) := rfl
  rw [Matches, MemoryRpcService.allocateMemory, finish_call (List.ne_nil_of_length_pos (by simp)) (by simp; decide),
    hcmd, Call.Kept]
  cases os.bodyAlloc with
  | false => exact iff_of_false (not_matched_word _ _) fun h => absurd h.1 Bool.false_ne_true
  | true =>
    unfold procAllocHandle
    rw [if_pos rfl, and_iff_right rfl]
    cases os.sysAlloc with
    | none => exact iff_of_false (not_matched_word _ _) Bool.false_ne_true
    | some a => exact iff_of_true (matched_address over_address _ a _) rfl

theorem matches_allocateMemoryHinted_iff (pid : Int32) (hint : Int64) (length : Int32) :
    Matches (MemoryRpcService.allocateMemoryHinted pid hint length) os ↔
      (Call.allocateMemoryHinted pid hint length).Kept os := by
  have hcmd (data : List Byte) : cmdHandler os 0xBDAA000E (some data) = procAllocHintedHandle os (some data) := rfl
  rw [Matches, MemoryRpcService.allocateMemoryHinted,
    finish_call (List.ne_nil_of_length_pos (by simp)) (by simp; decide), hcmd, Call.Kept]
  cases os.bodyAlloc with
  | false => exact iff_of_false (not_matched_word _ _) Bool.false_ne_true
  | true =>
    rw [if_pos rfl]
    exact iff_of_true (matched_address over_address _ _ _) rfl

/-! ## Blocks of an announced size -/

/-- A size that may be negative, which is no array of the client and nothing to send for the server. -/
theorem matched_sized {R : Type} {len : Int32} {bs : List Byte} {f : List Byte → Proc (RpcResult R)}
    (hlen : bs.length = len.toInt.toNat) (hf : Over (f bs)) (b : Handled) :
    Matched (Talk.finish ⟨readExactly len f, .send bs (.ret b), q, []⟩) := by
  by_cases hneg : len < 0
  · rw [readExactly, if_pos hneg]
    exact matched_thrown _
  · rw [finish_readExactly (by have := toInt_of_nonneg hneg; omega)]
    exact matched_over hf b

theorem over_parseEntries {α : Type} (size : Nat) (parse : List Byte → α) (count : Int32) (data : List Byte) :
    Over (.ret (parseEntries size parse count data)) := by
  unfold parseEntries
  split
  · exact over_value _
  · exact over_thrown

theorem matches_readMemory (pid : Int32) (address : Int64) (length : Int32) :
    Matches (MemoryRpcService.readMemory pid address length) os := by
  have hlen : word32 (writeInt pid ++ writeLong address ++ writeInt length) 12 = length.toUInt32 :=
    word32_int_last length (by simp)
  refine matches_call (n := 16) (procReadHandle os) (fun _ => rfl) (by simp) (by decide)
    (refusable_unless over_refused) ?_
  rw [procReadHandle, matched_buffer_iff (matched_refusal (refusable_unless over_refused) dataNull_ne_success 1), hlen]
  intro _ _
  refine ⟨rfl, ?_⟩
  rw [finish_success]
  by_cases hneg : length < 0
  · rw [readExactly, if_pos hneg]
    exact matched_thrown _
  · rw [readExactly_of_toInt (toInt_of_nonneg hneg), finish_readAll _ _ (length_readBlocks _ _ _)]
    exact matched_over (over_value _) _

theorem toInt_readInt {n : Nat} (hn : n < 2 ^ 31) : (readInt (leBytes 4 n)).toInt = n := by
  have hsize : (UInt32.ofNat n).toNat = n := UInt32.toNat_ofNat_of_lt' (hn.trans (by decide))
  rw [readInt, leNat_leBytes, Nat.mod_eq_of_lt (hn.trans (by decide)), toInt_of_lt (by rw [hsize]; exact hn), hsize]

theorem matches_getProcesses : Matches ProcessRpcService.getProcesses os := by
  have hcmd : cmdHandler os 0xBDAA0001 none = procListHandle os := rfl
  rw [Matches, ProcessRpcService.getProcesses, finish_bare, hcmd]
  unfold procListHandle
  cases os.procs with
  | none => exact matched_refusal (refusable_unless (over_value _)) dataNull_ne_success 1
  | some procs =>
    have hcount : min procs 0x1000 ≤ 0x1000 := Nat.min_le_right _ _
    dsimp only
    generalize min procs 0x1000 = count at hcount
    have hbytes : (UInt32.ofNat (count * 36)).toNat = count * 36 :=
      UInt32.toNat_ofNat_of_lt' (lt_of_le_of_lt (Nat.mul_le_mul_right 36 hcount) (by decide))
    have hsize : (readInt (leBytes 4 count) * 36).toInt = (count * 36 : Nat) := by
      have h36 : (36 : Int32).toInt = 36 := rfl
      rw [Int32.toInt_mul, toInt_readInt (by omega), h36, Int.bmod_eq_of_le (by omega) (by omega)]
      omega
    by_cases hzero : count = 0
    · rw [if_pos hzero]
      exact matched_refusal (refusable_unless (over_value _)) dataNull_ne_success 1
    · rw [if_neg hzero, matched_buffer_iff (matched_refusal (refusable_unless (over_value _)) dataNull_ne_success 1)]
      intro _ _
      refine ⟨allocEnds_of_lt (by omega), ?_⟩
      rw [finish_success, finish_readExactly (by rw [length_leBytes]; rfl), readExactly_of_toInt hsize,
        finish_exchange]
      · exact matched_over (over_parseEntries _ _ _ _) _
      · have hentry (i : Nat) : (os.procEntry i).val.length = 36 := (os.procEntry i).property
        simp [List.length_flatMap, hentry]

theorem matches_getMaps (pid : Int32) : Matches (ProcessRpcService.getMaps pid) os := by
  refine matches_call (n := 4) (procMapsHandle os) (fun _ => rfl) (by simp) (by decide)
    (refusable_unless (over_value _)) ?_
  unfold procMapsHandle
  cases os.vmMap with
  | none => exact matched_refusal (refusable_unless (over_value _)) error_ne_success 1
  | some vm =>
    obtain ⟨count, maps⟩ := vm
    dsimp only
    by_cases hzero : count = 0
    · rw [if_pos hzero]
      exact matched_refusal (refusable_unless (over_value _)) error_ne_success 1
    · rw [if_neg hzero]
      cases maps with
      | none => exact matched_refusal (refusable_unless (over_value _)) dataNull_ne_success 1
      | some maps =>
        dsimp only
        generalize os.augmented.getD (count, maps) = found
        obtain ⟨count, maps⟩ := found
        rw [finish_success, finish_readExactly (by rw [length_leBytes]; rfl), readInt_leBytes,
          Int32.toInt32_toUInt32]
        exact matched_sized (length_slice ..) (over_parseEntries _ _ _ _) _

/-! ## Data behind the packet -/

theorem matches_writeMemory (pid : Int32) (address : Int64) (data : ByteArr) :
    Matches (MemoryRpcService.writeMemory pid address data) os :=
  matches_call (n := 16) (procWriteHandle os) (fun _ => rfl) (by simp) (by decide) (refusable_unless (over_value _))
    (served_writeMemory pid address data).matched

/-- The error that an oversize entry gets is too short for a call that waits for status bytes. -/
theorem not_matched_short {n : Nat} (hn : 0 < n) :
    ¬ Matched (Talk.finish ⟨.recv n fun _ => receiveSuccess, reply CMD_ERROR 1, q, []⟩) := by
  have hword : (statusBytes CMD_ERROR).length = 4 := length_statusBytes _
  rw [reply, Talk.finish_serverSend, List.nil_append]
  by_cases hle : n ≤ 4
  · have htake : ((statusBytes CMD_ERROR).take n).length = n := by rw [List.length_take]; omega
    rw [← List.take_append_drop n (statusBytes CMD_ERROR), Talk.finish_clientRecv _ htake, receiveSuccess,
      receiveStatus, Talk.finish_recv_ret _ _ (by rw [List.length_drop]; omega)]
    rintro ⟨⟩
  · rw [Talk.finish_recv_ret _ _ (by omega)]
    rintro ⟨⟩

/-- Entries of which one is too long. -/
theorem matched_tooLong_iff (pid : UInt32) {ws : List (Int64 × ByteArr)}
    (hws : ∃ w ∈ ws, w.2.val.length > PROC_WRITE_MULTI_MAX_ENTRY) (withStatusReport : Bool)
    (k : List Byte → List Seen → Proc Handled) :
    Matched (Talk.finish ⟨.send (ws.flatMap MemoryRpcService.writeEntry) <|
      if withStatusReport then .recv ws.length fun _ => receiveSuccess else receiveSuccess,
        multiEntries os pid ws.length k, [], []⟩) ↔ withStatusReport = false := by
  obtain ⟨rest, hfin⟩ := finish_multiEntries_tooLong
    (if withStatusReport then .recv ws.length fun _ => receiveSuccess else receiveSuccess) [] [] os pid hws k
  rw [List.append_nil] at hfin
  rw [Talk.finish_clientSend, List.nil_append, hfin]
  cases withStatusReport with
  | false =>
    refine iff_of_true ?_ rfl
    rw [if_neg (by decide), receiveSuccess]
    exact matched_reply (over_value _) 1
  | true =>
    obtain ⟨w, hw, -⟩ := hws
    exact iff_of_false (not_matched_short (List.length_pos_of_mem hw)) (by decide)

theorem matches_writeMemoryMulti_iff (pid : Int32) (writes : MemoryRpcService.Writes) (withStatusReport : Bool) :
    Matches (MemoryRpcService.writeMemoryMulti pid writes withStatusReport) os ↔
      (Call.writeMemoryMulti pid writes withStatusReport).Kept os := by
  have hsize : (UInt32.ofNat writes.val.length).toNat = writes.val.length :=
    UInt32.toNat_ofNat_of_lt' (writes.property.trans (by decide))
  unfold MemoryRpcService.writeMemoryMulti
  rw [matches_call_iff (n := 12) (procWriteMultiHandle os) (fun _ => rfl) (by simp) (by decide)
    (refusable_unless (over_value _)), Call.Kept]
  by_cases hws : ∀ w ∈ writes.val, w.2.val.length ≤ PROC_WRITE_MULTI_MAX_ENTRY
  · exact iff_of_true (fun _ => (served_writeMemoryMulti pid writes withStatusReport hws).matched)
      fun _ _ _ _ _ => hws
  · have hlong : ∃ w ∈ writes.val, w.2.val.length > PROC_WRITE_MULTI_MAX_ENTRY := by simpa using hws
    have hpos : writes.val.length > 0 := by
      obtain ⟨w, hw, -⟩ := hlong
      exact List.length_pos_of_mem hw
    unfold procWriteMultiHandle
    simp only [wantStatus_iff, multiCount, hsize]
    by_cases hmany : writes.val.length > PROC_WRITE_MULTI_MAX_COUNT
    · rw [if_pos hmany]
      exact iff_of_true (fun _ => matched_refusal (refusable_unless (over_value _)) error_ne_success 1)
        fun _ _ hcount => absurd hmany (not_lt.mpr hcount)
    · rw [if_neg hmany, matched_buffer_iff (matched_refusal (refusable_unless (over_value _)) dataNull_ne_success 1)]
      cases withStatusReport with
      | false =>
        have hstatus : ¬ (false = true ∧ writes.val.length > 0) := fun h => by cases h.1
        rw [if_neg hstatus, finish_success, matched_tooLong_iff _ hlong]
        exact iff_of_true (fun _ _ _ => ⟨rfl, rfl⟩) nofun
      | true =>
        have hne : UInt32.ofNat writes.val.length ≠ 0 := by
          intro hz
          rw [hz] at hsize
          exact absurd hpos (by rw [← hsize]; decide)
        have hstatus : true = true ∧ writes.val.length > 0 := ⟨rfl, hpos⟩
        rw [if_pos hstatus,
          matched_buffer_iff (matched_refusal (refusable_unless (over_value _)) dataNull_ne_success 1),
          finish_success, matched_tooLong_iff _ hlong]
        constructor
        · intro h _ halloc _ hm hm'
          exact absurd ((h halloc (by decide) hm).2 hne hm').2 nofun
        · intro h halloc _ hm
          exact ⟨rfl, fun _ hm' => absurd (h rfl halloc (not_lt.mp hmany) hm hm') hws⟩

/-- A command that writes registers needs the session that it looks into. -/
theorem matches_writeRegs_iff (k : RegSet) (lengthOk : UInt32 → Bool) {cmd : UInt32} (lwpid : Int32)
    (hcmd : ∀ data, cmdHandler os cmd data = regWriteHandle k lengthOk os data) {regBytes : List Byte}
    (hlen : regBytes.length < 2 ^ 31) : Matches (DebuggerRpcService.writeRegs cmd lwpid regBytes) os ↔
      (os.bodyAlloc = true → os.state.attached = true → os.state.curdbgctx ≠ none) := by
  unfold DebuggerRpcService.writeRegs
  rw [matches_call_iff (n := 8) _ hcmd (by simp) (by decide) (refusable_unless (over_value _))]
  refine imp_congr_right fun _ => ⟨fun hm hatt hnone => ?_, fun hsafe => ?_⟩
  · rw [regWriteHandle, matched_session_iff (refusable_unless (over_value _))] at hm
    exact hm.1 hatt hnone
  · exact (served_writeRegs k lengthOk lwpid hlen hsafe).matched

theorem matches_setRegs_iff (lwpid : Int32) (regs : GpRegs) :
    Matches (DebuggerRpcService.setRegs lwpid regs) os ↔ (Call.setRegs lwpid regs).Kept os := by
  have hcmd (data : Option (List Byte)) : cmdHandler os 0xBDBB0009 data = debugSetregsHandle os data := rfl
  exact matches_writeRegs_iff .regs (fun _ => true) lwpid hcmd (by rw [length_gpRegs]; decide)

theorem matches_setFpRegs_iff (lwpid : Int32) (fpBytes : ByteArr) :
    Matches (DebuggerRpcService.setFpRegs lwpid fpBytes) os ↔ (Call.setFpRegs lwpid fpBytes).Kept os := by
  have hcmd (data : Option (List Byte)) : cmdHandler os 0xBDBB000B data = debugSetfpregsHandle os data := rfl
  exact matches_writeRegs_iff .fpregs _ lwpid hcmd fpBytes.property

theorem matches_setFsGsBase_iff (lwpid : Int32) (fsBase gsBase : Int64) :
    Matches (DebuggerRpcService.setFsGsBase lwpid fsBase gsBase) os ↔
      (Call.setFsGsBase lwpid fsBase gsBase).Kept os := by
  have hcmd (data : Option (List Byte)) : cmdHandler os 0xBDBB000F data = debugSetfsgsbaseHandle os data := rfl
  exact matches_writeRegs_iff .fsgsbase _ lwpid hcmd (by simp)

theorem matches_setDbRegs_iff (lwpid : Int32) (dbRegs : DbRegs) :
    Matches (DebuggerRpcService.setDbRegs lwpid dbRegs) os ↔ (Call.setDbRegs lwpid dbRegs).Kept os := by
  have hcmd (data : Option (List Byte)) : cmdHandler os 0xBDBB000D data = debugSetdbregsHandle os data := rfl
  unfold DebuggerRpcService.setDbRegs
  rw [Call.Kept]
  rcases dbRegs.bytes_cases with ⟨hroom, regBytes, hbytes, hlen⟩ | ⟨hroom, hbytes⟩
  · rw [hbytes, forall_prop_of_true hroom]
    exact matches_writeRegs_iff .dbregs (fun _ => true) lwpid hcmd (by rw [hlen]; decide)
  · rw [hbytes]
    exact iff_of_true (matched_thrown _) fun h => absurd h hroom

/-- A command that reads registers. -/
theorem matches_readRegs_iff (k : RegSet) {cmd : UInt32} {size : Int32} (lwpid : Int32)
    (hcmd : ∀ data, cmdHandler os cmd data = regReadHandle k os data) (hsize : size.toInt = k.size) :
    Matches (DebuggerRpcService.readRegs cmd size lwpid) os ↔
      (os.bodyAlloc = true → os.state.attached = true → os.state.curdbgctx ≠ none) := by
  unfold DebuggerRpcService.readRegs
  rw [matches_call_iff (n := 4) _ hcmd (by simp) (by decide) (refusable_unless over_thrown), regReadHandle,
    matched_session_iff (refusable_unless over_thrown)]
  refine imp_congr_right fun _ => and_iff_left fun _ => ?_
  split
  · exact matched_block (by rw [Blob.bytes, List.length_ofFn, hsize]) (over_value _)
  · exact matched_refusal (refusable_unless over_thrown) error_ne_success 0

theorem matches_getRegs_iff (lwpid : Int32) :
    Matches (DebuggerRpcService.getRegs lwpid) os ↔ (Call.getRegs lwpid).Kept os := by
  have hcmd (data : Option (List Byte)) : cmdHandler os 0xBDBB0008 data = debugGetregsHandle os data := rfl
  exact matches_readRegs_iff .regs lwpid hcmd (by decide)

theorem matches_getFpRegs_iff (lwpid : Int32) :
    Matches (DebuggerRpcService.getFpRegs lwpid) os ↔ (Call.getFpRegs lwpid).Kept os := by
  have hcmd (data : Option (List Byte)) : cmdHandler os 0xBDBB000A data = debugGetfpregsHandle os data := rfl
  exact matches_readRegs_iff .fpregs lwpid hcmd (by decide)

theorem matches_getDbRegs_iff (lwpid : Int32) :
    Matches (DebuggerRpcService.getDbRegs lwpid) os ↔ (Call.getDbRegs lwpid).Kept os := by
  have hcmd (data : Option (List Byte)) : cmdHandler os 0xBDBB000C data = debugGetdbregsHandle os data := rfl
  exact matches_readRegs_iff .dbregs lwpid hcmd (by decide)

theorem matches_getFsGsBase_iff (lwpid : Int32) :
    Matches (DebuggerRpcService.getFsGsBase lwpid) os ↔ (Call.getFsGsBase lwpid).Kept os := by
  have hcmd (data : Option (List Byte)) : cmdHandler os 0xBDBB000E data = debugGetfsgsbaseHandle os data := rfl
  exact matches_readRegs_iff .fsgsbase lwpid hcmd (by decide)

theorem matches_uploadElfRpc_iff (pid : Int32) (elfBytes : ByteArr) :
    Matches (ProcessRpcService.uploadElfRpc pid elfBytes) os ↔ (Call.uploadElfRpc pid elfBytes).Kept os := by
  unfold ProcessRpcService.uploadElfRpc
  rw [matches_call_iff (n := 8) (procElfRpcHandle os) (fun _ => rfl) (by simp) (by decide)
    (refusable_unless (over_value _)), Call.Kept]
  refine imp_congr_right fun _ => ?_
  obtain ⟨e, rc, seen, out, hfin, -, hout⟩ := finish_uploadElf os pid elfBytes
  unfold readSymbols at hfin
  rw [hfin, ← hout]
  constructor
  · rintro ⟨⟩
    rfl
  · rintro rfl
    exact .value e _ []

/-! ## A command that is not there -/

theorem matches_pullFile_iff (unsupported : Bool) (path : ByteArr) :
    Matches (ProcessRpcService.pullFile unsupported path) os ↔ (Call.pullFile unsupported path).Kept os := by
  unfold ProcessRpcService.pullFile
  rw [Call.Kept]
  cases unsupported with
  | true => exact iff_of_true (.value none _ []) fun h => by cases h
  | false =>
    have hlen : (path.val ++ [0]).length = path.val.length + 1 := List.length_append
    have hne : path.val ++ [0] ≠ [] := List.append_ne_nil_of_right_ne_nil _ (List.cons_ne_nil _ _)
    rw [if_neg (by decide), forall_prop_of_true rfl]
    by_cases hfits : 12 + (path.val ++ [0]).length < 2 ^ 31
    · rw [Matches, finish_packet hfits]
      by_cases hmax : path.val.length + 1 ≤ maxDatalen
      · rw [forall_prop_of_true hmax]
        cases halloc : os.bodyAlloc with
        | true =>
          have hcmd (data : Option (List Byte)) : cmdHandler os 0xBDDD0007 data = .ret (.returned 1 []) := rfl
          rw [finish_body hne (by omega) halloc, hcmd]
          exact iff_of_false (not_matched_killed _) fun h => by cases h
        | false =>
          rw [servePacket_noMemory hne (by omega) halloc]
          exact iff_of_true (matched_refusal (refusable_unless (over_value _)) dataNull_ne_success 0) rfl
      · rw [servePacket_tooLong (by omega)]
        exact iff_of_true (matched_refusal (refusable_unless (over_value _)) error_ne_success 0)
          fun h => absurd h hmax
    · rw [Matches, sendPacketOr, if_neg hfits]
      have hmax : ¬ path.val.length + 1 ≤ maxDatalen := by
        have hsmall : maxDatalen + 12 < 2 ^ 31 := by decide
        omega
      exact iff_of_true (.value none _ []) fun h => absurd h hmax

/-! ## The list of threads -/

/-- What is sent to a call that has its result is left. -/
theorem matched_left_iff {R : Type} {v : R} {bs : List Byte} {b : Handled} :
    Matched (Talk.finish ⟨.ret (.value v), .send bs (.ret b), q, []⟩) ↔ bs = [] := by
  rw [Talk.finish_serverSend, Talk.finish_ret, List.nil_append]
  constructor
  · rintro ⟨⟩
    rfl
  · rintro rfl
    exact .value v _ q

theorem matches_getThreadList_iff :
    Matches DebuggerRpcService.getThreadList os ↔ Call.getThreadList.Kept os := by
  have hcmd : cmdHandler os 0xBDBB0005 none = debugGetThreadListHandle os := rfl
  rw [Matches, DebuggerRpcService.getThreadList, finish_bare, hcmd, debugGetThreadListHandle,
    matched_session_iff (refusable_unless (over_value _)), Call.Kept]
  refine and_congr_right fun _ => imp_congr_right fun _ => ?_
  cases os.lwpCount with
  | none =>
    exact iff_of_true (matched_refusal (refusable_unless (over_value _)) error_ne_success 1) fun _ h => by cases h
  | some count =>
    dsimp only
    rw [matched_buffer_iff (matched_refusal (refusable_unless (over_value _)) error_ne_success 1)]
    simp only [Option.mem_some_iff, forall_eq']
    refine imp_congr_right fun _ => imp_congr_right fun _ => and_congr_right fun _ => ?_
    cases os.lwpList with
    | false =>
      exact iff_of_true (matched_refusal (refusable_unless (over_value _)) error_ne_success 1)
        fun h => absurd h Bool.false_ne_true
    | true =>
      rw [if_neg (by decide), finish_success, finish_readExactly (by rw [length_leBytes]; rfl), readInt_leBytes,
        Int32.toInt32_toUInt32, forall_prop_of_true rfl]
      by_cases hpos : count > 0
      · rw [if_pos hpos]
        exact iff_of_true (matched_sized (length_slice ..) (over_parseEntries _ _ _ _) _) (.inl hpos)
      · rw [if_neg hpos, matched_left_iff, or_iff_right hpos, Int32.le_iff_toInt_le, Int32.toInt_zero,
          ← List.length_eq_zero_iff, length_slice]
        omega

/-! ## Records up to a sentinel -/

theorem length_entryBytes (e : DisasmInstrEntry) : (entryBytes e).length = DISASM_INSTR_ENTRY_SIZE := by
  simp [entryBytes, DISASM_INSTR_ENTRY_SIZE]

theorem length_disasmFillEntry (z : Zydis) (addr : Nat) (insn : Insn) :
    (disasmFillEntry z addr insn).length = insn.length := by
  rw [disasmFillEntry]
  induction insn.operands with
  | nil => rfl
  | cons op ops ih =>
    cases op with
    | other => exact ih
    | memory m =>
      rw [fillOperand]
      dsimp only
      split <;> rfl

/-- No record is taken for the sentinel: its length field is that of an instruction. -/
theorem entryBytes_ne_sentinel (z : Zydis) (addr : Nat) (insn : Insn) :
    (entryBytes (disasmFillEntry z addr insn)).all (· == 0xFF) = false := by
  rw [List.all_eq_false]
  have hlen : (disasmFillEntry z addr insn).length ≤ 15 := by
    rw [length_disasmFillEntry]
    exact insn.short
  refine ⟨BitVec.ofNat 8 (disasmFillEntry z addr insn).length, ?_, ?_⟩
  · exact List.mem_append_right _ (List.mem_append_right _ (List.mem_append_right _
      (List.mem_append_left _ (by simp [leBytes]))))
  · intro h
    have hbyte := congrArg BitVec.toNat (beq_iff_eq.mp h)
    rw [BitVec.toNat_ofNat] at hbyte
    have hff : (0xFF : Byte).toNat = 255 := rfl
    omega

/-- What DISASM_REGION comes to. -/
theorem procDisasmRegionHandle_cases (z : Zydis) (io : ChunkIo) (dp : DisasmPacket) (bufAlloc chunkAlloc : Bool) :
    (∃ status, status ≠ CMD_SUCCESS ∧
      procDisasmRegionHandle z io (some dp) bufAlloc chunkAlloc = some { replies := [status] }) ∨
    ∃ rs : List (Nat × Insn), procDisasmRegionHandle z io (some dp) bufAlloc chunkAlloc = some
      { replies := [CMD_SUCCESS], entries := rs.map fun r => disasmFillEntry z r.1 r.2, sentinel := true } := by
  rw [procDisasmRegionHandle]
  split
  · exact .inl ⟨_, error_ne_success, rfl⟩
  · split
    · exact .inl ⟨_, dataNull_ne_success, rfl⟩
    · cases chunkAlloc with
      | false => exact .inr ⟨[], rfl⟩
      | true =>
        rw [disasmIterate_eq]
        obtain ⟨c, hrun, -, heq⟩ := emitRecords_disasmEmitRecord z
          (disasmRecords z io dp.address.toNat dp.length dp.max_entries.toNat) {} (by decide)
        refine .inr ⟨disasmRecords z io dp.address.toNat dp.length dp.max_entries.toNat, ?_⟩
        rw [hrun, Option.map_some, heq]
        rfl

theorem inStep_disassembleRegion (pid : Int32) (address : Int64) (length maxEntries : Int32) :
    (Call.disassembleRegion pid address length maxEntries).InStep os := by
  rw [Call.inStep_iff]
  rcases procDisasmRegionHandle_cases os.zydis os.chunkIo
      ⟨word64 (writeInt pid ++ writeLong address ++ writeInt length ++ writeInt maxEntries) 4,
        word32 (writeInt pid ++ writeLong address ++ writeInt length ++ writeInt maxEntries) 12,
        word32 (writeInt pid ++ writeLong address ++ writeInt length ++ writeInt maxEntries) 16⟩
      (os.malloc 0x10000) os.chunkAlloc with ⟨status, hne, hreply⟩ | ⟨rs, hreply⟩
  · refine ⟨0, fun fuel _ => ?_⟩
    show Matches (MemoryRpcService.disassembleRegion fuel pid address length maxEntries) os
    refine matches_call (n := 20) (disasmRegionHandle os) (fun _ => rfl) (by simp) (by decide)
      (refusable_unless over_thrown) ?_
    rw [disasmRegionHandle, Option.map_some, hreply]
    exact matched_refusal (refusable_unless over_thrown) hne 1
  · refine ⟨rs.length + 1, fun fuel hfuel => ?_⟩
    have hentries : ∀ block ∈ (rs.map fun r => disasmFillEntry os.zydis r.1 r.2).map entryBytes,
        block.length = DISASM_INSTR_ENTRY_SIZE ∧ block.all (· == 0xFF) = false := by
      rw [List.map_map, List.forall_mem_map]
      exact fun r _ => ⟨length_entryBytes _, entryBytes_ne_sentinel os.zydis r.1 r.2⟩
    show Matches (MemoryRpcService.disassembleRegion fuel pid address length maxEntries) os
    refine matches_call (n := 20) (disasmRegionHandle os) (fun _ => rfl) (by simp) (by decide)
      (refusable_unless over_thrown) ?_
    rw [disasmRegionHandle, Option.map_some, hreply]
    show Matched (Talk.finish ⟨_, .send (statusBytes CMD_SUCCESS) (.sendAll
      ((rs.map fun r => disasmFillEntry os.zydis r.1 r.2).map entryBytes ++
        [List.replicate DISASM_INSTR_ENTRY_SIZE 0xFF]) _), [], []⟩)
    rw [finish_success, Talk.finish_sendAll, List.nil_append, List.flatten_append, List.flatten_singleton,
      ← List.append_nil (List.replicate DISASM_INSTR_ENTRY_SIZE 0xFF),
      finish_readUntil hentries ⟨List.length_replicate, by decide⟩ (by rw [List.length_map, List.length_map]; omega)]
    exact matched_over (over_value _) _

/-- What FIND_XREFS_TO comes to: the sentinel alone, unless its callback kills the process. -/
theorem findXrefsToHandle_cases (xp : XrefsToPacket) {buf : Nat} (hbuf : os.xrefs.buf = some buf) :
    ((os.chunkAlloc = true → ∀ e ∈ disasmEntries os.zydis os.chunkIo xp.scan_address.toNat xp.scan_length 10000000,
        e.ripRelative = true → e.rip_rel_target ≠ xrefsTarget (formatterIntel os.xrefs.pad)) ∧
      ∃ r, procFindXrefsToHandle os.zydis os.chunkIo (some xp) os.chunkAlloc os.xrefs = some r ∧
        r.replies = [CMD_SUCCESS] ∧ r.stream os.xrefs.fd = [xrefsSentinel]) ∨
    (os.chunkAlloc = true ∧ ¬ (∀ e ∈ disasmEntries os.zydis os.chunkIo xp.scan_address.toNat xp.scan_length 10000000,
        e.ripRelative = true → e.rip_rel_target ≠ xrefsTarget (formatterIntel os.xrefs.pad)) ∧
      procFindXrefsToHandle os.zydis os.chunkIo (some xp) os.chunkAlloc os.xrefs = none) := by
  have hstream : ((os.xrefs.init buf (XrefsCtx.ofBytesTo (formatterIntel os.xrefs.pad))).finish os.xrefs.fd).stream
      os.xrefs.fd = [xrefsSentinel] := stream_finish _ _ rfl
  cases hchunk : os.chunkAlloc with
  | false =>
    refine .inl ⟨nofun, _, ?_, rfl, hstream⟩
    unfold procFindXrefsToHandle
    rw [hbuf]
    rfl
  | true =>
    rw [procFindXrefsToHandle_eq os.zydis os.chunkIo xp os.xrefs hbuf, ← misses_target_iff]
    cases hrun : emitRecords (xrefsToEmit os.xrefs.space (os.xrefs.targets xp.target_address.toNat)).asEmitFn
        (disasmRecords os.zydis os.chunkIo xp.scan_address.toNat xp.scan_length 10000000)
        (os.xrefs.init buf (XrefsCtx.ofBytesTo (formatterIntel os.xrefs.pad))) with
    | none =>
      refine .inr ⟨rfl, fun hmiss => ?_, rfl⟩
      have hsome : emitRecords (xrefsToEmit os.xrefs.space (os.xrefs.targets xp.target_address.toNat)).asEmitFn
          (disasmRecords os.zydis os.chunkIo xp.scan_address.toNat xp.scan_length 10000000)
          (os.xrefs.init buf (XrefsCtx.ofBytesTo (formatterIntel os.xrefs.pad))) =
            some (os.xrefs.init buf (XrefsCtx.ofBytesTo (formatterIntel os.xrefs.pad))) := by
        rw [emitRecords_xrefsToEmit]
        exact ⟨rfl, hmiss⟩
      rw [hrun] at hsome
      cases hsome
    | some s =>
      obtain ⟨rfl, hmiss⟩ := (emitRecords_xrefsToEmit _ s).mp hrun
      exact .inl ⟨fun _ => hmiss, _, rfl, rfl, hstream⟩

theorem inStep_findXrefs_iff (pid : Int32) (scanAddress : Int64) (scanLength : Int32) (targetAddress : Int64) :
    (Call.findXrefs pid scanAddress scanLength targetAddress).InStep os ↔
      (Call.findXrefs pid scanAddress scanLength targetAddress).Kept os := by
  have hcall (fuel : Nat) : Matched (Talk.finish
      ⟨(Call.findXrefs pid scanAddress scanLength targetAddress).program fuel, handleClient os, [], []⟩) ↔
        (os.bodyAlloc = true → Matched (Talk.finish
          ⟨receiveStatus fun status => if status ≠ CMD_SUCCESS then .ret .thrown
            else readUntil 8 (fun block => readLong block == -1) fuel fun blocks => .ret (.value (blocks.map readLong)),
            findXrefsToHandle os (some (writeInt pid ++ writeLong scanAddress ++ writeInt scanLength ++
              writeLong targetAddress)), [], []⟩)) := by
    show Matches (MemoryRpcService.findXrefs fuel pid scanAddress scanLength targetAddress) os ↔ _
    exact matches_call_iff (n := 24) (findXrefsToHandle os) (fun _ => rfl) (by simp) (by decide)
      (refusable_unless over_thrown)
  have haddr : word64 (writeInt pid ++ writeLong scanAddress ++ writeInt scanLength ++ writeLong targetAddress) 4 =
      scanAddress.toUInt64 := by
    rw [List.append_assoc, List.append_assoc, word64_long scanAddress (length_writeInt pid)]
  have hlen : word32 (writeInt pid ++ writeLong scanAddress ++ writeInt scanLength ++ writeLong targetAddress) 12 =
      scanLength.toUInt32 := by
    rw [List.append_assoc, word32_int scanLength (by simp)]
  rw [Call.inStep_iff, Call.Kept]
  simp only [hcall]
  cases os.bodyAlloc with
  | false => exact iff_of_true ⟨0, fun _ _ h => absurd h Bool.false_ne_true⟩ fun h => absurd h Bool.false_ne_true
  | true =>
    simp only [forall_prop_of_true, findXrefsToHandle, Option.map_some, haddr, hlen]
    cases hbuf : os.xrefs.buf with
    | none =>
      have hreply (xp : XrefsToPacket) : procFindXrefsToHandle os.zydis os.chunkIo (some xp) os.chunkAlloc os.xrefs =
          some { replies := [CMD_DATA_NULL] } := by
        unfold procFindXrefsToHandle
        rw [hbuf]
      simp only [hreply]
      exact iff_of_true ⟨0, fun _ _ => matched_refusal (refusable_unless over_thrown) dataNull_ne_success 1⟩
        fun h => by cases h
    | some buf =>
      rcases findXrefsToHandle_cases ⟨scanAddress.toUInt64, scanLength.toUInt32,
          word64 (writeInt pid ++ writeLong scanAddress ++ writeInt scanLength ++ writeLong targetAddress) 16⟩ hbuf
        with ⟨hmiss, r, hreply, hword, hstream⟩ | ⟨hchunk, hhit, hreply⟩
      · simp only [hreply, hword, hstream]
        refine iff_of_true ⟨1, fun fuel hfuel => ?_⟩ fun _ => hmiss
        obtain ⟨n, rfl⟩ := Nat.exists_eq_add_of_le' hfuel
        show Matched (Talk.finish ⟨_, .send (statusBytes CMD_SUCCESS) (.send (leBytes 8 xrefsSentinel) _), [], []⟩)
        rw [finish_success, readUntil, finish_exchange _ _ (length_leBytes 8 _), if_pos (by decide)]
        exact matched_over (over_value _) _
      · simp only [hreply]
        refine iff_of_false ?_ fun h => hhit (h rfl hchunk)
        rintro ⟨N, hN⟩
        have hend := hN (N + 1) (Nat.le_succ N)
        rw [finish_success] at hend
        exact not_matched_starved _ (by decide) hend

/-! ## All calls -/

/-- **Client and server are in step on the replies.** For every call, all of its arguments and all answers
of the system: whatever the order of the steps, the call comes to its end, and if it returns nothing of
the reply is left, exactly on the stated condition. -/
theorem replies_in_step_iff (r : Call) (os : ServerOs) : r.InStep os ↔ r.Kept os := by
  cases r with
  | readMemory pid address length =>
    exact (Call.inStep_of_program fun _ => rfl).trans (iff_of_true (matches_readMemory pid address length) trivial)
  | writeMemory pid address data =>
    exact (Call.inStep_of_program fun _ => rfl).trans (iff_of_true (matches_writeMemory pid address data) trivial)
  | writeMemoryMulti pid writes withStatusReport =>
    exact (Call.inStep_of_program fun _ => rfl).trans (matches_writeMemoryMulti_iff pid writes withStatusReport)
  | allocateMemory pid length =>
    exact (Call.inStep_of_program fun _ => rfl).trans (matches_allocateMemory_iff pid length)
  | allocateMemoryHinted pid hint length =>
    exact (Call.inStep_of_program fun _ => rfl).trans (matches_allocateMemoryHinted_iff pid hint length)
  | freeMemory pid address length =>
    exact (Call.inStep_of_program fun _ => rfl).trans (iff_of_true (matches_freeMemory pid address length) trivial)
  | changeProtection pid address length prot =>
    exact (Call.inStep_of_program fun _ => rfl).trans
      (iff_of_true (matches_changeProtection pid address length prot) trivial)
  | disassembleRegion pid address length maxEntries =>
    exact iff_of_true (inStep_disassembleRegion pid address length maxEntries) trivial
  | findXrefs pid scanAddress scanLength targetAddress =>
    exact inStep_findXrefs_iff pid scanAddress scanLength targetAddress
  | getKernBase => exact (Call.inStep_of_program fun _ => rfl).trans (iff_of_true matches_getKernBase trivial)
  | getProcesses => exact (Call.inStep_of_program fun _ => rfl).trans (iff_of_true matches_getProcesses trivial)
  | getMaps pid => exact (Call.inStep_of_program fun _ => rfl).trans (iff_of_true (matches_getMaps pid) trivial)
  | getProcessInfo pid =>
    exact (Call.inStep_of_program fun _ => rfl).trans (iff_of_true (matches_getProcessInfo pid) trivial)
  | getForegroundApp => exact (Call.inStep_of_program fun _ => rfl).trans (iff_of_true matches_getForegroundApp trivial)
  | pullFile unsupported path =>
    exact (Call.inStep_of_program fun _ => rfl).trans (matches_pullFile_iff unsupported path)
  | uploadElfRpc pid elfBytes =>
    exact (Call.inStep_of_program fun _ => rfl).trans (matches_uploadElfRpc_iff pid elfBytes)
  | attach pid => exact (Call.inStep_of_program fun _ => rfl).trans (matches_attach_iff pid)
  | detach => exact (Call.inStep_of_program fun _ => rfl).trans matches_detach_iff
  | setBreakpoint index enabled address =>
    exact (Call.inStep_of_program fun _ => rfl).trans (matches_setBreakpoint_iff index enabled address)
  | setWatchpoint index enabled length breakType address =>
    exact (Call.inStep_of_program fun _ => rfl).trans
      (matches_setWatchpoint_iff index enabled length breakType address)
  | stepProcess => exact (Call.inStep_of_program fun _ => rfl).trans matches_stepProcess_iff
  | getThreadList => exact (Call.inStep_of_program fun _ => rfl).trans matches_getThreadList_iff
  | suspendThread lwpid => exact (Call.inStep_of_program fun _ => rfl).trans (matches_suspendThread_iff lwpid)
  | resumeThread lwpid => exact (Call.inStep_of_program fun _ => rfl).trans (matches_resumeThread_iff lwpid)
  | stepThread lwpid => exact (Call.inStep_of_program fun _ => rfl).trans (matches_stepThread_iff lwpid)
  | getRegs lwpid => exact (Call.inStep_of_program fun _ => rfl).trans (matches_getRegs_iff lwpid)
  | setRegs lwpid regs => exact (Call.inStep_of_program fun _ => rfl).trans (matches_setRegs_iff lwpid regs)
  | getFpRegs lwpid => exact (Call.inStep_of_program fun _ => rfl).trans (matches_getFpRegs_iff lwpid)
  | setFpRegs lwpid fpBytes => exact (Call.inStep_of_program fun _ => rfl).trans (matches_setFpRegs_iff lwpid fpBytes)
  | getDbRegs lwpid => exact (Call.inStep_of_program fun _ => rfl).trans (matches_getDbRegs_iff lwpid)
  | setDbRegs lwpid dbRegs => exact (Call.inStep_of_program fun _ => rfl).trans (matches_setDbRegs_iff lwpid dbRegs)
  | getFsGsBase lwpid => exact (Call.inStep_of_program fun _ => rfl).trans (matches_getFsGsBase_iff lwpid)
  | setFsGsBase lwpid fsBase gsBase =>
    exact (Call.inStep_of_program fun _ => rfl).trans (matches_setFsGsBase_iff lwpid fsBase gsBase)

/-- An address that the server sends only with success: the call waits for it when the allocation fails. -/
theorem allocateMemory_waits : ¬ ∀ (r : Call) (os : ServerOs), r.InStep os := by
  intro h
  have hmatch := (Call.inStep_of_program fun _ => rfl).mp
    (h (.allocateMemory 1 0x4000) { idleOs with sysAlloc := none })
  have hkept := (matches_allocateMemory_iff 1 0x4000).mp hmatch
  exact absurd hkept.2 nofun

end Rpc

end Ps5Debugger

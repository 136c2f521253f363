import Ps5Debugger.RpcExchange

/-!
# Data behind a packet

The calls that send data once the server has said that it is ready, against the handlers that receive
it: writes to memory, one or many, and writes of registers. What a handler received is what the caller
passed, whatever the handler then does with it.
-/

namespace Ps5Debugger

open Lib

namespace Rpc

variable {os : ServerOs} {passed : List Seen → Prop}

/-- The call has its answer and nothing is on its way; the handler saw what was passed, unless it
refused. -/
def Served (passed : List Seen → Prop) (y : Talk (RpcResult Bool) Handled) : Prop :=
  ∃ v rc seen, y = ⟨.ret (.value v), .ret (.returned rc seen), [], []⟩ ∧ (v = true ∨ seen ≠ [] → passed seen)

/-- The handler refuses. -/
theorem served_failure {c : Proc (RpcResult Bool)} {status : UInt32} (h : status ≠ CMD_SUCCESS) (rc : Int) :
    Served passed (Talk.finish ⟨receiveStatus fun status => if status ≠ CMD_SUCCESS then .ret (.value false) else c,
      reply status rc, [], []⟩) :=
  ⟨false, rc, [], finish_failure h _, fun hs => hs.elim nofun fun hne => absurd rfl hne⟩

/-- The handler has taken the data and says how it went. -/
theorem served_success {seen : List Seen} (status : UInt32) (rc : Int) (h : passed seen) :
    Served passed
      (Talk.finish ⟨receiveSuccess, .send (statusBytes status) (.ret (.returned rc seen)), [], []⟩) :=
  ⟨_, rc, seen, by rw [receiveSuccess, finish_status, Talk.finish_ret], fun _ => h⟩

/-- `net_alloc_buffer` in a handler that takes data. -/
theorem served_buffer {c : Proc (RpcResult Bool)} {h : Proc Handled} {size : UInt32} (hends : allocEnds size = true)
    (hh : Served passed (Talk.finish
      ⟨receiveStatus fun status => if status ≠ CMD_SUCCESS then .ret (.value false) else c, h, [], []⟩)) :
    Served passed (Talk.finish ⟨receiveStatus fun status => if status ≠ CMD_SUCCESS then .ret (.value false) else c,
      withBuffer os size (reply CMD_DATA_NULL 1) h, [], []⟩) := by
  unfold withBuffer
  rw [hends, if_pos rfl]
  split
  · exact served_failure dataNull_ne_success 1
  · exact hh

/-! ## Memory -/

/-- **PROC_WRITE.** -/
theorem served_writeMemory (pid : Int32) (address : Int64) (data : ByteArr) :
    Served (Lands address.toUInt64.toNat data.val) (Talk.finish
      ⟨receiveStatus fun status => if status ≠ CMD_SUCCESS then .ret (.value false) else .send data.val receiveSuccess,
        procWriteHandle os (some (writeInt pid ++ writeLong address ++ leBytes 4 data.val.length)), [], []⟩) := by
  have haddr : (word64 (writeInt pid ++ writeLong address ++ leBytes 4 data.val.length) 4).toNat =
      address.toUInt64.toNat := by
    rw [List.append_assoc, word64_long address (length_writeInt pid)]
  have hlen : (word32 (writeInt pid ++ writeLong address ++ leBytes 4 data.val.length) 12).toNat = data.val.length :=
    word32_size (by simp) data.property
  refine served_buffer rfl ?_
  obtain ⟨seen, hlands, hfin⟩ := finish_writeBlocks receiveSuccess [] [] address.toUInt64.toNat data.val fun seen =>
    .send (statusBytes CMD_SUCCESS) (.ret (.returned 0 seen))
  rw [List.append_nil] at hfin
  rw [finish_success, Talk.finish_clientSend, haddr, hlen, List.nil_append, hfin]
  exact served_success CMD_SUCCESS 0 hlands

/-- `want_status` -/
theorem wantStatus_iff (pid : Int32) (n : Nat) (withStatusReport : Bool) :
    word32 (writeInt pid ++ leBytes 4 n ++ writeInt (if withStatusReport then 1 else 0)) 8 &&& 1 ≠ 0 ↔
      withStatusReport = true := by
  rw [word32_int_last _ (by simp)]
  cases withStatusReport <;> decide

theorem multiCount (pid flags : Int32) (n : Nat) :
    word32 (writeInt pid ++ leBytes 4 n ++ writeInt flags) 4 = UInt32.ofNat n := by
  rw [List.append_assoc, word32_at (length_writeInt pid)]

/-- The entries, and what is sent about them. -/
theorem served_multiEntries (pid : UInt32) {ws : List (Int64 × ByteArr)} (withStatusReport : Bool)
    (hws : ∀ w ∈ ws, w.2.val.length ≤ PROC_WRITE_MULTI_MAX_ENTRY) :
    Served (LandsAll ws) (Talk.finish
      ⟨.send (ws.flatMap MemoryRpcService.writeEntry) <|
          if withStatusReport then .recv ws.length fun _ => receiveSuccess else receiveSuccess,
        multiEntries os pid ws.length fun status seen =>
          .sendAll (if withStatusReport then [status] else []) <|
          .send (statusBytes CMD_SUCCESS) <|
          .ret (.returned 0 seen), [], []⟩) := by
  rw [Talk.finish_clientSend, List.nil_append]
  obtain ⟨status, seen, hlen, hlands, hfin⟩ := finish_multiEntries
    (if withStatusReport then .recv ws.length fun _ => receiveSuccess else receiveSuccess) [] [] os pid hws
    fun status seen => .sendAll (if withStatusReport then [status] else []) <|
      .send (statusBytes CMD_SUCCESS) <| .ret (.returned 0 seen)
  rw [List.append_nil] at hfin
  rw [hfin]
  cases withStatusReport with
  | false => exact served_success CMD_SUCCESS 0 hlands
  | true =>
    show Served _ (Talk.finish ⟨.recv ws.length fun _ => receiveSuccess,
      .send status (.send (statusBytes CMD_SUCCESS) (.ret (.returned 0 seen))), [], []⟩)
    rw [finish_exchange _ _ hlen]
    exact served_success CMD_SUCCESS 0 hlands

/-- **PROC_WRITE_MULTI**, of entries within its limit. -/
theorem served_writeMemoryMulti (pid : Int32) (writes : MemoryRpcService.Writes) (withStatusReport : Bool)
    (hws : ∀ w ∈ writes.val, w.2.val.length ≤ PROC_WRITE_MULTI_MAX_ENTRY) :
    Served (LandsAll writes.val) (Talk.finish
      ⟨receiveStatus fun status => if status ≠ CMD_SUCCESS then .ret (.value false)
        else .send (writes.val.flatMap MemoryRpcService.writeEntry) <|
          if withStatusReport then .recv writes.val.length fun _ => receiveSuccess else receiveSuccess,
        procWriteMultiHandle os (some (writeInt pid ++ leBytes 4 writes.val.length ++
          writeInt (if withStatusReport then 1 else 0))), [], []⟩) := by
  have hsize : (UInt32.ofNat writes.val.length).toNat = writes.val.length :=
    UInt32.toNat_ofNat_of_lt' (writes.property.trans (by decide))
  unfold procWriteMultiHandle
  simp only [wantStatus_iff, multiCount, hsize]
  by_cases hmany : writes.val.length > PROC_WRITE_MULTI_MAX_COUNT
  · rw [if_pos hmany]
    exact served_failure error_ne_success 1
  · rw [if_neg hmany]
    refine served_buffer rfl ?_
    by_cases hstatus : withStatusReport = true ∧ writes.val.length > 0
    · rw [if_pos hstatus]
      refine served_buffer (allocEnds_of_lt (by rw [hsize]; exact writes.property)) ?_
      rw [finish_success]
      exact served_multiEntries _ withStatusReport hws
    · rw [if_neg hstatus, finish_success]
      exact served_multiEntries _ withStatusReport hws

/-! ## Registers -/

theorem length_gpRegs (regs : GpRegs) : regs.bytes.length = 176 := by
  simp [GpRegs.bytes, writeShort]

/-- The buffer of `setDbRegs` has room for eight reserved words. -/
theorem DbRegs.bytes_cases (dbRegs : DbRegs) :
    (dbRegs.reserved.length ≤ 8 ∧ ∃ regBytes, dbRegs.bytes = some regBytes ∧ regBytes.length = 128) ∨
      ¬ dbRegs.reserved.length ≤ 8 ∧ dbRegs.bytes = none := by
  unfold DbRegs.bytes
  by_cases hroom : dbRegs.reserved.length ≤ 8
  · refine .inl ⟨hroom, _, if_pos hroom, ?_⟩
    simp [List.length_flatMap]
    omega
  · exact .inr ⟨hroom, if_neg hroom⟩

/-- **A command that writes registers**, when it does not look into a session that is not there. -/
theorem served_writeRegs (k : RegSet) (lengthOk : UInt32 → Bool) (lwpid : Int32) {regBytes : List Byte}
    (hlen : regBytes.length < 2 ^ 31) (hsafe : os.state.attached = true → os.state.curdbgctx ≠ none) :
    Served (· = [.registers k regBytes]) (Talk.finish
      ⟨receiveStatus fun status => if status ≠ CMD_SUCCESS then .ret (.value false) else .send regBytes receiveSuccess,
        regWriteHandle k lengthOk os (some (writeInt lwpid ++ leBytes 4 regBytes.length)), [], []⟩) := by
  unfold regWriteHandle
  rcases withSession_cases os.state _ 0 with ⟨hatt, hnone, -⟩ | ⟨-, heq | ⟨-, heq⟩⟩
  · exact absurd hnone (hsafe hatt)
  · rw [heq]
    exact served_failure error_ne_success 0
  · rw [heq]
    dsimp only
    rw [word32_last _ (length_writeInt lwpid)]
    split
    · exact served_failure error_ne_success 0
    · rw [finish_success, finish_upload _ (intLen_of_lt hlen).symm]
      exact served_success _ 0 rfl

/-! ## ELF files -/

/-- The symbols of an ELF file, if it has any, are read by the client. -/
def SymbolsRead (os : ServerOs) (elf : List Byte) : Prop :=
  elf ≠ [] → os.malloc (UInt32.ofNat elf.length) = true → (os.sysElf elf).isSome = true →
    ∀ json ∈ os.symbols elf, json.val.length ≤ 5 * 1024 * 1024 ∨ 2 ^ 31 ≤ json.val.length

/-- What the client does about the symbols. -/
def readSymbols (entry : Int64) (lenBytes : List Byte) : Proc (RpcResult (Option Int64)) :=
  let jsonLen := readInt lenBytes
  if jsonLen > 0 then
    if jsonLen > ProcessRpcService.MAX_JSON then .ret (.value entry)
    else readExactly jsonLen fun _ => .ret (.value entry)
  else .ret (.value entry)

/-- The symbols are read unless there are too many for the client but not for the server. -/
theorem finish_symbols (entry : Int64) (b : Handled) {json : List Byte} (hjson : json.length < 2 ^ 32) :
    ∃ out, Talk.finish ⟨readSymbols entry (leBytes 4 (UInt32.ofNat json.length).toNat),
        .send (json.take (intLen (UInt32.ofNat json.length))) (.ret b), [], []⟩ =
          ⟨.ret (.value (some entry)), .ret b, [], out⟩ ∧
        (out = [] ↔ json.length ≤ 5 * 1024 * 1024 ∨ 2 ^ 31 ≤ json.length) := by
  have hsize : (UInt32.ofNat json.length).toNat = json.length := UInt32.toNat_ofNat_of_lt' hjson
  have hmax : ProcessRpcService.MAX_JSON.toInt = 5 * 1024 * 1024 := by decide
  unfold readSymbols
  dsimp only
  rw [readInt_leBytes]
  by_cases hbig : 2 ^ 31 ≤ json.length
  · have hneg : ¬ (UInt32.ofNat json.length).toInt32 > 0 := by
      have hzero := toNat_int (UInt32.ofNat json.length)
      rw [hsize, if_neg (by omega)] at hzero
      rw [gt_iff_lt, Int32.lt_iff_toInt_lt, Int32.toInt_zero]
      omega
    have hnone : intLen (UInt32.ofNat json.length) = 0 := by
      rw [intLen, toNat_int, hsize, if_neg (by omega)]
    rw [if_neg hneg, hnone, List.take_zero, Talk.finish_serverSend, Talk.finish_ret]
    exact ⟨[], rfl, iff_of_true rfl (.inr hbig)⟩
  · have hint : (UInt32.ofNat json.length).toInt32.toInt = json.length := by
      rw [toInt_of_lt (by omega), hsize]
    rw [intLen_of_lt (by omega), List.take_length]
    by_cases hpos : (UInt32.ofNat json.length).toInt32 > 0
    · rw [if_pos hpos]
      by_cases hlong : (UInt32.ofNat json.length).toInt32 > ProcessRpcService.MAX_JSON
      · rw [if_pos hlong, Talk.finish_serverSend, Talk.finish_ret]
        rw [gt_iff_lt, Int32.lt_iff_toInt_lt, hint, hmax] at hlong
        exact ⟨json, rfl, iff_of_false (List.ne_nil_of_length_pos (by omega)) (by omega)⟩
      · rw [if_neg hlong, finish_readExactly hint, Talk.finish_ret]
        rw [gt_iff_lt, Int32.lt_iff_toInt_lt, hint, hmax] at hlong
        exact ⟨[], rfl, iff_of_true rfl (.inl (by omega))⟩
    · rw [if_neg hpos, Talk.finish_serverSend, Talk.finish_ret]
      rw [gt_iff_lt, Int32.lt_iff_toInt_lt, hint, Int32.toInt_zero] at hpos
      have hnil : json = [] := List.eq_nil_of_length_eq_zero (by omega)
      subst hnil
      exact ⟨[], rfl, iff_of_true rfl (.inl (by decide))⟩

variable (os) in
/-- **PROC_ELF_RPC**: the handler sees the file, unless it refuses; the symbols may be left. -/
theorem finish_uploadElf (pid : Int32) (elfBytes : ByteArr) :
    ∃ e rc seen out, Talk.finish
        ⟨receiveStatus fun ready => if ready ≠ CMD_SUCCESS then .ret (.value none)
          else .send elfBytes.val <|
            receiveStatus fun status => if status ≠ CMD_SUCCESS then .ret (.value none)
            else readExactly 8 fun respBytes => readExactly 4 (readSymbols (readLong respBytes)),
          procElfRpcHandle os (some (writeInt pid ++ leBytes 4 elfBytes.val.length)), [], []⟩ =
        ⟨.ret (.value e), .ret (.returned rc seen), [], out⟩ ∧
      (e ≠ none ∨ seen ≠ [] → seen = [.elf elfBytes.val]) ∧ (out = [] ↔ SymbolsRead os elfBytes.val) := by
  obtain ⟨elf, helf⟩ := elfBytes
  dsimp only
  have hlen : intLen (UInt32.ofNat elf.length) = elf.length := intLen_of_lt helf
  have hsize : (UInt32.ofNat elf.length).toNat = elf.length := UInt32.toNat_ofNat_of_lt' (helf.trans (by decide))
  unfold procElfRpcHandle withBuffer SymbolsRead
  dsimp only
  rw [word32_last _ (length_writeInt pid), allocEnds_of_lt (by rw [hsize]; exact helf), if_pos rfl]
  by_cases hfail : UInt32.ofNat elf.length = 0 ∨ os.malloc (UInt32.ofNat elf.length) = false
  · rw [if_pos hfail]
    refine ⟨none, 1, [], [], finish_failure dataNull_ne_success _, fun h => h.elim (absurd rfl) (absurd rfl),
      iff_of_true rfl fun hne hok => ?_⟩
    rcases hfail with hz | hf
    · rw [hz] at hsize
      exact absurd (List.eq_nil_of_length_eq_zero hsize.symm) hne
    · rw [hok] at hf
      cases hf
  · obtain ⟨hne, hok⟩ := not_or.mp hfail
    have hcond : elf ≠ [] ∧ os.malloc (UInt32.ofNat elf.length) = true :=
      ⟨by rintro rfl; exact hne rfl, by simpa using hok⟩
    rw [if_neg hfail, finish_success, finish_upload _ hlen.symm, forall_prop_of_true hcond.1,
      forall_prop_of_true hcond.2]
    cases os.sysElf elf with
    | none =>
      exact ⟨none, 1, [.elf elf], [], finish_failure error_ne_success _, fun _ => rfl, iff_of_true rfl nofun⟩
    | some entry =>
      have hjson : ((os.symbols elf).elim [] Subtype.val).length < 2 ^ 32 := by
        cases os.symbols elf with
        | none => decide
        | some json => exact json.property
      obtain ⟨out, hfin, hout⟩ := finish_symbols (readLong (leBytes 8 entry.toNat)) (.returned 0 [.elf elf]) hjson
      refine ⟨some (readLong (leBytes 8 entry.toNat)), 0, [.elf elf], out, ?_, fun _ => rfl, hout.trans ?_⟩
      · dsimp only
        rw [finish_success, finish_readExactly (by rw [length_leBytes]; rfl),
          finish_readExactly (by rw [length_leBytes]; rfl), hfin]
      · cases os.symbols elf with
        | none => exact iff_of_true (.inl (by decide)) nofun
        | some json => simp

end Rpc

end Ps5Debugger

import Ps5Debugger.RpcUploads

/-!
# What the server reads of a request

The requests that carry data, against the server's pass: what the client writes should be taken by
`handle_client` and the handler before the reply, with nothing left for the next header, and the handler
should see what the caller passed.

The requests that send their data after an acknowledgement keep to that once their body is taken.
`sendNotification` puts length and text into the body, where the handler looks for a message type and a
length, and then waits for a text behind the body.
-/

namespace Ps5Debugger

open Lib

namespace Rpc

/-! ## The requests -/

/-- The limits of PROC_WRITE_MULTI. -/
def WithinLimits (ws : List (Int64 × ByteArr)) : Prop :=
  ws.length ≤ PROC_WRITE_MULTI_MAX_COUNT ∧ ∀ w ∈ ws, w.2.val.length ≤ PROC_WRITE_MULTI_MAX_ENTRY

/-- A request with its arguments. -/
inductive Request : Type where
  | sendNotification (textBytes : ByteArr)
  | readMemory (pid : Int32) (address : Int64) (length : Int32)
  | writeMemory (pid : Int32) (address : Int64) (data : ByteArr)
  | writeMemoryMulti (pid : Int32) (writes : MemoryRpcService.Writes) (withStatusReport : Bool)
    (limits : WithinLimits writes.val)
  | setRegs (lwpid : Int32) (regs : GpRegs)
  | setFpRegs (lwpid : Int32) (fpBytes : ByteArr)
  | setDbRegs (lwpid : Int32) (dbRegs : DbRegs)
  | uploadElfRpc (pid : Int32) (elfBytes : ByteArr)

/-- What a request returns. -/
def Request.Result : Request → Type
  | readMemory .. => List Byte
  | uploadElfRpc .. => Option Int64
  | _ => Bool

def Request.program : (r : Request) → Proc (RpcResult r.Result)
  | sendNotification textBytes => Rpc.sendNotification textBytes
  | readMemory pid address length => MemoryRpcService.readMemory pid address length
  | writeMemory pid address data => MemoryRpcService.writeMemory pid address data
  | writeMemoryMulti pid writes withStatusReport _ =>
    MemoryRpcService.writeMemoryMulti pid writes withStatusReport
  | setRegs lwpid regs => DebuggerRpcService.setRegs lwpid regs
  | setFpRegs lwpid fpBytes => DebuggerRpcService.setFpRegs lwpid fpBytes
  | setDbRegs lwpid dbRegs => DebuggerRpcService.setDbRegs lwpid dbRegs
  | uploadElfRpc pid elfBytes => ProcessRpcService.uploadElfRpc pid elfBytes

/-! ## What is promised -/

/-- The handler saw what was passed. -/
def Request.Passed : Request → List Seen → Prop
  | sendNotification textBytes, seen => seen = [.notification textBytes.val]
  | readMemory .., seen => seen = []
  | writeMemory _ address data, seen => Lands address.toUInt64.toNat data.val seen
  | writeMemoryMulti _ writes _ _, seen => LandsAll writes.val seen
  | setRegs _ regs, seen => seen = [.registers .regs regs.bytes]
  | setFpRegs _ fpBytes, seen => seen = [.registers .fpregs fpBytes.val]
  | setDbRegs _ dbRegs, seen => ∃ regBytes, dbRegs.bytes = some regBytes ∧ seen = [.registers .dbregs regBytes]
  | uploadElfRpc _ elfBytes, seen => seen = [.elf elfBytes.val]

/-- The data has been sent: a notification is sent with its text, the others send their data when the
server is ready for it, and are told so. -/
def Request.Sent : (r : Request) → Proc (RpcResult r.Result) → Prop
  | sendNotification _, _ | readMemory .., _ => True
  | uploadElfRpc .., c => ∃ entry, c = .ret (.value (some entry))
  | writeMemory .., c | writeMemoryMulti .., c | setRegs .., c | setFpRegs .., c | setDbRegs .., c =>
    c = .ret (.value true)

/-- Either nothing was sent, or the server has taken all of it and come to its end; data that was sent or
received is what was passed. -/
inductive Taken {R : Type} (sent : Proc (RpcResult R) → Prop) (passed : List Seen → Prop) :
    Talk (RpcResult R) Handled → Prop where
  | unsent (os : ServerOs) : Taken sent passed ⟨.ret .thrown, handleClient os, [], []⟩
  | served (c : Proc (RpcResult R)) (b : Handled) (out : List Byte) (h : sent c ∨ b.seen ≠ [] → passed b.seen) :
    Taken sent passed ⟨c, .ret b, [], out⟩

/-- **In step on the request**, whatever the order of the steps. -/
def Request.InStep (r : Request) (os : ServerOs) : Prop :=
  ∀ y, Talk.Ends ⟨r.program, handleClient os, [], []⟩ y → Taken r.Sent r.Passed y

/-- The body of a notification. -/
def notifyBody (textBytes : ByteArr) : List Byte := leBytes 4 textBytes.val.length ++ textBytes.val

/-- **The condition.** -/
def Request.Kept (os : ServerOs) : Request → Prop
  | sendNotification textBytes =>
    -- the packet does not fit an array, or the handler finds behind an empty body a length that is negative
    2 ^ 31 ≤ 16 + textBytes.val.length ∨
      os.bodyAlloc = true ∧ textBytes.val = [] ∧ 2 ^ 31 ≤ (notifyLength os (notifyBody textBytes)).toNat ∧
        os.malloc (notifyLength os (notifyBody textBytes)) = true ∧
        allocEnds (notifyLength os (notifyBody textBytes)) = true
  | setDbRegs _ dbRegs => dbRegs.reserved.length ≤ 8 → os.bodyAlloc = true
  | _ => os.bodyAlloc = true

/-! ## Requests with a short body -/

section Calls

variable {R : Type} {sent : Proc (RpcResult R) → Prop} {passed : List Seen → Prop} {os : ServerOs}
  {e : RpcResult R} {c : Proc (RpcResult R)}

theorem Request.inStep_iff {r : Request} :
    r.InStep os ↔ Taken r.Sent r.Passed (Talk.finish ⟨r.program, handleClient os, [], []⟩) := by
  simp only [Request.InStep, Talk.ends_iff, forall_eq]

/-- Bytes that are left are left. -/
theorem not_taken_left {b : Handled} {q out : List Byte} (hq : q ≠ []) :
    ¬ Taken sent passed ⟨.ret e, .ret b, q, out⟩ := by
  intro h
  cases h with
  | served => exact hq rfl

theorem not_taken_unseen {b : Handled} {s : Seen} {q out : List Byte} (hb : b.seen = []) :
    ¬ Taken (fun _ => True) (· = [s]) ⟨c, .ret b, q, out⟩ := by
  intro h
  cases h with
  | served _ _ _ hs =>
    have heq := hs (.inl trivial)
    rw [hb] at heq
    cases heq

/-- A request whose body is taken is taken; without memory for it the body is left. -/
theorem taken_call_iff {cmd : UInt32} {data : List Byte} {n : Nat} (h : Option (List Byte) → Proc Handled)
    (hcmd : ∀ data, cmdHandler os cmd data = h data) (hn : data.length = n) (hsize : 0 < n ∧ n ≤ maxDatalen)
    (htaken : Taken sent passed (Talk.finish
      ⟨receiveStatus fun status => if status ≠ CMD_SUCCESS then .ret e else c, h (some data), [], []⟩)) :
    Taken sent passed (Talk.finish ⟨sendPacket cmd data <| receiveStatus fun status =>
      if status ≠ CMD_SUCCESS then .ret e else c, handleClient os, [], []⟩) ↔ os.bodyAlloc = true := by
  have hne : data ≠ [] := List.ne_nil_of_length_pos (by omega)
  rw [finish_call hne (by omega), hcmd]
  cases os.bodyAlloc with
  | true => exact iff_of_true htaken rfl
  | false =>
    refine iff_of_false ?_ nofun
    rw [if_neg (by decide), reply, finish_failure dataNull_ne_success]
    exact not_taken_left hne

theorem Served.taken {y : Talk (RpcResult Bool) Handled} (h : Served passed y) :
    Taken (· = .ret (.value true)) passed y := by
  obtain ⟨v, rc, seen, rfl, hpassed⟩ := h
  refine .served _ _ _ fun hs => hpassed (hs.imp_left ?_)
  rintro ⟨⟩
  rfl

end Calls

section Cases

variable (os : ServerOs)

theorem taken_readMemory_iff (pid : Int32) (address : Int64) (length : Int32) :
    Taken (fun _ => True) (· = [])
      (Talk.finish ⟨MemoryRpcService.readMemory pid address length, handleClient os, [], []⟩) ↔
        os.bodyAlloc = true := by
  have hcmd (data : Option (List Byte)) : cmdHandler os 0xBDAA0002 data = procReadHandle os data := rfl
  have hlen : word32 (writeInt pid ++ writeLong address ++ writeInt length) 12 = length.toUInt32 :=
    word32_int_last length (by simp)
  refine taken_call_iff (n := 16) _ hcmd (by simp) (by decide) ?_
  rw [procReadHandle, withBuffer, if_pos (show allocEnds 0x10000 = true from rfl), hlen]
  split
  · rw [reply, finish_failure dataNull_ne_success]
    exact .served _ _ _ fun _ => rfl
  · rw [finish_success]
    by_cases hneg : length < 0
    · rw [readExactly, if_pos hneg, Talk.finish_sendAll, Talk.finish_ret]
      exact .served _ _ _ fun _ => rfl
    · rw [readExactly_of_toInt (toInt_of_nonneg hneg), finish_readAll _ _ (length_readBlocks _ _ _), Talk.finish_ret]
      exact .served _ _ _ fun _ => rfl

theorem taken_writeMemory_iff (pid : Int32) (address : Int64) (data : ByteArr) :
    Taken (· = .ret (.value true)) (Lands address.toUInt64.toNat data.val)
      (Talk.finish ⟨MemoryRpcService.writeMemory pid address data, handleClient os, [], []⟩) ↔ os.bodyAlloc = true := by
  have hcmd (data : Option (List Byte)) : cmdHandler os 0xBDAA0003 data = procWriteHandle os data := rfl
  exact taken_call_iff (n := 16) _ hcmd (by simp) (by decide) (served_writeMemory pid address data).taken

theorem taken_writeMemoryMulti_iff (pid : Int32) (writes : MemoryRpcService.Writes) (withStatusReport : Bool)
    (limits : WithinLimits writes.val) : Taken (· = .ret (.value true)) (LandsAll writes.val)
      (Talk.finish ⟨MemoryRpcService.writeMemoryMulti pid writes withStatusReport, handleClient os, [], []⟩) ↔
        os.bodyAlloc = true := by
  have hcmd (data : Option (List Byte)) : cmdHandler os 0xBDAACC04 data = procWriteMultiHandle os data := rfl
  exact taken_call_iff (n := 12) _ hcmd (by simp) (by decide)
    (served_writeMemoryMulti pid writes withStatusReport limits.2).taken

/-- A command that writes registers, also when it looks into a session that is not there. -/
theorem taken_writeRegs_iff (k : RegSet) (lengthOk : UInt32 → Bool) {cmd : UInt32} (lwpid : Int32)
    (hcmd : ∀ data, cmdHandler os cmd data = regWriteHandle k lengthOk os data) {regBytes : List Byte}
    (hlen : regBytes.length < 2 ^ 31) {passed : List Seen → Prop} (hpassed : passed [.registers k regBytes]) :
    Taken (· = .ret (.value true)) passed
      (Talk.finish ⟨DebuggerRpcService.writeRegs cmd lwpid regBytes, handleClient os, [], []⟩) ↔
        os.bodyAlloc = true := by
  refine taken_call_iff (n := 8) _ hcmd (by simp) (by decide) ?_
  by_cases hsafe : os.state.attached = true → os.state.curdbgctx ≠ none
  · obtain ⟨v, rc, seen, hfin, hseen⟩ := served_writeRegs k lengthOk lwpid hlen hsafe
    rw [hfin]
    refine .served _ _ _ fun hs => ?_
    have heq := hseen (hs.imp_left (by rintro ⟨⟩; rfl))
    rw [Handled.seen, heq]
    exact hpassed
  · rcases withSession_cases os.state _ 0 with ⟨-, -, heq⟩ | ⟨hctx, -⟩
    · rw [regWriteHandle, heq, receiveStatus, finish_starved _ _ (by decide)]
      exact .served _ _ _ fun hs => hs.elim (fun h => by cases h) (absurd rfl)
    · exact absurd hctx hsafe

theorem taken_uploadElfRpc_iff (pid : Int32) (elfBytes : ByteArr) :
    Taken (fun c => ∃ entry, c = .ret (.value (some entry))) (· = [.elf elfBytes.val])
      (Talk.finish ⟨ProcessRpcService.uploadElfRpc pid elfBytes, handleClient os, [], []⟩) ↔ os.bodyAlloc = true := by
  have hcmd (data : Option (List Byte)) : cmdHandler os 0xBDAA0010 data = procElfRpcHandle os data := rfl
  refine taken_call_iff (n := 8) _ hcmd (by simp) (by decide) ?_
  obtain ⟨e, rc, seen, out, hfin, hseen, -⟩ := finish_uploadElf os pid elfBytes
  unfold readSymbols at hfin
  rw [hfin]
  refine .served _ _ _ fun hs => hseen (hs.imp_left ?_)
  rintro ⟨entry, ⟨⟩⟩
  nofun

/-- A call that throws before it sends. -/
theorem taken_thrown {R : Type} (sent : Proc (RpcResult R) → Prop) (passed : List Seen → Prop) :
    Taken sent passed (Talk.finish ⟨.ret .thrown, handleClient os, [], []⟩) := by
  rw [handleClient, Talk.finish_ret_recv _ _ (by decide)]
  exact .unsent os

/-- What CONSOLE_NOTIFY does with the body of a notification: it never sees a text that is not empty. -/
theorem taken_consoleNotify_iff (textBytes : ByteArr) (np : List Byte) :
    Taken (fun _ => True) (· = [.notification textBytes.val])
      (Talk.finish ⟨receiveSuccess, consoleNotifyHandle os (some np), [], []⟩) ↔
        textBytes.val = [] ∧ 2 ^ 31 ≤ (notifyLength os np).toNat ∧ os.malloc (notifyLength os np) = true ∧
          allocEnds (notifyLength os np) = true := by
  have hint : intLen (notifyLength os np) = if (notifyLength os np).toNat < 2 ^ 31 then (notifyLength os np).toNat
      else 0 := toNat_int _
  rw [consoleNotifyHandle, withBuffer]
  generalize notifyLength os np = length at hint
  by_cases hfail : length = 0 ∨ os.malloc length = false
  · rw [if_pos hfail, receiveSuccess, finish_reply 1 rfl]
    refine iff_of_false (not_taken_unseen rfl) ?_
    rintro ⟨-, hbig, hok, -⟩
    rcases hfail with rfl | hf
    · exact absurd hbig (by decide)
    · rw [hok] at hf
      cases hf
  · obtain ⟨hne, hok⟩ := not_or.mp hfail
    have hpos : length.toNat ≠ 0 := fun h => hne (UInt32.toNat_inj.mp h)
    rw [if_neg hfail]
    cases allocEnds length with
    | false =>
      rw [if_neg (by decide), receiveSuccess, receiveStatus, finish_starved _ _ (by decide)]
      exact iff_of_false (not_taken_unseen rfl) fun h => by cases h.2.2.2
    | true =>
      rw [if_pos rfl, hint]
      by_cases hbig : length.toNat < 2 ^ 31
      · -- the client waits for the status word and the handler for the text
        rw [if_pos hbig, receiveSuccess, receiveStatus,
          Talk.finish_deadlock _ _ (by decide) (by rw [List.length_nil]; omega)]
        refine iff_of_false ?_ fun h => absurd h.2.1 (by omega)
        rintro ⟨⟩
      · have hrecv (c : Proc (RpcResult Bool)) (l : List Byte → Proc Handled) :
            Talk.finish ⟨c, .recv 0 l, [], []⟩ = Talk.finish ⟨c, l [], [], []⟩ :=
          Talk.finish_serverRecv l (List.length_nil (α := Byte))
        rw [if_neg hbig, hrecv, receiveSuccess, finish_status, Talk.finish_ret]
        constructor
        · intro h
          cases h with
          | served _ _ _ hs =>
            have heq := hs (.inl trivial)
            injection heq with hseen
            injection hseen with htext
            exact ⟨htext.symm, by omega, by simpa using hok, rfl⟩
        · rintro ⟨hnil, -⟩
          exact .served _ _ _ fun _ => by rw [hnil]; rfl

theorem taken_sendNotification_iff (textBytes : ByteArr) :
    Taken (fun _ => True) (· = [.notification textBytes.val])
      (Talk.finish ⟨sendNotification textBytes, handleClient os, [], []⟩) ↔
        (Request.sendNotification textBytes).Kept os := by
  have hlen : (notifyBody textBytes).length = 4 + textBytes.val.length := by
    rw [notifyBody, List.length_append, length_leBytes]
  have hne : notifyBody textBytes ≠ [] := List.ne_nil_of_length_pos (by omega)
  show Taken _ _ (Talk.finish ⟨sendPacket 0xBDDD0004 (notifyBody textBytes) receiveSuccess, handleClient os, [], []⟩) ↔
    (_ ∨ _)
  by_cases hfits : 12 + (notifyBody textBytes).length < 2 ^ 31
  · rw [or_iff_right (by omega), sendPacket, finish_packet hfits]
    by_cases hmax : (notifyBody textBytes).length ≤ maxDatalen
    · cases halloc : os.bodyAlloc with
      | true =>
        have hcmd (data : Option (List Byte)) : cmdHandler os 0xBDDD0004 data = consoleNotifyHandle os data := rfl
        rw [finish_body hne hmax halloc, hcmd, taken_consoleNotify_iff, and_iff_right rfl]
      | false =>
        rw [servePacket_noMemory hne hmax halloc, receiveSuccess, finish_reply 0 rfl]
        exact iff_of_false (not_taken_left hne) fun h => absurd h.1 Bool.false_ne_true
    · rw [servePacket_tooLong (by omega), receiveSuccess, finish_reply 0 rfl]
      refine iff_of_false (not_taken_left hne) ?_
      rintro ⟨-, hnil, -⟩
      rw [hlen, hnil] at hmax
      exact absurd hmax (by decide)
  · rw [sendPacket, sendPacketOr, if_neg hfits]
    exact iff_of_true (taken_thrown os _ _) (.inl (by omega))

end Cases

/-! ## All requests -/

/-- **Client and server are in step on the requests.** For every request, all of its arguments and all
answers of the system: whatever the order of the steps, what is sent is taken before the reply, and the
handler sees what was passed, exactly on the stated condition. -/
theorem requests_in_step_iff (r : Request) (os : ServerOs) : r.InStep os ↔ r.Kept os := by
  refine Request.inStep_iff.trans ?_
  cases r with
  | sendNotification textBytes => exact taken_sendNotification_iff os textBytes
  | readMemory pid address length => exact taken_readMemory_iff os pid address length
  | writeMemory pid address data => exact taken_writeMemory_iff os pid address data
  | writeMemoryMulti pid writes withStatusReport limits =>
    exact taken_writeMemoryMulti_iff os pid writes withStatusReport limits
  | setRegs lwpid regs =>
    have hcmd (data : Option (List Byte)) : cmdHandler os 0xBDBB0009 data = debugSetregsHandle os data := rfl
    exact taken_writeRegs_iff os .regs (fun _ => true) lwpid hcmd (by rw [length_gpRegs]; decide) rfl
  | setFpRegs lwpid fpBytes =>
    have hcmd (data : Option (List Byte)) : cmdHandler os 0xBDBB000B data = debugSetfpregsHandle os data := rfl
    exact taken_writeRegs_iff os .fpregs _ lwpid hcmd fpBytes.property rfl
  | setDbRegs lwpid dbRegs =>
    have hcmd (data : Option (List Byte)) : cmdHandler os 0xBDBB000D data = debugSetdbregsHandle os data := rfl
    show Taken (· = .ret (.value true)) _ (Talk.finish ⟨DebuggerRpcService.setDbRegs lwpid dbRegs,
      handleClient os, [], []⟩) ↔
      (_ → _)
    unfold DebuggerRpcService.setDbRegs
    rcases dbRegs.bytes_cases with ⟨hroom, regBytes, hbytes, hlen⟩ | ⟨hroom, hbytes⟩
    · rw [hbytes, forall_prop_of_true hroom]
      exact taken_writeRegs_iff os .dbregs (fun _ => true) lwpid hcmd (by rw [hlen]; decide) ⟨regBytes, hbytes, rfl⟩
    · rw [hbytes]
      exact iff_of_true (taken_thrown os _ _) fun h => absurd h hroom
  | uploadElfRpc pid elfBytes => exact taken_uploadElfRpc_iff os pid elfBytes

/-- The text "Hello": the handler takes its first letters for a length and waits. -/
theorem notification_hangs : ¬ ∀ (r : Request) (os : ServerOs), r.InStep os := by
  intro h
  have hkept := (taken_sendNotification_iff idleOs ⟨[0x48, 0x65, 0x6C, 0x6C, 0x6F], by decide⟩).mp
    (Request.inStep_iff.mp (h (.sendNotification ⟨[0x48, 0x65, 0x6C, 0x6C, 0x6F], by decide⟩) idleOs))
  rcases hkept with hlong | ⟨-, hnil, -⟩
  · exact absurd hlong (by decide)
  · exact absurd hnil nofun

end Rpc

end Ps5Debugger

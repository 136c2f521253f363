import Ps5Debugger.RpcUploads
import Ps5Debugger.DebugCases

/-!
# What the client reads of a reply

Every remote call of the three services against the server's pass, for all arguments and all answers
of the system to the handler. A call that returns should have read what the handler sent, and no call
should wait for more than it sends.

Most calls keep to that. `replies_in_step_iff` says when the others do: the call that allocates memory
reads an address that an error reply does not have, a batch of writes waits for status bytes that an
oversize entry prevents, a file is pulled with a command the server does not have, a long list of
symbols is left unread. The rest of the condition is about handlers that never come to their reply.
-/

namespace Ps5Debugger

open Lib

namespace Rpc

/-! ## The calls -/

/-- A remote call with its arguments. `pullFile` also depends on whether the command was marked. -/
inductive Call : Type where
  | readMemory (pid : Int32) (address : Int64) (length : Int32)
  | writeMemory (pid : Int32) (address : Int64) (data : ByteArr)
  | writeMemoryMulti (pid : Int32) (writes : MemoryRpcService.Writes) (withStatusReport : Bool)
  | allocateMemory (pid length : Int32)
  | allocateMemoryHinted (pid : Int32) (hint : Int64) (length : Int32)
  | freeMemory (pid : Int32) (address : Int64) (length : Int32)
  | changeProtection (pid : Int32) (address : Int64) (length prot : Int32)
  | disassembleRegion (pid : Int32) (address : Int64) (length maxEntries : Int32)
  | findXrefs (pid : Int32) (scanAddress : Int64) (scanLength : Int32) (targetAddress : Int64)
  | getKernBase
  | getProcesses
  | getMaps (pid : Int32)
  | getProcessInfo (pid : Int32)
  | getForegroundApp
  | pullFile (unsupported : Bool) (path : ByteArr)
  | uploadElfRpc (pid : Int32) (elfBytes : ByteArr)
  | attach (pid : Int32)
  | detach
  | setBreakpoint (index : Int32) (enabled : Bool) (address : Int64)
  | setWatchpoint (index : Int32) (enabled : Bool) (length breakType : Int32) (address : Int64)
  | stepProcess
  | getThreadList
  | suspendThread (lwpid : Int32)
  | resumeThread (lwpid : Int32)
  | stepThread (lwpid : Int32)
  | getRegs (lwpid : Int32)
  | setRegs (lwpid : Int32) (regs : GpRegs)
  | getFpRegs (lwpid : Int32)
  | setFpRegs (lwpid : Int32) (fpBytes : ByteArr)
  | getDbRegs (lwpid : Int32)
  | setDbRegs (lwpid : Int32) (dbRegs : DbRegs)
  | getFsGsBase (lwpid : Int32)
  | setFsGsBase (lwpid : Int32) (fsBase gsBase : Int64)

/-- What a call returns. -/
def Call.Result : Call → Type
  | readMemory .. | getRegs _ | getFpRegs _ | getDbRegs _ | getFsGsBase _ => List Byte
  | allocateMemory .. | allocateMemoryHinted .. | getKernBase => Int64
  | disassembleRegion .. => List MemoryRpcService.Ps5DisasmInstr
  | findXrefs .. => List Int64
  | getProcesses => List ProcessRpcService.Ps5Process
  | getMaps _ => List ProcessRpcService.Ps5VmMapEntry
  | getProcessInfo _ => ProcessRpcService.Ps5ProcessInfo
  | getForegroundApp => ProcessRpcService.Ps5ForegroundApp
  | pullFile .. => Option (List Byte)
  | uploadElfRpc .. => Option Int64
  | getThreadList => List Int32
  | _ => Bool

/-- The program of a call. -/
def Call.program (fuel : Nat) : (r : Call) → Proc (RpcResult r.Result)
  | readMemory pid address length => MemoryRpcService.readMemory pid address length
  | writeMemory pid address data => MemoryRpcService.writeMemory pid address data
  | writeMemoryMulti pid writes withStatusReport => MemoryRpcService.writeMemoryMulti pid writes withStatusReport
  | allocateMemory pid length => MemoryRpcService.allocateMemory pid length
  | allocateMemoryHinted pid hint length => MemoryRpcService.allocateMemoryHinted pid hint length
  | freeMemory pid address length => MemoryRpcService.freeMemory pid address length
  | changeProtection pid address length prot => MemoryRpcService.changeProtection pid address length prot
  | disassembleRegion pid address length maxEntries =>
    MemoryRpcService.disassembleRegion fuel pid address length maxEntries
  | findXrefs pid scanAddress scanLength targetAddress =>
    MemoryRpcService.findXrefs fuel pid scanAddress scanLength targetAddress
  | getKernBase => MemoryRpcService.getKernBase
  | getProcesses => ProcessRpcService.getProcesses
  | getMaps pid => ProcessRpcService.getMaps pid
  | getProcessInfo pid => ProcessRpcService.getProcessInfo pid
  | getForegroundApp => ProcessRpcService.getForegroundApp
  | pullFile unsupported path => ProcessRpcService.pullFile unsupported path
  | uploadElfRpc pid elfBytes => ProcessRpcService.uploadElfRpc pid elfBytes
  | attach pid => DebuggerRpcService.attach pid
  | detach => DebuggerRpcService.detach
  | setBreakpoint index enabled address => DebuggerRpcService.setBreakpoint index enabled address
  | setWatchpoint index enabled length breakType address =>
    DebuggerRpcService.setWatchpoint index enabled length breakType address
  | stepProcess => DebuggerRpcService.stepProcess
  | getThreadList => DebuggerRpcService.getThreadList
  | suspendThread lwpid => DebuggerRpcService.suspendThread lwpid
  | resumeThread lwpid => DebuggerRpcService.resumeThread lwpid
  | stepThread lwpid => DebuggerRpcService.stepThread lwpid
  | getRegs lwpid => DebuggerRpcService.getRegs lwpid
  | setRegs lwpid regs => DebuggerRpcService.setRegs lwpid regs
  | getFpRegs lwpid => DebuggerRpcService.getFpRegs lwpid
  | setFpRegs lwpid fpBytes => DebuggerRpcService.setFpRegs lwpid fpBytes
  | getDbRegs lwpid => DebuggerRpcService.getDbRegs lwpid
  | setDbRegs lwpid dbRegs => DebuggerRpcService.setDbRegs lwpid dbRegs
  | getFsGsBase lwpid => DebuggerRpcService.getFsGsBase lwpid
  | setFsGsBase lwpid fsBase gsBase => DebuggerRpcService.setFsGsBase lwpid fsBase gsBase

/-! ## What is promised -/

/-- The call has come to its end. If it returns, or leaves the connection open with an exception of its
own, nothing of what was sent is left. -/
inductive Matched {R : Type} : Talk (RpcResult R) Handled → Prop where
  | value (v : R) (server : Proc Handled) (q : List Byte) : Matched ⟨.ret (.value v), server, q, []⟩
  | refused (server : Proc Handled) (q : List Byte) : Matched ⟨.ret .refused, server, q, []⟩
  | thrown (server : Proc Handled) (q out : List Byte) : Matched ⟨.ret .thrown, server, q, out⟩

/-- **In step on the reply**: whatever the order of the steps, and however long its loop may run. -/
def Call.InStep (r : Call) (os : ServerOs) : Prop :=
  ∃ N, ∀ fuel ≥ N, ∀ y, Talk.Ends ⟨r.program fuel, handleClient os, [], []⟩ y → Matched y

/-! ## The condition -/

/-- A debug command does not look into a session that is not there. -/
def SafePacket (s : ServerState) : DebugPacket → Prop
  | .attach data os => s.attached = false → data.isSome = true → os.traced = true → s.curdbgctx ≠ none
  | .detach os => s.attached = true → os.alive = true → s.curdbgctx ≠ none
  | .suspendThread _ _ | .resumeThread _ _ | .continueTarget _ => s.curdbgctx ≠ none
  | .processStop _ | .unknown => True
  | _ => s.attached = true → s.curdbgctx ≠ none

/-- **The condition.** -/
def Call.Kept (os : ServerOs) : Call → Prop
  | allocateMemory _ _ => os.bodyAlloc = true ∧ os.sysAlloc.isSome = true
  | allocateMemoryHinted _ _ _ => os.bodyAlloc = true
  | writeMemoryMulti _ writes withStatusReport =>
    withStatusReport = true → os.bodyAlloc = true → writes.val.length ≤ PROC_WRITE_MULTI_MAX_COUNT →
      os.malloc 0x10000 = true → os.malloc (UInt32.ofNat writes.val.length) = true →
      ∀ w ∈ writes.val, w.2.val.length ≤ PROC_WRITE_MULTI_MAX_ENTRY
  | findXrefs _ scanAddress scanLength _ =>
    os.bodyAlloc = true → os.xrefs.buf.isSome = true → os.chunkAlloc = true →
      ∀ e ∈ disasmEntries os.zydis os.chunkIo scanAddress.toUInt64.toNat scanLength.toUInt32 10000000,
        e.ripRelative = true → e.rip_rel_target ≠ xrefsTarget (formatterIntel os.xrefs.pad)
  | pullFile unsupported path => unsupported = false → path.val.length + 1 ≤ maxDatalen → os.bodyAlloc = false
  | uploadElfRpc _ elfBytes => os.bodyAlloc = true → SymbolsRead os elfBytes.val
  | attach pid => os.bodyAlloc = true → SafePacket os.state (.attach (some pid.toUInt32) os.attach)
  | detach => SafePacket os.state (.detach os.teardown)
  | suspendThread _ | resumeThread _ => os.bodyAlloc = true → os.state.curdbgctx ≠ none
  | stepProcess => os.state.attached = true → os.state.curdbgctx ≠ none
  | getThreadList => (os.state.attached = true → os.state.curdbgctx ≠ none) ∧
      (HasSession os.state → ∀ count ∈ os.lwpCount, (count * 4).toUInt32 ≠ 0 → os.malloc (count * 4).toUInt32 = true →
        allocEnds (count * 4).toUInt32 = true ∧ (os.lwpList = true → 0 < count ∨ count * 4 ≤ 0))
  | setDbRegs _ dbRegs => dbRegs.reserved.length ≤ 8 → os.bodyAlloc = true → os.state.attached = true →
      os.state.curdbgctx ≠ none
  | setBreakpoint .. | setWatchpoint .. | stepThread _ | getRegs _ | setRegs _ _ | getFpRegs _ | setFpRegs _ _
  | getDbRegs _ | getFsGsBase _ | setFsGsBase _ _ _ =>
    os.bodyAlloc = true → os.state.attached = true → os.state.curdbgctx ≠ none
  | _ => True

/-! ## Ends of calls -/

section Ends

variable {R : Type} {os : ServerOs} {q out : List Byte} {e : RpcResult R} {k : UInt32 → Proc (RpcResult R)}

theorem Call.inStep_iff {r : Call} : r.InStep os ↔
    ∃ N, ∀ fuel ≥ N, Matched (Talk.finish ⟨r.program fuel, handleClient os, [], []⟩) := by
  simp only [Call.InStep, Talk.ends_iff, forall_eq]

/-- A program and the server's pass end matched. -/
def Matches (c : Proc (RpcResult R)) (os : ServerOs) : Prop := Matched (Talk.finish ⟨c, handleClient os, [], []⟩)

/-- A call without a loop. -/
theorem Call.inStep_of_program {r : Call} (h : ∀ fuel, r.program fuel = r.program 0) :
    r.InStep os ↔ Matches (r.program 0) os := by
  simp only [Call.inStep_iff, h]
  exact ⟨fun ⟨N, hN⟩ => hN N (Nat.le_refl N), fun hc => ⟨0, fun _ _ => hc⟩⟩

/-- The call is at its end, and not cut off. -/
def Over (c : Proc (RpcResult R)) : Prop := ∃ e, c = .ret e ∧ e ≠ .cutOff

theorem over_value (v : R) : Over (.ret (.value v)) := ⟨_, rfl, nofun⟩

theorem over_refused : Over (.ret (.refused : RpcResult R)) := ⟨_, rfl, nofun⟩

theorem over_thrown : Over (.ret (.thrown : RpcResult R)) := ⟨_, rfl, nofun⟩

/-- The call ends on a status word other than success. -/
def Refusable (k : UInt32 → Proc (RpcResult R)) : Prop := ∀ status, status ≠ CMD_SUCCESS → Over (k status)

/-- The usual start of a call. -/
theorem refusable_unless {c : Proc (RpcResult R)} {k : UInt32 → Proc (RpcResult R)} (hc : Over c) :
    Refusable (fun status => if status ≠ CMD_SUCCESS then c else k status) := by
  intro status h
  show Over (if status ≠ CMD_SUCCESS then c else k status)
  rwa [if_pos h]

theorem refusable_success : Refusable (R := Bool) fun status => .ret (.value (status == CMD_SUCCESS)) :=
  fun _ _ => over_value _

/-- Both are at their end, and nothing is on its way. -/
theorem matched_over {c : Proc (RpcResult R)} (hc : Over c) (b : Handled) :
    Matched (Talk.finish ⟨c, .ret b, q, []⟩) := by
  obtain ⟨e, rfl, he⟩ := hc
  rw [Talk.finish_ret]
  cases e with
  | value v => exact .value v _ q
  | refused => exact .refused _ q
  | thrown => exact .thrown _ q []
  | cutOff => exact absurd rfl he

theorem matched_thrown (s : Proc Handled) : Matched (Talk.finish ⟨.ret (.thrown : RpcResult R), s, q, out⟩) :=
  .thrown _ _ _

/-- A status word alone, and the call has its result. -/
theorem matched_reply {status : UInt32} (hk : Over (k status)) (rc : Int) :
    Matched (Talk.finish ⟨receiveStatus k, reply status rc, q, []⟩) := by
  rw [reply, finish_status]
  exact matched_over hk _

theorem matched_refusal {status : UInt32} (hk : Refusable k) (hs : status ≠ CMD_SUCCESS) (rc : Int) :
    Matched (Talk.finish ⟨receiveStatus k, reply status rc, q, []⟩) :=
  matched_reply (hk status hs) rc

theorem Served.matched {passed : List Seen → Prop} {y : Talk (RpcResult Bool) Handled} (h : Served passed y) :
    Matched y := by
  obtain ⟨v, rc, seen, rfl, -⟩ := h
  exact .value v _ []

/-- The server ends while the call waits. -/
theorem not_matched_starved {n : Nat} {c : List Byte → Proc (RpcResult R)} (b : Handled) (hn : 0 < n) :
    ¬ Matched (Talk.finish ⟨.recv n c, .ret b, q, []⟩) := by
  rw [finish_starved c b hn]
  exact nofun

theorem not_matched_killed (b : Handled) : ¬ Matched (Talk.finish ⟨receiveStatus k, .ret b, q, []⟩) :=
  not_matched_starved b (by decide)

/-- Success, and a block. -/
theorem matched_block {len : Int32} {bs : List Byte} {c : Proc (RpcResult R)} {f : List Byte → Proc (RpcResult R)}
    {b : Handled} (hlen : len.toInt = bs.length) (hf : Over (f bs)) :
    Matched (Talk.finish ⟨receiveStatus fun status => if status ≠ CMD_SUCCESS then c else readExactly len f,
      .send (statusBytes CMD_SUCCESS) (.send bs (.ret b)), q, []⟩) := by
  rw [finish_success, finish_readExactly hlen]
  exact matched_over hf b

/-- A call with a body that takes a refusal for an answer. -/
theorem matches_call_iff {cmd : UInt32} {data : List Byte} {n : Nat} (h : Option (List Byte) → Proc Handled)
    (hcmd : ∀ data, cmdHandler os cmd data = h data) (hn : data.length = n) (hsize : 0 < n ∧ n ≤ maxDatalen)
    (hk : Refusable k) : Matches (sendPacket cmd data (receiveStatus k)) os ↔
      (os.bodyAlloc = true → Matched (Talk.finish ⟨receiveStatus k, h (some data), [], []⟩)) := by
  rw [Matches, finish_call (List.ne_nil_of_length_pos (by omega)) (by omega), hcmd]
  cases os.bodyAlloc with
  | true =>
    rw [if_pos rfl]
    exact ⟨fun h _ => h, fun h => h rfl⟩
  | false => exact iff_of_true (matched_refusal hk dataNull_ne_success 0) nofun

theorem matches_call {cmd : UInt32} {data : List Byte} {n : Nat} (h : Option (List Byte) → Proc Handled)
    (hcmd : ∀ data, cmdHandler os cmd data = h data) (hn : data.length = n) (hsize : 0 < n ∧ n ≤ maxDatalen)
    (hk : Refusable k) (hm : Matched (Talk.finish ⟨receiveStatus k, h (some data), [], []⟩)) :
    Matches (sendPacket cmd data (receiveStatus k)) os := by
  rw [matches_call_iff h hcmd hn hsize hk]
  exact fun _ => hm

/-- A handler that needs a session. -/
theorem matched_session_iff {s : ServerState} {h : Proc Handled} {rc : Int} (hk : Refusable k) :
    Matched (Talk.finish ⟨receiveStatus k, withSession s h rc, q, []⟩) ↔
      (s.attached = true → s.curdbgctx ≠ none) ∧
        (HasSession s → Matched (Talk.finish ⟨receiveStatus k, h, q, []⟩)) := by
  unfold withSession HasSession
  cases hatt : s.attached with
  | false =>
    rw [if_pos rfl]
    exact iff_of_true (matched_refusal hk error_ne_success rc) ⟨nofun, fun hs => absurd hs.1 (by decide)⟩
  | true =>
    rw [if_neg (by decide)]
    cases hctx : s.curdbgctx with
    | none => exact iff_of_false (not_matched_killed _) fun hs => hs.1 rfl rfl
    | some c =>
      dsimp only
      by_cases hpid : (s.clients c).dbgctx.pid = 0
      · rw [if_pos hpid]
        refine iff_of_true (matched_refusal hk error_ne_success rc) ⟨fun _ => nofun, ?_⟩
        rintro ⟨_, c', hc', hne⟩
        obtain rfl := Option.some.inj hc'
        exact absurd hpid hne
      · rw [if_neg hpid]
        exact ⟨fun hm => ⟨fun _ => nofun, fun _ => hm⟩, fun hs => hs.2 ⟨rfl, c, rfl, hpid⟩⟩

/-- A handler that needs a buffer. -/
theorem matched_buffer_iff {h null : Proc Handled} {size : UInt32}
    (hnull : Matched (Talk.finish ⟨receiveStatus k, null, q, []⟩)) :
    Matched (Talk.finish ⟨receiveStatus k, withBuffer os size null h, q, []⟩) ↔
      (size ≠ 0 → os.malloc size = true →
        allocEnds size = true ∧ Matched (Talk.finish ⟨receiveStatus k, h, q, []⟩)) := by
  unfold withBuffer
  by_cases hfail : size = 0 ∨ os.malloc size = false
  · rw [if_pos hfail]
    refine iff_of_true hnull fun hne hok => ?_
    rcases hfail with hz | hf
    · exact absurd hz hne
    · rw [hok] at hf
      cases hf
  · rw [if_neg hfail]
    obtain ⟨hne, hok⟩ := not_or.mp hfail
    rw [forall_prop_of_true hne, forall_prop_of_true (by simpa using hok)]
    cases allocEnds size with
    | true => exact (and_iff_right rfl).symm
    | false => exact iff_of_false (not_matched_killed _) nofun

end Ends

/-! ## Debug commands with a status word -/

section Status

variable {s : ServerState}

/-- The handler answers with one status word, unless it is not `safe`. -/
def Answers (o : Outcome) (safe : Prop) : Prop :=
  safe ∧ (∃ status rc, answering o = reply status rc) ∨ ¬ safe ∧ answering o = .ret .killed

theorem answering_one {o : Outcome} {status : UInt32} (hs : o.server.crashed = false) (ho : o.replies = [status]) :
    ∃ rc, answering o = reply status rc := by
  rw [answering, if_neg (by rw [hs]; decide), ho]
  exact ⟨_, rfl⟩

theorem answers_of_one {o : Outcome} {safe : Prop} (hsafe : safe) (hs : o.server.crashed = false)
    (ho : ∃ status, o.replies = [status]) : Answers o safe := by
  obtain ⟨status, ho⟩ := ho
  obtain ⟨rc, ha⟩ := answering_one hs ho
  exact .inl ⟨hsafe, status, rc, ha⟩

/-- A handler that looks into the session. -/
theorem answers_deref {k : ClientId → Dbgctx → Outcome} {safe : Prop} (hsafe : safe ↔ s.curdbgctx ≠ none)
    (hk : ∀ c, (k c (s.clients c).dbgctx).server.crashed = false ∧
      ∃ status, (k c (s.clients c).dbgctx).replies = [status]) : Answers (deref s k) safe := by
  cases hctx : s.curdbgctx with
  | none =>
    rw [deref_of_none hctx]
    exact .inr ⟨fun h => hsafe.mp h hctx, rfl⟩
  | some c =>
    rw [deref_of_some hctx]
    exact answers_of_one (hsafe.mpr (by rw [hctx]; nofun)) (hk c).1 (hk c).2

/-- A handler that tests `g_debug_attached` first. -/
theorem answers_attached {k : ClientId → Dbgctx → Outcome} (rc : Bool) (hs : s.crashed = false)
    (hk : ∀ c, (k c (s.clients c).dbgctx).server.crashed = false ∧
      ∃ status, (k c (s.clients c).dbgctx).replies = [status]) :
    Answers (if s.attached = false then .answer s CMD_ERROR rc else deref s k)
      (s.attached = true → s.curdbgctx ≠ none) := by
  cases hatt : s.attached with
  | false =>
    rw [if_pos rfl]
    exact answers_of_one nofun hs ⟨_, rfl⟩
  | true =>
    rw [if_neg (by decide)]
    exact answers_deref (forall_prop_of_true rfl) hk

theorem answers_attach (hs : s.crashed = false) (data : Option UInt32) (os : AttachOs) :
    Answers (debugAttachHandle s data os)
      (s.attached = false → data.isSome = true → os.traced = true → s.curdbgctx ≠ none) := by
  cases hatt : s.attached with
  | true =>
    rw [debugAttachHandle_attached hatt]
    exact answers_of_one (fun h => absurd h (by decide)) hs ⟨_, rfl⟩
  | false =>
    cases data with
    | none =>
      rw [debugAttachHandle, hatt, if_neg (by decide)]
      exact answers_of_one (fun _ h => by cases h) hs ⟨_, rfl⟩
    | some pid =>
      cases htr : os.traced with
      | false =>
        rw [debugAttachHandle_untraced hatt htr]
        exact answers_of_one (fun _ _ h => absurd h Bool.false_ne_true) hs ⟨_, rfl⟩
      | true =>
        cases hctx : s.curdbgctx with
        | none =>
          -- the session is looked into behind the four steps
          obtain ⟨⟨⟨h1, h2⟩, h3⟩, h4⟩ : ((os.elevAttach = true ∧ os.ptAttach = true) ∧ os.elevContinue = true) ∧
              os.ptContinue = true := by
            simpa only [AttachOs.traced, Bool.and_eq_true] using htr
          refine .inr ⟨fun h => h rfl rfl rfl rfl, ?_⟩
          simp only [debugAttachHandle, hatt, h1, h2, h3, h4, Bool.true_eq_false, Bool.false_eq_true, if_false,
            deref_of_none hctx]
          rfl
        | some c =>
          rw [debugAttachHandle_traced hatt hctx htr]
          dsimp only
          split
          · exact answers_of_one (fun _ _ _ => Option.some_ne_none c) hs ⟨_, rfl⟩
          · refine answers_of_one (fun _ _ _ => Option.some_ne_none c) ?_ ⟨_, rfl⟩
            simp only [ServerState.enter]
            split <;> exact hs

theorem answers_detach (hs : s.crashed = false) (os : TeardownOs) :
    Answers (debugDetachHandle s os) (s.attached = true → os.alive = true → s.curdbgctx ≠ none) := by
  unfold debugDetachHandle debugFullTeardown
  cases hatt : s.attached with
  | false =>
    rw [if_pos rfl]
    exact answers_of_one nofun hs ⟨CMD_SUCCESS, by simp [hs]⟩
  | true =>
    rw [if_neg (by decide)]
    cases hctx : s.curdbgctx with
    | none =>
      cases halive : os.alive with
      | true => exact .inr ⟨fun h => h rfl rfl rfl, rfl⟩
      | false => exact answers_of_one nofun rfl ⟨CMD_SUCCESS, rfl⟩
    | some c =>
      have hlive : s.release.crashed = false := (release_crashed s).trans hs
      cases halive : os.alive with
      | true => exact answers_of_one nofun hlive ⟨CMD_SUCCESS, by simp [hs]⟩
      | false => exact answers_of_one nofun hlive ⟨CMD_SUCCESS, by simp [hs]⟩

/-- The commands that answer with a status word alone. -/
def IsStatus : DebugPacket → Prop
  | .attach _ _ | .detach _ | .setBreakpoint _ | .setWatchpoint _ _ | .suspendThread _ _ | .resumeThread _ _
  | .step _ _ | .stepThread _ _ => True
  | _ => False

/-- **A status command sends one status word**, unless it looks into a session that is not there. -/
theorem answers_debugHandle (hs : s.crashed = false) {p : DebugPacket} (hp : IsStatus p) :
    Answers (Ps5Debugger.debugHandle s p) (SafePacket s p) := by
  have hstep (q : QuerySpec) (body : Option SetregPacket) (ok : Bool) (hq : q.noBody = none)
      (hacks : q.acks = false) : Answers (queryHandle q s body ok) (s.attached = true → s.curdbgctx ≠ none) := by
    refine answers_attached _ hs fun c => ?_
    rw [hq, hacks]
    split
    · exact ⟨hs, _, rfl⟩
    · dsimp only
      split <;> exact ⟨hs, _, rfl⟩
  have hbare (hasBody ok : Bool) : Answers (bareHandle s hasBody ok) (s.curdbgctx ≠ none) := by
    refine answers_deref Iff.rfl fun c => ?_
    split
    · exact ⟨hs, _, rfl⟩
    · split <;> exact ⟨hs, _, rfl⟩
  cases p with
  | attach data os => exact answers_attach hs data os
  | detach os => exact answers_detach hs os
  | setBreakpoint data =>
    refine answers_attached _ hs fun c => ?_
    dsimp only
    split
    · exact ⟨hs, _, rfl⟩
    · cases data with
      | none => exact ⟨hs, _, rfl⟩
      | some bp =>
        dsimp only
        split <;> exact ⟨hs, _, rfl⟩
  | setWatchpoint data os =>
    refine answers_attached _ hs fun c => ?_
    dsimp only
    split
    · exact ⟨hs, _, rfl⟩
    · cases data with
      | none => exact ⟨hs, _, rfl⟩
      | some wp =>
        dsimp only
        split
        · split
          · exact ⟨hs, _, rfl⟩
          · split <;> exact ⟨hs, _, rfl⟩
        · exact ⟨hs, _, rfl⟩
  | suspendThread hasBody ok => exact hbare hasBody ok
  | resumeThread hasBody ok => exact hbare hasBody ok
  | step body ok => exact hstep _ body ok rfl rfl
  | stepThread body ok => exact hstep _ body ok rfl rfl
  | _ => exact hp.elim

end Status

/-! ## Call by call -/

section Calls

variable {os : ServerOs}

section Status

variable {k : UInt32 → Proc (RpcResult Bool)}

theorem matched_answering_iff (hk : ∀ status, Over (k status)) {p : DebugPacket} (hp : IsStatus p) :
    Matched (Talk.finish ⟨receiveStatus k, answering (Ps5Debugger.debugHandle os.state p), [], []⟩) ↔
      SafePacket os.state p := by
  rcases answers_debugHandle os.lives hp with ⟨hsafe, status, rc, ha⟩ | ⟨hsafe, ha⟩
  · rw [ha]
    exact iff_of_true (matched_reply (hk status) rc) hsafe
  · rw [ha]
    exact iff_of_false (not_matched_killed _) hsafe

/-- A debug call with a body that answers with a status word. -/
theorem debug_call_iff {cmd : UInt32} {data : List Byte} {n : Nat} (p : Option (List Byte) → DebugPacket)
    (hcmd : ∀ data, cmdHandler os cmd data = answering (Ps5Debugger.debugHandle os.state (p data)))
    (hn : data.length = n) (hsize : 0 < n ∧ n ≤ maxDatalen) (hk : ∀ status, Over (k status))
    (hp : IsStatus (p (some data))) :
    Matches (sendPacket cmd data (receiveStatus k)) os ↔
      (os.bodyAlloc = true → SafePacket os.state (p (some data))) := by
  rw [matches_call_iff _ hcmd hn hsize fun status _ => hk status, matched_answering_iff hk hp]

end Status

theorem matches_attach_iff (pid : Int32) :
    Matches (DebuggerRpcService.attach pid) os ↔ (Call.attach pid).Kept os := by
  have hpid : word32 (writeInt pid) 0 = pid.toUInt32 := word32_int_last pid List.length_nil
  unfold DebuggerRpcService.attach
  rw [debug_call_iff (n := 4) (fun data => .attach (data.map fun ap => word32 ap 0) os.attach) (fun _ => rfl)
    (by simp) (by decide) (fun _ => over_value _) trivial, Option.map_some, hpid]
  exact Iff.rfl

theorem matches_detach_iff : Matches DebuggerRpcService.detach os ↔ Call.detach.Kept os := by
  rw [Matches, DebuggerRpcService.detach, finish_bare]
  exact matched_answering_iff (fun status => over_value _) (p := .detach os.teardown) trivial

theorem matches_stepProcess_iff : Matches DebuggerRpcService.stepProcess os ↔ Call.stepProcess.Kept os := by
  rw [Matches, DebuggerRpcService.stepProcess, finish_bare]
  exact matched_answering_iff (fun status => over_value _) (p := .step none os.kernel) trivial

theorem matches_setBreakpoint_iff (index : Int32) (enabled : Bool) (address : Int64) :
    Matches (DebuggerRpcService.setBreakpoint index enabled address) os ↔
      (Call.setBreakpoint index enabled address).Kept os :=
  debug_call_iff (n := 16) (fun data => .setBreakpoint (data.map fun bp => ⟨word32 bp 0, word32 bp 4, word64 bp 8⟩))
    (fun _ => rfl) (by simp) (by decide) (fun _ => over_value _) trivial

theorem matches_setWatchpoint_iff (index : Int32) (enabled : Bool) (length breakType : Int32) (address : Int64) :
    Matches (DebuggerRpcService.setWatchpoint index enabled length breakType address) os ↔
      (Call.setWatchpoint index enabled length breakType address).Kept os :=
  debug_call_iff (n := 24) (fun data => .setWatchpoint
      (data.map fun wp => ⟨word32 wp 0, word32 wp 4, word32 wp 8, word32 wp 12, word64 wp 16⟩) os.watchpt)
    (fun _ => rfl) (by simp) (by decide) (fun _ => over_value _) trivial

theorem matches_suspendThread_iff (lwpid : Int32) :
    Matches (DebuggerRpcService.suspendThread lwpid) os ↔ (Call.suspendThread lwpid).Kept os :=
  debug_call_iff (n := 4) (fun data => .suspendThread data.isSome os.kernel)
    (fun _ => rfl) (by simp) (by decide) (fun _ => over_value _) trivial

theorem matches_resumeThread_iff (lwpid : Int32) :
    Matches (DebuggerRpcService.resumeThread lwpid) os ↔ (Call.resumeThread lwpid).Kept os :=
  debug_call_iff (n := 4) (fun data => .resumeThread data.isSome os.kernel)
    (fun _ => rfl) (by simp) (by decide) (fun _ => over_value _) trivial

theorem matches_stepThread_iff (lwpid : Int32) :
    Matches (DebuggerRpcService.stepThread lwpid) os ↔ (Call.stepThread lwpid).Kept os :=
  debug_call_iff (n := 4) (fun data => .stepThread (data.map fun gp => ⟨word32 gp 0, 0⟩) os.kernel)
    (fun _ => rfl) (by simp) (by decide) (fun _ => over_value _) trivial

theorem matches_freeMemory (pid : Int32) (address : Int64) (length : Int32) :
    Matches (MemoryRpcService.freeMemory pid address length) os :=
  matches_call (n := 16) procFreeHandle (fun _ => rfl) (by simp) (by decide) refusable_success
    (matched_reply (over_value _) 0)

theorem matches_changeProtection (pid : Int32) (address : Int64) (length prot : Int32) :
    Matches (MemoryRpcService.changeProtection pid address length prot) os :=
  matches_call (n := 20) (procProtectHandle os) (fun _ => rfl) (by simp) (by decide) refusable_success
    (matched_reply (over_value _) 0)

/-! ### A block behind the status word -/

theorem matches_getKernBase : Matches MemoryRpcService.getKernBase os := by
  have hcmd : cmdHandler os 0xBDCC0001 none = kernBaseHandle os := rfl
  rw [Matches, MemoryRpcService.getKernBase, finish_bare, hcmd, kernBaseHandle]
  apply matched_block
  · rw [length_leBytes]
    rfl
  · exact over_value _

theorem matches_getProcessInfo (pid : Int32) : Matches (ProcessRpcService.getProcessInfo pid) os := by
  refine matches_call (n := 4) (procInfoHandle os) (fun _ => rfl) (by simp) (by decide)
    (refusable_unless over_thrown) ?_
  rw [procInfoHandle]
  split
  · exact matched_refusal (refusable_unless over_thrown) dataNull_ne_success 1
  · split
    · exact matched_refusal (refusable_unless over_thrown) dataNull_ne_success 1
    · split
      · exact matched_refusal (refusable_unless over_thrown) dataNull_ne_success 1
      · rename_i resp _
        apply matched_block
        · rw [resp.property]
          rfl
        · exact over_value _

theorem matches_getForegroundApp : Matches ProcessRpcService.getForegroundApp os := by
  have hcmd : cmdHandler os 0xBDDD0006 none = consoleForegroundAppHandle os := rfl
  rw [Matches, ProcessRpcService.getForegroundApp, finish_bare, hcmd, consoleForegroundAppHandle]
  split
  · apply matched_block
    · rw [List.length_replicate]
      rfl
    · exact over_value _
  · split
    · exact matched_refusal (refusable_unless over_thrown) dataNull_ne_success 1
    · rename_i resp _
      apply matched_block
      · rw [resp.property]
        rfl
      · exact over_value _

end Calls

end Rpc

end Ps5Debugger

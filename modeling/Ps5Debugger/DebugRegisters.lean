import Ps5Debugger.Debug
import Ps5Debugger.Net

/-!
# The register commands

Nine handlers of `debug.c` read or write the registers of one thread of the attached target, list
its threads or load its debug registers. Most of them stop the target first, unless it is stopped
already, and resume it afterwards. This is their model with everything `Debug` leaves out: the
threads and their registers, whether the target runs, and every answer of the kernel on the way.

`ptrace` acts on the thread whose id it is given, and on the first thread when it is given the
process id. Kernel memory is reached by the thread id only.
-/

namespace Ps5Debugger

open Lib

/-! ## Running and stopped -/

/-- Whether the target runs, and the signal of a stop that nobody has waited for: `wait4` reports a
stop once. -/
structure RunState where
  running : Bool
  report : Option UInt8
  /-- a target that runs has no stop to report -/
  idle : running = true → report = none
  deriving DecidableEq

theorem RunState.idle_none {running : Bool} : running = true → (none : Option UInt8) = none := fun _ => rfl

/-- `wait4` takes the report. -/
def RunState.waited (r : RunState) : RunState := ⟨r.running, none, idle_none⟩

/-- `is_process_stopped(pid)`: whether there is a report of signal 17; the report is gone then.
`waits` is whether `wait4` itself goes through. -/
def RunState.isProcessStopped (r : RunState) (waits : Bool) : Bool × RunState :=
  if waits then (r.report == some 0x11, r.waited) else (false, r)

/-- `kill(pid, 17)`, if it goes through. -/
def RunState.sigstop (r : RunState) (kills : Bool) : RunState :=
  if kills then ⟨false, if r.running then some 17 else r.report, fun h => absurd h Bool.false_ne_true⟩ else r

/-- `wait4_timeout`: `reported` is whether the report comes before the time is up. -/
def RunState.wait4Timeout (r : RunState) (reported : Bool) : RunState := if reported then r.waited else r

/-- `PT_CONTINUE`, if the target runs afterwards. -/
def RunState.continued (r : RunState) (runs : Bool) : RunState := if runs then ⟨true, none, idle_none⟩ else r

/-! ## Threads and registers -/

/-- The register sets of a thread. -/
inductive RegSet where
  | regs
  | fpregs
  | dbregs
  | fsgsbase
  deriving DecidableEq

/-- `REG_BLOB_SIZE`, `FPREG_BLOB_SIZE`, `DBREG_BLOB_SIZE`, `FSGSBASE_BLOB_SIZE`. -/
def RegSet.size : RegSet → Nat
  | .regs => 0xB0
  | .fpregs => 0x340
  | .dbregs => 0x80
  | .fsgsbase => 0x10

/-- The bytes of one register set, also a handler's `buf` for it. -/
abbrev Blob (k : RegSet) : Type := Fin k.size → Byte

/-- `memset(buf, 0, …)`. -/
def Blob.zero (k : RegSet) : Blob k := fun _ => 0

/-- What is sent of a blob. -/
def Blob.bytes {k : RegSet} (b : Blob k) : List Byte := List.ofFn b

/-- A `buf` that held `raw` after `net_recv_all` stored `got` in it. Bytes that go past its end land
on the stack behind it. -/
def Blob.recv {k : RegSet} (raw : Blob k) (got : List Byte) : Blob k := fun i => got.getD i (raw i)

/-- The attached target. -/
structure Tracee where
  pid : UInt32
  /-- its first thread -/
  first : UInt32
  /-- its other threads -/
  others : List UInt32
  /-- no thread has the id of the process: the kernel numbers threads from above all processes -/
  pidFree : pid ∉ first :: others
  regs : (k : RegSet) → UInt32 → Blob k
  run : RunState

def Tracee.threads (t : Tracee) : List UInt32 := t.first :: t.others

/-- The thread a ptrace request acts on. -/
def Tracee.thread (t : Tracee) (id : UInt32) : Option UInt32 :=
  if id = t.pid then some t.first else if id ∈ t.threads then some id else none

def Tracee.setRegs (t : Tracee) (k : RegSet) (lwp : UInt32) (b : Blob k) : Tracee :=
  { t with regs := Function.update t.regs k (Function.update (t.regs k) lwp b) }

def Tracee.setRun (t : Tracee) (r : RunState) : Tracee := { t with run := r }

/-- What a `ptrace_elev` answers: -1 with the `errno` its caller then reads, which is 0 where the
elevation failed before any system call did. -/
inductive PtraceRes where
  | ok
  | fail (errno : UInt32)
  deriving DecidableEq

/-- `== -1 && errno != 0`. -/
def PtraceRes.refused : PtraceRes → Bool
  | .ok => false
  | .fail errno => errno != 0

/-- `ptrace_elev(PT_GET…, id, buf, 0)`. -/
def Tracee.ptraceGet (t : Tracee) (k : RegSet) (id : UInt32) (res : PtraceRes) (buf : Blob k) : Blob k :=
  match res, t.thread id with
  | .ok, some lwp => t.regs k lwp
  | _, _ => buf

/-- `ptrace_elev(PT_SET…, id, buf, 0)`. -/
def Tracee.ptraceSet (t : Tracee) (k : RegSet) (id : UInt32) (res : PtraceRes) (buf : Blob k) : Tracee :=
  match res, t.thread id with
  | .ok, some lwp => t.setRegs k lwp buf
  | _, _ => t

/-- `kern_thread_addr(pid, lwpid)` finds the thread with that id in the list the kernel keeps, and
the reads and writes of kernel memory behind it go through if `kern`. -/
def Tracee.kernThread (t : Tracee) (lwpid : UInt32) (kern : Bool) : Bool :=
  kern && decide (lwpid ∈ t.threads)

/-! ## What the handlers share -/

/-- What a handler leaves: the target, the status words, the data behind the last of them; and if it
received something, the size of the buffer it went to and how many bytes came. -/
structure RegOutcome where
  tracee : Tracee
  replies : List UInt32
  data : List Byte := []
  received : Option (Nat × Nat) := none

/-- Status words, and data behind them. -/
def RegOutcome.reply (t : Tracee) (replies : List UInt32) (data : List Byte := []) : RegOutcome :=
  { tracee := t, replies, data }

/-- `net_recv_all` into the handler's `buf`. -/
def RegOutcome.receiving (o : RegOutcome) (k : RegSet) (r : Recv) : RegOutcome :=
  { o with received := some (k.size, r.got.length) }

section Outcome

variable (t : Tracee) (replies : List UInt32) (data : List Byte) (o : RegOutcome) (k : RegSet) (r : Recv)

@[simp] theorem reply_tracee : (RegOutcome.reply t replies data).tracee = t := rfl
@[simp] theorem reply_replies : (RegOutcome.reply t replies data).replies = replies := rfl
@[simp] theorem reply_data : (RegOutcome.reply t replies data).data = data := rfl
@[simp] theorem reply_received : (RegOutcome.reply t replies data).received = none := rfl

@[simp] theorem receiving_tracee : (o.receiving k r).tracee = o.tracee := rfl
@[simp] theorem receiving_replies : (o.receiving k r).replies = o.replies := rfl
@[simp] theorem receiving_received : (o.receiving k r).received = some (k.size, r.got.length) := rfl

end Outcome

/-- The answers to stopping and resuming. -/
structure StopOs where
  /-- `wait4` of `is_process_stopped` -/
  waits : Bool
  /-- `kill(pid, 17)` -/
  kills : Bool
  /-- `wait4_timeout` gets a report -/
  reported : Bool
  /-- `resume_app_via_self_id` and `PT_CONTINUE` set the target going -/
  resumes : Bool
  deriving DecidableEq

/-- `if (is_process_stopped(pid) == 0) { kill(pid, 17); wait4_timeout(pid); we_stopped = 1; }`. -/
def RunState.stopped (r : RunState) (os : StopOs) : RunState × Bool :=
  let p := r.isProcessStopped os.waits
  if p.1 then (p.2, false) else ((p.2.sigstop os.kills).wait4Timeout os.reported, true)

/-- `if (we_stopped) { resume_app_via_self_id(pid); ptrace_elev(PT_CONTINUE, pid, 1, 0); }`. -/
def RunState.resumed (r : RunState) (weStopped : Bool) (os : StopOs) : RunState :=
  if weStopped then r.continued os.resumes else r

/-- The answers to a register command: stopping and resuming, kernel memory, the ptrace request. -/
structure RegOs where
  stop : StopOs
  kern : Bool
  ptrace : PtraceRes

/-- `(int)sp->length`, as `net_recv_all` takes it. -/
def SetregPacket.recvLen (sp : SetregPacket) : Int := sp.length.toInt32.toInt

/-! ## Handlers -/

namespace Tracee

variable (t : Tracee)

/-- `debug_getregs_handle`. -/
def debugGetregsHandle (data : Option UInt32) (os : RegOs) : RegOutcome :=
  match data with
  | none => .reply t [CMD_DATA_NULL]
  | some lwpid =>
    if os.ptrace.refused then .reply t [CMD_ERROR]
    else .reply t [CMD_SUCCESS] (t.ptraceGet .regs lwpid os.ptrace (Blob.zero _)).bytes

/-- `debug_setregs_handle`: whatever came, as much as there was, goes to the process. -/
def debugSetregsHandle (data : Option SetregPacket) (stream : List Byte) (raw : Blob .regs) (os : RegOs) :
    RegOutcome :=
  match data with
  | none => .reply t [CMD_ERROR]
  | some sp =>
    let r := netRecvAll stream sp.recvLen
    (RegOutcome.reply (t.ptraceSet .regs t.pid os.ptrace (raw.recv r.got))
      [CMD_SUCCESS, if os.ptrace.refused then CMD_ERROR else CMD_SUCCESS]).receiving .regs r

/-- `debug_getfpregs_handle`: from kernel memory, or by ptrace. -/
def debugGetfpregsHandle (data : Option UInt32) (os : RegOs) : RegOutcome :=
  match data with
  | none => .reply t [CMD_DATA_NULL]
  | some lwpid =>
    let p := t.run.stopped os.stop
    let kern := t.kernThread lwpid os.kern
    let buf := if kern then t.regs .fpregs lwpid
      else t.ptraceGet .fpregs lwpid os.ptrace (Blob.zero _)
    let t := t.setRun (p.1.resumed p.2 os.stop)
    if !kern && os.ptrace.refused then .reply t [CMD_ERROR] else .reply t [CMD_SUCCESS] buf.bytes

/-- `debug_setfpregs_handle`: a blob of full length goes to kernel memory; a shorter one, or one
that did not get there, by ptrace to the process. -/
def debugSetfpregsHandle (data : Option SetregPacket) (stream : List Byte) (os : RegOs) : RegOutcome :=
  match data with
  | none => .reply t [CMD_ERROR]
  | some sp =>
    if sp.length.toNat > RegSet.size .fpregs then .reply t [CMD_ERROR]
    else
      let r := netRecvAll stream sp.recvLen
      if r.ok = false then (RegOutcome.reply t [CMD_SUCCESS, CMD_ERROR]).receiving .fpregs r
      else
        let buf := (Blob.zero .fpregs).recv r.got
        let p := t.run.stopped os.stop
        let applied := sp.length.toNat == RegSet.size .fpregs && t.kernThread sp.lwpid os.kern
        let t := if applied then t.setRegs .fpregs sp.lwpid buf
          else t.ptraceSet .fpregs t.pid os.ptrace buf
        let t := t.setRun (p.1.resumed p.2 os.stop)
        (RegOutcome.reply t
          [CMD_SUCCESS, if !applied && os.ptrace.refused then CMD_ERROR else CMD_SUCCESS]).receiving .fpregs r

/-- The four address registers, `dr6` and `dr7`: what `kern_get_dbregs` copies. -/
def kernDbregs (b : Blob .dbregs) : Blob .dbregs := fun i =>
  if i.val < 0x20 ∨ (0x30 ≤ i.val ∧ i.val < 0x40) then b i else 0

/-- `debug_getdbregs_handle`; `fw` is `fw_uses_kernel_dbreg_path`. The error exit leaves a target
that was stopped for it stopped. -/
def debugGetdbregsHandle (data : Option UInt32) (fw : Bool) (os : RegOs) : RegOutcome :=
  match data with
  | none => .reply t [CMD_DATA_NULL]
  | some lwpid =>
    let p := t.run.stopped os.stop
    let buf := if fw then kernDbregs (t.regs .dbregs lwpid)
      else t.ptraceGet .dbregs lwpid os.ptrace (Blob.zero _)
    if (if fw then !t.kernThread lwpid os.kern else os.ptrace.refused) then
      .reply (t.setRun p.1) [CMD_ERROR]
    else .reply (t.setRun (p.1.resumed p.2 os.stop)) [CMD_SUCCESS] buf.bytes

/-- `debug_setdbregs_handle`: the target is continued, stopped, and resumed once the request went
through; `continues` is the answer to the first `PT_CONTINUE`. -/
def debugSetdbregsHandle (data : Option SetregPacket) (stream : List Byte) (raw : Blob .dbregs)
    (continues : Bool) (os : RegOs) : RegOutcome :=
  match data with
  | none => .reply t [CMD_ERROR]
  | some sp =>
    let r := netRecvAll stream sp.recvLen
    let run := ((t.run.continued continues).sigstop os.stop.kills).wait4Timeout os.stop.reported
    let o : RegOutcome := if os.ptrace.refused then .reply (t.setRun run) [CMD_SUCCESS, CMD_ERROR]
      else .reply ((t.ptraceSet .dbregs sp.lwpid os.ptrace (raw.recv r.got)).setRun
        (run.continued os.stop.resumes)) [CMD_SUCCESS, CMD_SUCCESS]
    o.receiving .dbregs r

/-- `debug_getfsgsbase_handle`. -/
def debugGetfsgsbaseHandle (data : Option UInt32) (os : RegOs) : RegOutcome :=
  match data with
  | none => .reply t [CMD_DATA_NULL]
  | some lwpid =>
    let p := t.run.stopped os.stop
    let kern := t.kernThread lwpid os.kern
    let t' := t.setRun (p.1.resumed p.2 os.stop)
    if kern then .reply t' [CMD_SUCCESS] (t.regs .fsgsbase lwpid).bytes else .reply t' [CMD_ERROR]

/-- `debug_setfsgsbase_handle`. -/
def debugSetfsgsbaseHandle (data : Option SetregPacket) (stream : List Byte) (os : RegOs) : RegOutcome :=
  match data with
  | none => .reply t [CMD_ERROR]
  | some sp =>
    if sp.length.toNat ≠ RegSet.size .fsgsbase then .reply t [CMD_ERROR]
    else
      let r := netRecvAll stream sp.recvLen
      if r.ok = false then (RegOutcome.reply t [CMD_SUCCESS, CMD_ERROR]).receiving .fsgsbase r
      else
        let buf := (Blob.zero .fsgsbase).recv r.got
        let p := t.run.stopped os.stop
        let kern := t.kernThread sp.lwpid os.kern
        let t := if kern then t.setRegs .fsgsbase sp.lwpid buf else t
        let t := t.setRun (p.1.resumed p.2 os.stop)
        (RegOutcome.reply t [CMD_SUCCESS, if kern then CMD_SUCCESS else CMD_ERROR]).receiving .fsgsbase r

/-- The answers to the two commands that list the threads: the first count, or the `errno` of its
refusal; then what the stop needs, the second count, the buffer and the list. -/
structure ListOs where
  count : Except UInt32 Nat
  kills : Bool
  reported : Bool
  recount : Except UInt32 Nat
  alloc : Bool
  list : Bool
  /-- what the buffer holds after `PT_GETLWPLIST` -/
  lwps : List UInt32
  resumes : Bool

/-- `EBUSY`: the target runs. -/
def EBUSY : UInt32 := 16

/-- The target after `kill(pid, 17); wait4_timeout(pid)`. -/
def ListOs.stop (os : ListOs) (r : RunState) : RunState := (r.sigstop os.kills).wait4Timeout os.reported

/-- `debug_get_thread_list_handle`: the target is stopped only if the first count is refused because
it runs, and every exit resumes it then. A second count that is refused is sent as -1. -/
def debugGetThreadListHandle (os : ListOs) : RegOutcome :=
  let send (t : Tracee) (count : Except UInt32 Nat) : RegOutcome :=
    if os.alloc && os.list then
      .reply t [CMD_SUCCESS] (match count with
        | .ok n => leBytes 4 n ++ (os.lwps.take n).flatMap fun l => leBytes 4 l.toNat
        | .error _ => leBytes 4 0xFFFFFFFF)
    else .reply t [CMD_ERROR]
  match os.count with
  | .ok n => send t (.ok n)
  | .error errno =>
    if errno ≠ EBUSY then .reply t [CMD_ERROR]
    else send (t.setRun ((os.stop t.run).continued os.resumes)) os.recount

/-- `debug_set_watchpoint_handle` as far as the target is concerned: `elev` is the elevation, `loads`
whether every thread takes the block. What becomes of the block is in `Debug`. -/
def debugSetWatchpointHandle (data : Option WatchptPacket) (elev : Bool) (os : ListOs) (loads : Bool) :
    RegOutcome :=
  match data with
  | none => .reply t [CMD_DATA_NULL]
  | some wp =>
    if wp.index > 3 then .reply t [CMD_INVALID_INDEX]
    else if elev = false then .reply t [CMD_ERROR]
    else
      let load (t : Tracee) (count : Except UInt32 Nat) : RegOutcome :=
        -- no thread is asked if the count is -1
        let loads := match count with
          | .ok _ => loads
          | .error _ => true
        .reply t [if os.alloc && os.list && loads then CMD_SUCCESS else CMD_ERROR]
      match os.count with
      | .ok n => load t (.ok n)
      | .error errno =>
        if errno ≠ EBUSY then .reply t [CMD_ERROR]
        else load (t.setRun ((os.stop t.run).continued os.resumes)) os.recount

end Tracee

end Ps5Debugger

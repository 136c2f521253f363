import Ps5Debugger.Lib.Bytes
import Ps5Debugger.Lib.Patch

/-!
# The debugger: sessions, breakpoints, the event pump

The state of `debug.c` and of the connection table it works on: twelve client slots, each with
a debug context of its own, and the globals `g_debug_attached`, `curdbgcli` and `curdbgctx` that
say which of them is debugging. Three layers:

* the two tables of a context, thirty breakpoint slots and the debug-register block, with what a
  packet, a hit and the teardown do to them;
* the handlers behind `debug_handle`, the event pump `dispatch_debug_events`, the teardown;
* the connection: `alloc_client`, `free_client` and the attach latch of `handle_client`.

What the operating system answers (privilege elevation, `ptrace`, sockets, the state of the
target) is an argument of each operation, one field for each point at which it can fail. The
target itself does nothing here: its memory changes by the server's writes only, and what is
mapped stays mapped.
-/

namespace Ps5Debugger

open Lib

/-! ## Target memory -/

/-- The memory of the target, `none` where nothing is mapped. `proc_write_mem` of one byte is
`poke`, `sys_proc_rw_w0` into a slot is `peek`: both do nothing at an unmapped address. -/
abbrev TargetMem : Type := UInt64 → Option Byte

/-! ## Breakpoint slots -/

/-- `int3`. -/
def INT3 : Byte := 0xCC

/-- `cmd_debug_breakpt_packet`. -/
structure BreakptPacket where
  index : UInt32
  enabled : UInt32
  address : UInt64
  deriving DecidableEq

/-- A breakpoint slot. A slot is switched off by clearing the flag and the address together, the
saved byte stays, so a slot that is off has no address. -/
structure BpSlot where
  enabled : Bool
  address : UInt64
  saved : Byte
  /-- an unused slot has no address -/
  idle : enabled = false → address = 0

/-- A slot as `memset` leaves it. -/
def BpSlot.zero : BpSlot := ⟨false, 0, 0, fun _ => rfl⟩

/-- The breakpoint table of a context, `MAX_BREAKPOINTS` slots. -/
abbrev BpTable : Type := Fin 30 → BpSlot

/-- The enabled branch: the slot takes the address, saves the byte found there, and the byte is
overwritten. Whatever the slot held before is forgotten. -/
def BpTable.arm (bps : BpTable) (mem : TargetMem) (i : Fin 30) (addr : UInt64) : BpTable :=
  Function.update bps i ⟨true, addr, peek mem addr (bps i).saved, fun h => Bool.noConfusion h⟩

/-- The disabled branch. -/
def BpTable.disarm (bps : BpTable) (i : Fin 30) : BpTable :=
  Function.update bps i ⟨false, 0, (bps i).saved, fun _ => rfl⟩

/-- What the disabled branch writes: the saved byte, if the slot was in use. -/
def BpTable.disarmWrites (bps : BpTable) (i : Fin 30) : List (UInt64 × Byte) :=
  if (bps i).enabled = true ∧ (bps i).address ≠ 0 then [((bps i).address, (bps i).saved)] else []

/-- The table and the writes of one packet for slot `i`. -/
def BpTable.setBreakpoint (bps : BpTable) (mem : TargetMem) (i : Fin 30) (bp : BreakptPacket) :
    BpTable × List (UInt64 × Byte) :=
  if bp.enabled ≠ 0 then (bps.arm mem i bp.address, [(bp.address, INT3)])
  else (bps.disarm i, bps.disarmWrites i)

/-- The first slot at address `x`. -/
def BpTable.matched (bps : BpTable) (x : UInt64) : Option (Fin 30) :=
  (List.finRange 30).find? fun i => (bps i).address ≠ 0 ∧ (bps i).address = x

/-- A hit steps over the original instruction: the saved byte goes back, the thread makes one
step, and the slot is armed again. -/
def BpTable.hitWrites (bps : BpTable) (i : Fin 30) : List (UInt64 × Byte) :=
  [((bps i).address, (bps i).saved), ((bps i).address, INT3)]

/-- The loop of `debug_full_teardown`: saved bytes go back slot after slot, up to the first slot
without an address. -/
def BpTable.teardownWrites (bps : BpTable) : List (UInt64 × Byte) :=
  (((List.finRange 30).map bps).takeWhile fun s => s.address ≠ 0).map fun s => (s.address, s.saved)

/-! ## Watchpoints -/

/-- `cmd_debug_watchpt_packet`. -/
structure WatchptPacket where
  index : UInt32
  enabled : UInt32
  length : UInt32
  breaktype : UInt32
  address : UInt64
  deriving DecidableEq

/-- The debug registers a context keeps: the four address registers and `dr7`. -/
structure DrBlock where
  drAddr : Fin 4 → UInt64
  dr7 : UInt64

def DrBlock.zero : DrBlock := ⟨fun _ => 0, 0⟩

/-- The bits of `dr7` that belong to register `i`. -/
def dr7Low (i : Fin 4) : UInt64 := 3 <<< (2 * i.val.toUInt64)

def dr7Mask (i : Fin 4) : UInt64 := (0xF <<< (4 * i.val.toUInt64 + 16)) ||| dr7Low i

/-- `((length << 2) | breaktype) << cl2`, 64 bits wide: nothing keeps it inside the mask. -/
def dr7High (i : Fin 4) (wp : WatchptPacket) : UInt64 :=
  ((wp.length.toUInt64 <<< 2) ||| wp.breaktype.toUInt64) <<< (4 * i.val.toUInt64 + 16)

/-- The block after one packet for register `i`. -/
def DrBlock.setWatchpoint (dr : DrBlock) (i : Fin 4) (wp : WatchptPacket) : DrBlock :=
  let cleared := dr.dr7 &&& ~~~ dr7Mask i
  if wp.enabled ≠ 0 then
    ⟨Function.update dr.drAddr i wp.address, cleared ||| (dr7Low i ||| dr7High i wp)⟩
  else ⟨Function.update dr.drAddr i 0, cleared⟩

/-! ## The server -/

/-- A debug context, `server_client.dbgctx`. -/
structure Dbgctx where
  pid : UInt32
  dbgfd : Int
  bps : BpTable
  dr : DrBlock

/-- `memset(slot->dbgctx, 0, …)`. -/
def Dbgctx.zero : Dbgctx := ⟨0, 0, fun _ => .zero, .zero⟩

/-- One of `SERVER_MAXCLIENTS` slots. -/
abbrev ClientId : Type := Fin 12

structure ServerClient where
  active : Bool
  debugging : Bool
  clientAddr : UInt32
  dbgctx : Dbgctx

def ServerClient.zero : ServerClient := ⟨false, false, 0, .zero⟩

/-- The connection table, the globals of a debug session and the memory of every process.
`curdbgcli` points to a client slot, `curdbgctx` to the context inside one; both are slot numbers
here. A null session that is dereferenced takes the server down. -/
@[ext]
structure ServerState where
  clients : ClientId → ServerClient
  attached : Bool
  curdbgcli : Option ClientId
  curdbgctx : Option ClientId
  mem : UInt32 → TargetMem
  crashed : Bool

/-- `server_state_init`. -/
def ServerState.init (mem : UInt32 → TargetMem) : ServerState :=
  ⟨fun _ => .zero, false, none, none, mem, false⟩

/-- What the server does to the outside: bytes that change in a process, debug registers loaded
into a thread, the event channel opened to an address. The event pump also puts a thread's own
registers back after a single step; nothing of a context is in them and they are not listed. -/
inductive Effect where
  | write (pid : UInt32) (addr : UInt64) (b : Byte)
  | loadDbregs (pid lwp : UInt32) (block : DrBlock)
  | openEvents (addr : UInt32)

/-- What an operation leaves: the server, whether it returned non-zero, the status words sent,
the dereferences of `curdbgctx` and the effects. A stretch of code that does not assign
`curdbgctx` lists one dereference. -/
structure Outcome where
  server : ServerState
  rc : Bool := false
  replies : List UInt32 := []
  reads : List (Option ClientId) := []
  effects : List Effect := []

def CMD_SUCCESS : UInt32 := 0x40000000
def CMD_ERROR : UInt32 := 0xF0000002
def CMD_DATA_NULL : UInt32 := 0xF0000003
def CMD_ALREADY_DEBUG : UInt32 := 0xF0000008
def CMD_INVALID_INDEX : UInt32 := 0xF000000A

/-- `net_send_int32(fd, code); return rc`, the state as it is. -/
def Outcome.answer (s : ServerState) (code : UInt32) (rc : Bool) : Outcome :=
  { server := s, rc := rc, replies := [code] }

/-- `DBGCTX()->…`: the rest of a function after it dereferences the session. -/
def deref (s : ServerState) (k : ClientId → Dbgctx → Outcome) : Outcome :=
  match s.curdbgctx with
  | none => { server := { s with crashed := true }, reads := [none] }
  | some c =>
    let o := k c (s.clients c).dbgctx
    { o with reads := some c :: o.reads }

def ServerState.setClient (s : ServerState) (c : ClientId) (cl : ServerClient) : ServerState :=
  { s with clients := Function.update s.clients c cl }

def ServerState.setCtx (s : ServerState) (c : ClientId) (ctx : Dbgctx) : ServerState :=
  s.setClient c { s.clients c with dbgctx := ctx }

/-- One-byte writes into process `pid`. -/
def ServerState.writeAll (s : ServerState) (pid : UInt32) (ws : List (UInt64 × Byte)) : ServerState :=
  { s with mem := Function.update s.mem pid (pokeAll (s.mem pid) ws) }

section Fields

variable (s : ServerState) (c : ClientId) (cl : ServerClient) (ctx : Dbgctx) (pid : UInt32)
  (ws : List (UInt64 × Byte))

@[simp] theorem setClient_attached : (s.setClient c cl).attached = s.attached := rfl
@[simp] theorem setClient_curdbgcli : (s.setClient c cl).curdbgcli = s.curdbgcli := rfl
@[simp] theorem setClient_curdbgctx : (s.setClient c cl).curdbgctx = s.curdbgctx := rfl
@[simp] theorem setClient_mem : (s.setClient c cl).mem = s.mem := rfl
@[simp] theorem setClient_crashed : (s.setClient c cl).crashed = s.crashed := rfl

@[simp] theorem setClient_self : (s.setClient c cl).clients c = cl := by
  simp [ServerState.setClient]

theorem setClient_ne {d : ClientId} (h : d ≠ c) : (s.setClient c cl).clients d = s.clients d := by
  simp [ServerState.setClient, h]

@[simp] theorem setCtx_attached : (s.setCtx c ctx).attached = s.attached := rfl
@[simp] theorem setCtx_curdbgcli : (s.setCtx c ctx).curdbgcli = s.curdbgcli := rfl
@[simp] theorem setCtx_curdbgctx : (s.setCtx c ctx).curdbgctx = s.curdbgctx := rfl
@[simp] theorem setCtx_mem : (s.setCtx c ctx).mem = s.mem := rfl
@[simp] theorem setCtx_crashed : (s.setCtx c ctx).crashed = s.crashed := rfl

@[simp] theorem setCtx_self : ((s.setCtx c ctx).clients c).dbgctx = ctx := by
  rw [ServerState.setCtx, setClient_self]

/-- A context is changed inside its slot. -/
theorem setCtx_clients (d : ClientId) : (s.setCtx c ctx).clients d =
    { s.clients d with dbgctx := if d = c then ctx else (s.clients d).dbgctx } := by
  by_cases h : d = c
  · subst h
    rw [ServerState.setCtx, setClient_self, if_pos rfl]
  · rw [ServerState.setCtx, setClient_ne s c _ h, if_neg h]

@[simp] theorem writeAll_attached : (s.writeAll pid ws).attached = s.attached := rfl
@[simp] theorem writeAll_curdbgcli : (s.writeAll pid ws).curdbgcli = s.curdbgcli := rfl
@[simp] theorem writeAll_curdbgctx : (s.writeAll pid ws).curdbgctx = s.curdbgctx := rfl
@[simp] theorem writeAll_clients : (s.writeAll pid ws).clients = s.clients := rfl
@[simp] theorem writeAll_crashed : (s.writeAll pid ws).crashed = s.crashed := rfl

@[simp] theorem writeAll_self : (s.writeAll pid ws).mem pid = pokeAll (s.mem pid) ws :=
  Function.update_self pid _ s.mem

theorem writeAll_ne {q : UInt32} (h : q ≠ pid) : (s.writeAll pid ws).mem q = s.mem q :=
  Function.update_of_ne h _ s.mem

end Fields

/-- The writes of a list that reach a mapped byte. -/
def writeEffects (mem : TargetMem) (pid : UInt32) (ws : List (UInt64 × Byte)) : List Effect :=
  (ws.filter fun w => (mem w.1).isSome).map fun w => .write pid w.1 w.2

/-! ## Teardown -/

/-- What the system answers a teardown: whether the target is still there, and the threads whose
debug registers get cleared. -/
structure TeardownOs where
  alive : Bool
  lwps : List UInt32

/-- The globals after a session: the flag of the debugging client, both pointers, the latch. -/
def ServerState.release (s : ServerState) : ServerState :=
  let s' := match s.curdbgcli with
    | none => s
    | some c => s.setClient c { s.clients c with debugging := false }
  { s' with attached := false, curdbgcli := none, curdbgctx := none }

section Release

variable (s : ServerState)

@[simp] theorem release_attached : s.release.attached = false := rfl
@[simp] theorem release_curdbgcli : s.release.curdbgcli = none := rfl
@[simp] theorem release_curdbgctx : s.release.curdbgctx = none := rfl

@[simp] theorem release_mem : s.release.mem = s.mem := by
  unfold ServerState.release
  cases s.curdbgcli <;> rfl

@[simp] theorem release_crashed : s.release.crashed = s.crashed := by
  unfold ServerState.release
  cases s.curdbgcli <;> rfl

/-- Only the debugging flag of `curdbgcli` is touched in the table. -/
theorem release_clients (d : ClientId) : s.release.clients d =
    { s.clients d with debugging := if s.curdbgcli = some d then false else (s.clients d).debugging } := by
  unfold ServerState.release
  cases hc : s.curdbgcli with
  | none => rfl
  | some c =>
    by_cases h : d = c
    · subst h
      simp
    · have hne : ¬ some c = some d := fun e => h (Option.some.inj e).symm
      simp only [if_neg hne]
      exact setClient_ne s c _ h

end Release

/-- `debug_full_teardown(svc)` on a context, or on the null pointer. The tables of the context
stay as they are. -/
def debugFullTeardown (s : ServerState) (svc : Option ClientId) (os : TeardownOs) :
    ServerState × List Effect :=
  if s.attached = false then (s, [])
  else match svc with
  | none => ({ s.release with crashed := os.alive }, [])
  | some c =>
    let ctx := (s.clients c).dbgctx
    if os.alive then
      let ws := ctx.bps.teardownWrites
      (s.release.writeAll ctx.pid ws,
        writeEffects (s.mem ctx.pid) ctx.pid ws ++ os.lwps.map fun l => .loadDbregs ctx.pid l .zero)
    else (s.release, [])

/-! ## Handlers -/

/-- `debug_process_stop_handle`: the body is a pid and an action; no session is involved. -/
def debugProcessStopHandle (s : ServerState) (data : Option (UInt32 × UInt8)) : Outcome :=
  match data with
  | none => .answer s CMD_DATA_NULL true
  | some (pid, action) =>
    if action > 2 then .answer s CMD_ERROR true
    else if pid = 0 then .answer s CMD_ERROR true
    else .answer s CMD_SUCCESS false

/-- What the system answers an ATTACH: the two elevations, `PT_ATTACH`, `PT_CONTINUE`, then the
descriptor `socket` returns and whether `connect` succeeds. -/
structure AttachOs where
  elevAttach : Bool
  ptAttach : Bool
  elevContinue : Bool
  ptContinue : Bool
  sock : Int
  connects : Bool

/-- The steps before the event channel. -/
def AttachOs.traced (os : AttachOs) : Bool :=
  os.elevAttach && os.ptAttach && os.elevContinue && os.ptContinue

/-- The event channel opens. -/
def AttachOs.channel (os : AttachOs) : Bool := decide (0 < os.sock) && os.connects

/-- `connect_debugger(ctx, addr)`: the latch first, then the socket. The second component is
whether the channel is open. -/
def connectDebugger (s : ServerState) (c : ClientId) (os : AttachOs) : ServerState × Bool :=
  let s := { s with attached := true }
  let ctx := (s.clients c).dbgctx
  if os.sock ≤ 0 then (s.setCtx c { ctx with dbgfd := os.sock }, false)
  else if os.connects then (s.setCtx c { ctx with dbgfd := os.sock }, true)
  else (s.setCtx c { ctx with dbgfd := -1 }, false)

/-- The end of a successful ATTACH: `DBGCTX()->pid = ap->pid` and the debugging flag of
`curdbgcli`, whichever client that is. -/
def ServerState.enter (s : ServerState) (c : ClientId) (pid : UInt32) : ServerState :=
  let s := s.setCtx c { (s.clients c).dbgctx with pid := pid }
  match s.curdbgcli with
  | none => s
  | some d => s.setClient d { s.clients d with debugging := true }

/-- The address the event channel is opened to, `curdbgcli->client_addr`. -/
def ServerState.eventAddr (s : ServerState) : UInt32 :=
  (s.curdbgcli.map fun d => (s.clients d).clientAddr).getD 0

/-- `debug_attach_handle`. -/
def debugAttachHandle (s : ServerState) (data : Option UInt32) (os : AttachOs) : Outcome :=
  if s.attached then .answer s CMD_ALREADY_DEBUG true
  else match data with
  | none => .answer s CMD_DATA_NULL true
  | some pid =>
    if os.elevAttach = false then .answer s CMD_ERROR true
    else if os.ptAttach = false then .answer s CMD_ERROR true
    else if os.elevContinue = false then .answer s CMD_ERROR true
    else if os.ptContinue = false then .answer s CMD_ERROR true
    else deref s fun c _ =>
      let r := connectDebugger s c os
      if r.2 = false then .answer r.1 CMD_ERROR true
      else
        { Outcome.answer (r.1.enter c pid) CMD_SUCCESS false with effects := [.openEvents s.eventAddr] }

/-- `debug_detach_handle`. The session is dereferenced past the test of the latch. -/
def debugDetachHandle (s : ServerState) (os : TeardownOs) : Outcome :=
  let t := debugFullTeardown s s.curdbgctx os
  { server := t.1, replies := if t.1.crashed then [] else [CMD_SUCCESS]
    reads := if s.attached then [s.curdbgctx] else [], effects := t.2 }

/-- `debug_set_breakpoint_handle`. -/
def debugSetBreakpointHandle (s : ServerState) (data : Option BreakptPacket) : Outcome :=
  if s.attached = false then .answer s CMD_ERROR true
  else deref s fun c ctx =>
    if ctx.pid = 0 then .answer s CMD_ERROR true
    else match data with
    | none => .answer s CMD_DATA_NULL true
    | some bp =>
      if h : bp.index.toNat < 30 then
        let r := ctx.bps.setBreakpoint (s.mem ctx.pid) ⟨bp.index.toNat, h⟩ bp
        { Outcome.answer ((s.setCtx c { ctx with bps := r.1 }).writeAll ctx.pid r.2) CMD_SUCCESS false with
          effects := writeEffects (s.mem ctx.pid) ctx.pid r.2 }
      else .answer s CMD_INVALID_INDEX true

/-- What the system answers a SET_WATCHPOINT: the elevation, the thread list, and for each thread
whether `PT_SETDBREGS` goes through. -/
structure WatchptOs where
  elev : Bool
  lwps : Option (List (UInt32 × Bool))

/-- `debug_set_watchpoint_handle`: the block is changed first and then loaded into one thread
after another; a thread that refuses ends the command. -/
def debugSetWatchpointHandle (s : ServerState) (data : Option WatchptPacket) (os : WatchptOs) : Outcome :=
  if s.attached = false then .answer s CMD_ERROR true
  else deref s fun c ctx =>
    if ctx.pid = 0 then .answer s CMD_ERROR true
    else match data with
    | none => .answer s CMD_DATA_NULL true
    | some wp =>
      if h : wp.index.toNat < 4 then
        if os.elev = false then .answer s CMD_ERROR true
        else match os.lwps with
        | none => .answer s CMD_ERROR true
        | some lwps =>
          let dr := ctx.dr.setWatchpoint ⟨wp.index.toNat, h⟩ wp
          let ok := lwps.all (·.2)
          { Outcome.answer (s.setCtx c { ctx with dr := dr }) (if ok then CMD_SUCCESS else CMD_ERROR) !ok with
            effects := (lwps.takeWhile (·.2)).map fun l => .loadDbregs ctx.pid l.1 dr }
      else .answer s CMD_INVALID_INDEX true

/-- `cmd_debug_setreg_packet`; the reading commands have its first word only. -/
structure SetregPacket where
  lwpid : UInt32
  length : UInt32

/-- What a command on an attached process sends and returns on each of its paths. -/
structure QuerySpec where
  /-- return code without a session -/
  guardRc : Bool
  /-- reply and return code without a body, `none` where no body is needed -/
  noBody : Option (UInt32 × Bool)
  /-- the command's own check of the announced length -/
  lengthOk : UInt32 → Bool := fun _ => true
  /-- whether the payload is asked for with a status word -/
  acks : Bool := false
  /-- return code when the kernel refuses -/
  failRc : Bool

/-- The commands that first test `g_debug_attached` and the pid; `ok` is the kernel's answer. -/
def queryHandle (q : QuerySpec) (s : ServerState) (body : Option SetregPacket) (ok : Bool) : Outcome :=
  if s.attached = false then .answer s CMD_ERROR q.guardRc
  else deref s fun _ ctx =>
    if ctx.pid = 0 then .answer s CMD_ERROR q.guardRc
    else match q.noBody, body with
    | some (code, rc), none => .answer s code rc
    | _, body =>
      if (body.all fun b => q.lengthOk b.length) = false then .answer s CMD_ERROR q.failRc
      else
        { server := s, rc := !ok && q.failRc
          replies := (if q.acks then [CMD_SUCCESS] else []) ++ [if ok then CMD_SUCCESS else CMD_ERROR] }

def debugGetThreadListHandle : ServerState → Option SetregPacket → Bool → Outcome :=
  queryHandle { guardRc := true, noBody := none, failRc := true }

def debugGetregsHandle : ServerState → Option SetregPacket → Bool → Outcome :=
  queryHandle { guardRc := false, noBody := some (CMD_DATA_NULL, true), failRc := false }

def debugSetregsHandle : ServerState → Option SetregPacket → Bool → Outcome :=
  queryHandle { guardRc := false, noBody := some (CMD_ERROR, false), acks := true, failRc := false }

def debugGetfpregsHandle : ServerState → Option SetregPacket → Bool → Outcome :=
  queryHandle { guardRc := false, noBody := some (CMD_DATA_NULL, true), failRc := false }

def debugSetfpregsHandle : ServerState → Option SetregPacket → Bool → Outcome :=
  queryHandle { guardRc := false, noBody := some (CMD_ERROR, false)
                lengthOk := fun n => decide (n ≤ 0x340), acks := true, failRc := false }

def debugGetdbregsHandle : ServerState → Option SetregPacket → Bool → Outcome :=
  queryHandle { guardRc := false, noBody := some (CMD_DATA_NULL, true), failRc := false }

def debugSetdbregsHandle : ServerState → Option SetregPacket → Bool → Outcome :=
  queryHandle { guardRc := false, noBody := some (CMD_ERROR, false), acks := true, failRc := false }

def debugGetfsgsbaseHandle : ServerState → Option SetregPacket → Bool → Outcome :=
  queryHandle { guardRc := false, noBody := some (CMD_DATA_NULL, true), failRc := false }

def debugSetfsgsbaseHandle : ServerState → Option SetregPacket → Bool → Outcome :=
  queryHandle { guardRc := false, noBody := some (CMD_ERROR, false)
                lengthOk := fun n => n == 0x10, acks := true, failRc := false }

def debugThreadInfoHandle : ServerState → Option SetregPacket → Bool → Outcome :=
  queryHandle { guardRc := true, noBody := some (CMD_DATA_NULL, true), failRc := true }

def debugStepHandle : ServerState → Option SetregPacket → Bool → Outcome :=
  queryHandle { guardRc := true, noBody := none, failRc := true }

def debugStepThreadHandle : ServerState → Option SetregPacket → Bool → Outcome :=
  queryHandle { guardRc := true, noBody := none, failRc := true }

/-- The three commands that read the pid without testing `g_debug_attached` before. -/
def bareHandle (s : ServerState) (hasBody ok : Bool) : Outcome :=
  deref s fun _ ctx =>
    if ctx.pid = 0 then .answer s CMD_ERROR true
    else if hasBody = false then .answer s CMD_DATA_NULL true
    else .answer s (if ok then CMD_SUCCESS else CMD_ERROR) false

def debugSuspendThreadHandle (s : ServerState) (hasBody ok : Bool) : Outcome := bareHandle s hasBody ok

def debugResumeThreadHandle (s : ServerState) (hasBody ok : Bool) : Outcome := bareHandle s hasBody ok

/-- `debug_stopgo_handle` cannot fail. -/
def debugContinueHandle (s : ServerState) (hasBody : Bool) : Outcome := bareHandle s hasBody true

/-! ## The event pump -/

/-- A stopped thread as the pump sees it: the trap code of `PT_LWPINFO`, the instruction pointer
of `kern_get_rip_fast`, and the one in the full register set. -/
structure Trap where
  code : UInt32
  fastRip : Option UInt64
  rip : Option UInt64

/-- What `wait4` reports: a signal, and the thread unless `PT_LWPINFO` fails. -/
structure Stop where
  sig : UInt8
  trap : Option Trap

/-- What the system tells the event pump: whether the alive check is due and finds nothing, what
has stopped, and the answers to a teardown. -/
structure PumpOs where
  dead : Bool
  stop : Option Stop
  teardown : TeardownOs

/-- The two early exits on an armed address: a finished single step that lands behind one, a
breakpoint trap that stands on one. -/
def BpTable.absorbs (bps : BpTable) (t : Trap) : Bool :=
  match t.fastRip with
  | none => false
  | some rip => (t.code == 2 && (bps.matched (rip - 1)).isSome) || (t.code == 1 && (bps.matched rip).isSome)

/-- The rest of `dispatch_debug_events` once the signal is known to be neither 17 nor 9. -/
def dispatchTrap (s : ServerState) (c : ClientId) (t : Trap) : Outcome :=
  let ctx := (s.clients c).dbgctx
  if ctx.bps.absorbs t then { server := s }
  else match t.rip with
  | none => { server := s, rc := true }
  | some rip =>
    match ctx.bps.matched (rip - 1) with
    | none => { server := s }
    | some i =>
      if t.code = 2 then { server := s }
      else
        { server := s.writeAll ctx.pid (ctx.bps.hitWrites i)
          effects := writeEffects (s.mem ctx.pid) ctx.pid (ctx.bps.hitWrites i) }

/-- `dispatch_debug_events`. After a kill the pump tears the session down and then asks the
context for its pid once more. -/
def dispatchDebugEvents (s : ServerState) (os : PumpOs) : Outcome :=
  deref s fun c _ =>
    if os.dead then { server := s, rc := true }
    else match os.stop with
    | none => { server := s }
    | some st =>
      if st.sig = 17 then { server := s }
      else if st.sig = 9 then
        let t := debugFullTeardown s (some c) os.teardown
        let o := deref t.1 fun _ _ => { server := t.1 }
        { o with effects := t.2 }
      else match st.trap with
      | none => { server := s, rc := true }
      | some t => dispatchTrap s c t

/-! ## Dispatch -/

/-- A packet of the debug namespace with the answers it gets from the system. -/
inductive DebugPacket where
  | processStop (data : Option (UInt32 × UInt8))
  | attach (data : Option UInt32) (os : AttachOs)
  | detach (os : TeardownOs)
  | setBreakpoint (data : Option BreakptPacket)
  | setWatchpoint (data : Option WatchptPacket) (os : WatchptOs)
  | getThreadList (body : Option SetregPacket) (ok : Bool)
  | suspendThread (hasBody ok : Bool)
  | resumeThread (hasBody ok : Bool)
  | getregs (body : Option SetregPacket) (ok : Bool)
  | setregs (body : Option SetregPacket) (ok : Bool)
  | getfpregs (body : Option SetregPacket) (ok : Bool)
  | setfpregs (body : Option SetregPacket) (ok : Bool)
  | getdbregs (body : Option SetregPacket) (ok : Bool)
  | setdbregs (body : Option SetregPacket) (ok : Bool)
  | getfsgsbase (body : Option SetregPacket) (ok : Bool)
  | setfsgsbase (body : Option SetregPacket) (ok : Bool)
  | continueTarget (hasBody : Bool)
  | threadInfo (body : Option SetregPacket) (ok : Bool)
  | step (body : Option SetregPacket) (ok : Bool)
  | stepThread (body : Option SetregPacket) (ok : Bool)
  | unknown

/-- `debug_handle`. -/
def debugHandle (s : ServerState) : DebugPacket → Outcome
  | .processStop data => debugProcessStopHandle s data
  | .attach data os => debugAttachHandle s data os
  | .detach os => debugDetachHandle s os
  | .setBreakpoint data => debugSetBreakpointHandle s data
  | .setWatchpoint data os => debugSetWatchpointHandle s data os
  | .getThreadList body ok => debugGetThreadListHandle s body ok
  | .suspendThread hasBody ok => debugSuspendThreadHandle s hasBody ok
  | .resumeThread hasBody ok => debugResumeThreadHandle s hasBody ok
  | .getregs body ok => debugGetregsHandle s body ok
  | .setregs body ok => debugSetregsHandle s body ok
  | .getfpregs body ok => debugGetfpregsHandle s body ok
  | .setfpregs body ok => debugSetfpregsHandle s body ok
  | .getdbregs body ok => debugGetdbregsHandle s body ok
  | .setdbregs body ok => debugSetdbregsHandle s body ok
  | .getfsgsbase body ok => debugGetfsgsbaseHandle s body ok
  | .setfsgsbase body ok => debugSetfsgsbaseHandle s body ok
  | .continueTarget hasBody => debugContinueHandle s hasBody
  | .threadInfo body ok => debugThreadInfoHandle s body ok
  | .step body ok => debugStepHandle s body ok
  | .stepThread body ok => debugStepThreadHandle s body ok
  | .unknown => .answer s CMD_ERROR false

/-! ## Connections -/

/-- `start_server` on an accepted connection: `alloc_client` takes the first slot that is not in
use, and the slot starts with a cleared context. -/
def acceptClient (s : ServerState) (addr : UInt32) : ServerState :=
  match (List.finRange 12).find? fun i => (s.clients i).active = false with
  | none => s
  | some i => s.setClient i ⟨true, false, addr, .zero⟩

/-- `free_client`. -/
def freeClient (s : ServerState) (c : ClientId) (os : TeardownOs) : ServerState × List Effect :=
  let s₁ := s.setClient c { s.clients c with active := false }
  let t := if (s.clients c).debugging then debugFullTeardown s₁ (some c) os else (s₁, [])
  (t.1.setClient c .zero, t.2)

/-- The latch of `handle_client`: an ATTACH that finds nobody attached makes its sender the
debugging client, before the handler runs and outside its lock. -/
def attachLatch (s : ServerState) (c : ClientId) : ServerState :=
  if s.attached = false then { s with curdbgcli := some c, curdbgctx := some c } else s

/-- The rest of `handle_client` after a handler or the event pump: a non-zero return ends the
connection. -/
def Outcome.closing (o : Outcome) (c : ClientId) (os : TeardownOs) : Outcome :=
  if o.rc = true ∧ o.server.crashed = false then
    let f := freeClient o.server c os
    { o with server := f.1, effects := o.effects ++ f.2 }
  else o

end Ps5Debugger

import Ps5Debugger.DebugRegisters
import Ps5Debugger.HandleClient
import Ps5Debugger.Xrefs
import Ps5Debugger.Lib.Dialogue

/-!
# The server's side of a request

One pass of `handle_client` (`main.c`) with the handler it dispatches to, as a program that talks to the
client: what it receives, what it sends, in order. What the handlers ask of the system is answered by
`ServerOs`.

The debug commands that answer with a status word alone are those of `Debug`, sent as they are.
-/

namespace Ps5Debugger

open Lib

namespace Rpc

/-! ## Words on the wire -/

/-- The `uint32_t` at an offset of a packet. -/
def word32 (p : List Byte) (off : Nat) : UInt32 := UInt32.ofNat (leNat 4 (p.drop off))

/-- The `uint64_t` at an offset of a packet. -/
def word64 (p : List Byte) (off : Nat) : UInt64 := UInt64.ofNat (leNat 8 (p.drop off))

/-- The bytes of a packed struct of `n` bytes. -/
abbrev Packed (n : Nat) : Type := { bs : List Byte // bs.length = n }

/-- The fields of a record are never all ones: an instruction has at most 15 bytes. -/
def entryBytes (e : DisasmInstrEntry) : List Byte :=
  leBytes 8 e.addr ++ (leBytes 8 e.rip_rel_target ++ (leBytes 8 e.mem_disp.toNat ++ (leBytes 1 e.length ++
    (leBytes 1 e.kind.toNat ++ leBytes 1 e.mem_base_reg ++ leBytes 1 e.mem_index_reg ++
      leBytes 1 e.mem_scale.toNat ++ leBytes 2 e.mnemonic.toNat ++ [0] ++
      (e.text.take 127 ++ List.replicate 128 0).take 128))))

/-! ## What a handler leaves -/

/-- What a handler does with what it received. -/
inductive Seen : Type where
  /-- `proc_write_mem(pid, address, …, data)` -/
  | memory (address : Nat) (data : List Byte)
  /-- the text of `sceKernelSendNotificationRequest` -/
  | notification (data : List Byte)
  /-- the front of the `buf` of a register command -/
  | registers (k : RegSet) (data : List Byte)
  /-- the file of an ELF command -/
  | elf (data : List Byte)
  deriving DecidableEq

/-- How a handler ends. -/
inductive Handled : Type where
  | returned (rc : Int) (seen : List Seen)
  /-- in a loop without end -/
  | hung
  /-- by a fault -/
  | killed

def Handled.seen : Handled → List Seen
  | returned _ seen => seen
  | hung | killed => []

/-! ## What the system answers -/

/-- The answers to one request. -/
structure ServerOs where
  /-- `malloc(packet.datalen)` -/
  bodyAlloc : Bool
  /-- what the heap holds behind the body -/
  pastBody : Buf
  /-- the `malloc` of `net_alloc_buffer` -/
  malloc : UInt32 → Bool
  /-- the processes on the list, if its head can be read -/
  procs : Option Nat
  procEntry : Nat → Packed 36
  /-- `proc_read_mem`, what the cleared buffer holds then -/
  readMem : UInt32 → Nat → Nat → Buf
  /-- `proc_write_mem_status` is 0 -/
  writes : UInt32 → Nat → List Byte → Bool
  /-- `sys_proc_vm_map`, once it succeeds: the count and the entries -/
  vmMap : Option (Int32 × Option Buf)
  /-- `proc_ptwalk_augment`, if it has any entries -/
  augmented : Option (Int32 × Buf)
  /-- `proc_get_field_offsets` -/
  fieldOffsets : Bool
  /-- `cmd_proc_info_response`, if the process is found -/
  procInfo : UInt32 → Option (Packed 188)
  /-- `cmd_console_foreground_app_response`, if the head of the list can be read -/
  foreground : Option (Packed 140)
  /-- `SYS_PROC_ALLOC`, with the address -/
  sysAlloc : Option UInt64
  /-- `SYS_PROC_ALLOC_HINTED`: whether it succeeds, and `args.address` then -/
  sysAllocHinted : Bool × UInt64
  /-- `SYS_PROC_PROTECT` -/
  sysProtect : Bool
  /-- `SYS_PROC_ELF_RPC`, with the entry -/
  sysElf : List Byte → Option UInt64
  /-- the list of the symbols -/
  symbols : List Byte → Option { json : List Byte // json.length < 2 ^ 32 }
  /-- `KERNEL_ADDRESS_DATA_BASE` -/
  kernBase : UInt64
  zydis : Zydis
  /-- the chunk of `disasm_iterate`, and the reads into it -/
  chunkIo : ChunkIo
  chunkAlloc : Bool
  xrefs : XrefsOs
  /-- the session, as it is when the handler is called -/
  state : ServerState
  lives : state.crashed = false
  attach : AttachOs
  teardown : TeardownOs
  watchpt : WatchptOs
  /-- the last request to the kernel goes through -/
  kernel : Bool
  /-- what a register command reads -/
  blob : (k : RegSet) → Blob k
  /-- `PT_GETNUMLWPS`, at the second try where the first says that the target runs -/
  lwpCount : Option Int32
  /-- `PT_GETLWPLIST` -/
  lwpList : Bool
  lwpids : Buf
  /-- the commands of other modules -/
  other : UInt32 → Option (List Byte) → Proc Handled

/-- A system that grants what it is asked for, without a process to show or a session. -/
def idleOs : ServerOs where
  bodyAlloc := true
  pastBody := fun _ => 0
  malloc := fun _ => true
  procs := some 0
  procEntry := fun _ => ⟨List.replicate 36 0, List.length_replicate⟩
  readMem := fun _ _ _ _ => 0
  writes := fun _ _ _ => true
  vmMap := none
  augmented := none
  fieldOffsets := true
  procInfo := fun _ => none
  foreground := none
  sysAlloc := some 0x200000000
  sysAllocHinted := (true, 0x200000000)
  sysProtect := true
  sysElf := fun _ => some 0x200000000
  symbols := fun _ => none
  kernBase := 0
  zydis := ⟨fun _ => none, fun _ _ => []⟩
  chunkIo := .ofMemory (fun _ => 0) fun _ => 0
  chunkAlloc := true
  xrefs := mappedOs
  state := ServerState.init fun _ _ => none
  lives := rfl
  attach := ⟨true, true, true, true, 5, true⟩
  teardown := ⟨true, []⟩
  watchpt := ⟨true, some []⟩
  kernel := true
  blob := Blob.zero
  lwpCount := some 0
  lwpList := true
  lwpids := fun _ => 0
  other := fun _ _ => .ret (.returned 1 [])

/-! ## Pieces of handlers -/

/-- `net_send_int32(fd, status); return rc;` -/
def reply (status : UInt32) (rc : Int) : Proc Handled := .send (statusBytes status) (.ret (.returned rc []))

/-- `net_alloc_buffer(size)`, and what is done when it returns null. -/
def withBuffer (os : ServerOs) (size : UInt32) (null k : Proc Handled) : Proc Handled :=
  if size = 0 ∨ os.malloc size = false then null else if allocEnds size then k else .ret .hung

/-- `(int)length` of `net_recv_all` and `net_send_all`, which do nothing for a negative one. -/
def intLen (length : UInt32) : Nat := length.toInt32.toInt.toNat

/-- The status words of a debug command. -/
def answering (o : Outcome) : Proc Handled :=
  if o.server.crashed then .ret .killed
  else .sendAll (o.replies.map statusBytes) (.ret (.returned (if o.rc then 1 else 0) []))

/-- `if (!g_debug_attached) …; int pid = DBGCTX()->pid; if (pid == 0) …` -/
def withSession (s : ServerState) (k : Proc Handled) (rc : Int) : Proc Handled :=
  if s.attached = false then reply CMD_ERROR rc
  else match s.curdbgctx with
  | none => .ret .killed
  | some c => if (s.clients c).dbgctx.pid = 0 then reply CMD_ERROR rc else k

/-- A session with a process. -/
def HasSession (s : ServerState) : Prop :=
  s.attached = true ∧ ∃ c, s.curdbgctx = some c ∧ (s.clients c).dbgctx.pid ≠ 0

/-! ## The process commands -/

/-- `proc_list_handle` -/
def procListHandle (os : ServerOs) : Proc Handled :=
  match os.procs with
  | none => reply CMD_DATA_NULL 1
  | some procs =>
    let count := min procs 0x1000
    if count = 0 then reply CMD_DATA_NULL 1
    else withBuffer os (UInt32.ofNat (count * 36)) (reply CMD_DATA_NULL 1) <|
      .send (statusBytes CMD_SUCCESS) <|
      .send (leBytes 4 count) <|
      .send ((List.range count).flatMap fun i => (os.procEntry i).val) <|
      .ret (.returned 0 [])

/-- The loop of `proc_read_handle`. -/
def readBlocks (os : ServerOs) (pid : UInt32) (address length : Nat) : List (List Byte) :=
  if _h : length > 0x10000 then
    slice (os.readMem pid address 0x10000) 0 0x10000 :: readBlocks os pid (u64 (address + 0x10000)) (length - 0x10000)
  else if length > 0 then [slice (os.readMem pid address length) 0 length]
  else []
termination_by length

/-- `proc_read_handle` -/
def procReadHandle (os : ServerOs) (data : Option (List Byte)) : Proc Handled :=
  match data with
  | none => reply CMD_DATA_NULL 1
  | some rp =>
    withBuffer os 0x10000 (reply CMD_DATA_NULL 1) <|
      .send (statusBytes CMD_SUCCESS) <|
      .sendAll (readBlocks os (word32 rp 0) (word64 rp 4).toNat (word32 rp 12).toNat) <|
      .ret (.returned 0 [])

/-- The loop of `proc_write_handle`; `k` is given what was written. -/
def writeBlocks (address length : Nat) (k : List Seen → Proc Handled) : Proc Handled :=
  if _h : length > 0x10000 then
    .recv 0x10000 fun data =>
      writeBlocks (u64 (address + 0x10000)) (length - 0x10000) fun seen => k (.memory address data :: seen)
  else if length > 0 then .recv length fun data => k [.memory address data]
  else k []
termination_by length

/-- `proc_write_handle` -/
def procWriteHandle (os : ServerOs) (data : Option (List Byte)) : Proc Handled :=
  match data with
  | none => reply CMD_DATA_NULL 1
  | some wp =>
    withBuffer os 0x10000 (reply CMD_DATA_NULL 1) <|
      .send (statusBytes CMD_SUCCESS) <|
      writeBlocks (word64 wp 4).toNat (word32 wp 12).toNat fun seen =>
      .send (statusBytes CMD_SUCCESS) <|
      .ret (.returned 0 seen)

def PROC_WRITE_MULTI_MAX_COUNT : Nat := 0xFFFF
def PROC_WRITE_MULTI_MAX_ENTRY : Nat := 0x100000

/-- The inner loop of `proc_write_multi_handle`; `k` is given whether a block failed, and what was written. -/
def multiBlocks (os : ServerOs) (pid : UInt32) (a length : Nat) (failed : Bool)
    (k : Bool → List Seen → Proc Handled) : Proc Handled :=
  if _h : length > 0 then
    let toRecv := if length > 0x10000 then 0x10000 else length
    .recv toRecv fun buf =>
      multiBlocks os pid (u64 (a + toRecv)) (length - toRecv) (failed || !os.writes pid a buf) fun failed seen =>
        k failed (.memory a buf :: seen)
  else k failed []
termination_by length
decreasing_by
  split <;> omega

/-- The loop over the entries; `k` is given the status bytes, and what was written. -/
def multiEntries (os : ServerOs) (pid : UInt32) : Nat → (List Byte → List Seen → Proc Handled) → Proc Handled
  | 0, k => k [] []
  | n + 1, k =>
    .recv 12 fun hdr =>
      let addr := leNat 8 hdr
      let len32 := leNat 4 (hdr.drop 8)
      if len32 > PROC_WRITE_MULTI_MAX_ENTRY then reply CMD_ERROR 1
      else
        multiBlocks os pid addr len32 false fun failed seen =>
          multiEntries os pid n fun status seen' => k ((if failed then 1 else 0) :: status) (seen ++ seen')

/-- `proc_write_multi_handle` -/
def procWriteMultiHandle (os : ServerOs) (data : Option (List Byte)) : Proc Handled :=
  match data with
  | none => reply CMD_DATA_NULL 1
  | some mp =>
    let pid := word32 mp 0
    let count := (word32 mp 4).toNat
    let wantStatus := word32 mp 8 &&& 1 ≠ 0
    if count > PROC_WRITE_MULTI_MAX_COUNT then reply CMD_ERROR 1
    else
      let serve := .send (statusBytes CMD_SUCCESS) <|
        multiEntries os pid count fun status seen =>
        .sendAll (if wantStatus then [status] else []) <|
        .send (statusBytes CMD_SUCCESS) <|
        .ret (.returned 0 seen)
      withBuffer os 0x10000 (reply CMD_DATA_NULL 1) <|
        if wantStatus ∧ count > 0 then withBuffer os (word32 mp 4) (reply CMD_DATA_NULL 1) serve else serve

/-- `proc_maps_handle`, with `sizeof(struct proc_vm_map_entry)`. -/
def procMapsHandle (os : ServerOs) (data : Option (List Byte)) : Proc Handled :=
  match data, os.vmMap with
  | none, _ | some _, none => reply CMD_ERROR 1
  | some _, some (count, maps) =>
    if count = 0 then reply CMD_ERROR 1
    else match maps with
    | none => reply CMD_DATA_NULL 1
    | some maps =>
      let (count, maps) := os.augmented.getD (count, maps)
      .send (statusBytes CMD_SUCCESS) <|
      .send (leBytes 4 count.toUInt32.toNat) <|
      .send (slice maps 0 (count * 58).toInt.toNat) <|
      .ret (.returned 0 [])

/-- `proc_info_handle` -/
def procInfoHandle (os : ServerOs) (data : Option (List Byte)) : Proc Handled :=
  match data with
  | none => reply CMD_DATA_NULL 1
  | some ip =>
    if (word32 ip 0).toInt32 ≤ 0 then reply CMD_DATA_NULL 1
    else if os.fieldOffsets = false then reply CMD_DATA_NULL 1
    else match os.procInfo (word32 ip 0) with
    | none => reply CMD_DATA_NULL 1
    | some resp => .send (statusBytes CMD_SUCCESS) (.send resp.val (.ret (.returned 0 [])))

/-- `proc_alloc_handle` -/
def procAllocHandle (os : ServerOs) (data : Option (List Byte)) : Proc Handled :=
  match data, os.sysAlloc with
  | none, _ => reply CMD_DATA_NULL 0
  | some _, none => reply CMD_ERROR 0
  | some _, some address =>
    .send (statusBytes CMD_SUCCESS) (.send (leBytes 8 address.toNat) (.ret (.returned 0 [])))

/-- `proc_alloc_hinted_handle` -/
def procAllocHintedHandle (os : ServerOs) (data : Option (List Byte)) : Proc Handled :=
  match data with
  | none => reply CMD_DATA_NULL 0
  | some _ =>
    .send (statusBytes (if os.sysAllocHinted.1 then CMD_SUCCESS else CMD_ERROR))
      (.send (leBytes 8 os.sysAllocHinted.2.toNat) (.ret (.returned 0 [])))

/-- `proc_free_handle` -/
def procFreeHandle (data : Option (List Byte)) : Proc Handled :=
  reply (if data.isSome then CMD_SUCCESS else CMD_DATA_NULL) 0

/-- `proc_protect_handle` -/
def procProtectHandle (os : ServerOs) (data : Option (List Byte)) : Proc Handled :=
  match data with
  | none => reply CMD_DATA_NULL 0
  | some _ => reply (if os.sysProtect then CMD_SUCCESS else CMD_ERROR) 0

/-- The reply of DISASM_REGION on the wire. -/
def disasmReplyBytes (r : DisasmReply) : List (List Byte) :=
  r.replies.map statusBytes ++ r.entries.map entryBytes ++
    if r.sentinel then [List.replicate DISASM_INSTR_ENTRY_SIZE 0xFF] else []

/-- `proc_disasm_region_handle` -/
def disasmRegionHandle (os : ServerOs) (data : Option (List Byte)) : Proc Handled :=
  match procDisasmRegionHandle os.zydis os.chunkIo (data.map fun dp => ⟨word64 dp 4, word32 dp 12, word32 dp 16⟩)
      (os.malloc 0x10000) os.chunkAlloc with
  | none => .ret .killed
  | some r => .sendAll (disasmReplyBytes r) (.ret (.returned (if r.sentinel then 0 else 1) []))

/-- `proc_find_xrefs_to_handle`: a fault in its callback comes after the first status word. -/
def findXrefsToHandle (os : ServerOs) (data : Option (List Byte)) : Proc Handled :=
  match procFindXrefsToHandle os.zydis os.chunkIo (data.map fun xp => ⟨word64 xp 4, word32 xp 12, word64 xp 16⟩)
      os.chunkAlloc os.xrefs with
  | none => .send (statusBytes CMD_SUCCESS) (.ret .killed)
  | some r =>
    .sendAll (r.replies.map statusBytes ++ (r.stream os.xrefs.fd).map (leBytes 8))
      (.ret (.returned (if r.sent = [] then 1 else 0) []))

/-- `proc_elf_rpc_handle` -/
def procElfRpcHandle (os : ServerOs) (data : Option (List Byte)) : Proc Handled :=
  match data with
  | none => reply CMD_ERROR 1
  | some ep =>
    withBuffer os (word32 ep 4) (reply CMD_DATA_NULL 1) <|
      .send (statusBytes CMD_SUCCESS) <|
      .recv (intLen (word32 ep 4)) fun elf =>
      match os.sysElf elf with
      | none => .send (statusBytes CMD_ERROR) (.ret (.returned 1 [.elf elf]))
      | some entry =>
        let json := (os.symbols elf).elim [] Subtype.val
        let len32 := UInt32.ofNat json.length
        .send (statusBytes CMD_SUCCESS) <|
        .send (leBytes 8 entry.toNat) <|
        .send (leBytes 4 len32.toNat) <|
        .send (json.take (intLen len32)) <|
        .ret (.returned 0 [.elf elf])

/-! ## The debug commands with a payload -/

/-- A command that reads registers. -/
def regReadHandle (k : RegSet) (os : ServerOs) (data : Option (List Byte)) : Proc Handled :=
  withSession os.state (match data with
    | none => reply CMD_DATA_NULL 1
    | some _ =>
      if os.kernel then .send (statusBytes CMD_SUCCESS) (.send (os.blob k).bytes (.ret (.returned 0 [])))
      else reply CMD_ERROR 0) 0

def debugGetregsHandle : ServerOs → Option (List Byte) → Proc Handled := regReadHandle .regs
def debugGetfpregsHandle : ServerOs → Option (List Byte) → Proc Handled := regReadHandle .fpregs
def debugGetdbregsHandle : ServerOs → Option (List Byte) → Proc Handled := regReadHandle .dbregs
def debugGetfsgsbaseHandle : ServerOs → Option (List Byte) → Proc Handled := regReadHandle .fsgsbase

/-- A command that writes registers; `lengthOk` is its own test of the announced length. -/
def regWriteHandle (k : RegSet) (lengthOk : UInt32 → Bool) (os : ServerOs) (data : Option (List Byte)) :
    Proc Handled :=
  withSession os.state (match data with
    | none => reply CMD_ERROR 0
    | some sp =>
      if lengthOk (word32 sp 4) = false then reply CMD_ERROR 0
      else .send (statusBytes CMD_SUCCESS) <|
        .recv (intLen (word32 sp 4)) fun buf =>
        .send (statusBytes (if os.kernel then CMD_SUCCESS else CMD_ERROR)) <|
        .ret (.returned 0 [.registers k buf])) 0

def debugSetregsHandle : ServerOs → Option (List Byte) → Proc Handled := regWriteHandle .regs fun _ => true

def debugSetfpregsHandle : ServerOs → Option (List Byte) → Proc Handled :=
  regWriteHandle .fpregs fun length => decide (length ≤ 0x340)

def debugSetdbregsHandle : ServerOs → Option (List Byte) → Proc Handled := regWriteHandle .dbregs fun _ => true

def debugSetfsgsbaseHandle : ServerOs → Option (List Byte) → Proc Handled :=
  regWriteHandle .fsgsbase fun length => length == 0x10

/-- `debug_get_thread_list_handle` -/
def debugGetThreadListHandle (os : ServerOs) : Proc Handled :=
  withSession os.state (match os.lwpCount with
    | none => reply CMD_ERROR 1
    | some count =>
      let size := count * 4
      withBuffer os size.toUInt32 (reply CMD_ERROR 1) <|
        if os.lwpList = false then reply CMD_ERROR 1
        else
          .send (statusBytes CMD_SUCCESS) <|
          .send (leBytes 4 count.toUInt32.toNat) <|
          .send (slice os.lwpids 0 size.toInt.toNat) <|
          .ret (.returned 0 [])) 1

/-! ## The other commands -/

/-- `kern_base_handle` -/
def kernBaseHandle (os : ServerOs) : Proc Handled :=
  .send (statusBytes CMD_SUCCESS) (.send (leBytes 8 os.kernBase.toNat) (.ret (.returned 0 [])))

/-- `console_foreground_app_handle`; without the offsets of the fields the response is empty. -/
def consoleForegroundAppHandle (os : ServerOs) : Proc Handled :=
  if os.fieldOffsets = false then
    .send (statusBytes CMD_SUCCESS) (.send (List.replicate 140 0) (.ret (.returned 0 [])))
  else match os.foreground with
  | none => reply CMD_DATA_NULL 1
  | some resp => .send (statusBytes CMD_SUCCESS) (.send resp.val (.ret (.returned 0 [])))

/-- `np->length`: of a body that is too short, what lies behind it. -/
def notifyLength (os : ServerOs) (np : List Byte) : UInt32 := word32 (np ++ slice os.pastBody 0 8) 4

/-- `console_notify_handle` -/
def consoleNotifyHandle (os : ServerOs) (data : Option (List Byte)) : Proc Handled :=
  match data with
  | none => reply CMD_DATA_NULL 1
  | some np =>
    withBuffer os (notifyLength os np) (reply CMD_DATA_NULL 1) <|
      .recv (intLen (notifyLength os np)) fun text =>
      .send (statusBytes CMD_SUCCESS) <|
      .ret (.returned 0 [.notification text])

/-! ## Dispatch -/

/-- `proc_handle` -/
def procHandle (os : ServerOs) (cmd : UInt32) (data : Option (List Byte)) : Proc Handled :=
  match cmd with
  | 0xBDAA0001 => procListHandle os
  | 0xBDAA0002 => procReadHandle os data
  | 0xBDAA0003 => procWriteHandle os data
  | 0xBDAACC04 => procWriteMultiHandle os data
  | 0xBDAA0004 => procMapsHandle os data
  | 0xBDAA0008 => procProtectHandle os data
  | 0xBDAA000A => procInfoHandle os data
  | 0xBDAA000B => procAllocHandle os data
  | 0xBDAA000C => procFreeHandle data
  | 0xBDAA000E => procAllocHintedHandle os data
  | 0xBDAA0010 => procElfRpcHandle os data
  | 0xBDAA0020 => disasmRegionHandle os data
  | 0xBDAA0022 => findXrefsToHandle os data
  | _ => os.other cmd data

/-- `debug_handle` -/
def debugHandle (os : ServerOs) (cmd : UInt32) (data : Option (List Byte)) : Proc Handled :=
  let answer (p : DebugPacket) : Proc Handled := answering (Ps5Debugger.debugHandle os.state p)
  match cmd with
  | 0xBDBB0001 => answer (.attach (data.map fun ap => word32 ap 0) os.attach)
  | 0xBDBB0002 => answer (.detach os.teardown)
  | 0xBDBB0003 => answer (.setBreakpoint (data.map fun bp => ⟨word32 bp 0, word32 bp 4, word64 bp 8⟩))
  | 0xBDBB0004 => answer (.setWatchpoint
      (data.map fun wp => ⟨word32 wp 0, word32 wp 4, word32 wp 8, word32 wp 12, word64 wp 16⟩) os.watchpt)
  | 0xBDBB0005 => debugGetThreadListHandle os
  | 0xBDBB0006 => answer (.suspendThread data.isSome os.kernel)
  | 0xBDBB0007 => answer (.resumeThread data.isSome os.kernel)
  | 0xBDBB0008 => debugGetregsHandle os data
  | 0xBDBB0009 => debugSetregsHandle os data
  | 0xBDBB000A => debugGetfpregsHandle os data
  | 0xBDBB000B => debugSetfpregsHandle os data
  | 0xBDBB000C => debugGetdbregsHandle os data
  | 0xBDBB000D => debugSetdbregsHandle os data
  | 0xBDBB000E => debugGetfsgsbaseHandle os data
  | 0xBDBB000F => debugSetfsgsbaseHandle os data
  | 0xBDBB0012 => answer (.step none os.kernel)
  | 0xBDBB0013 => answer (.stepThread (data.map fun gp => ⟨word32 gp 0, 0⟩) os.kernel)
  | _ => os.other cmd data

/-- `kern_handle` -/
def kernHandle (os : ServerOs) (cmd : UInt32) (data : Option (List Byte)) : Proc Handled :=
  match cmd with
  | 0xBDCC0001 => kernBaseHandle os
  | 0xBDCC0002 | 0xBDCC0003 => os.other cmd data
  | _ => .ret (.returned 1 [])

/-- `console_handle`: an unknown command ends the connection without a reply. -/
def consoleHandle (os : ServerOs) (cmd : UInt32) (data : Option (List Byte)) : Proc Handled :=
  match cmd with
  | 0xBDDD0001 | 0xBDDD0002 | 0xBDDD0003 | 0xBDDD0005 => os.other cmd data
  | 0xBDDD0004 => consoleNotifyHandle os data
  | 0xBDDD0006 => consoleForegroundAppHandle os
  | _ => .ret (.returned 1 [])

/-- The commands that `cmd_handler` answers itself. -/
def metaCommands : List UInt32 := [0xBD000001, 0xBD000500, 0xBD000501, 0xBD000502, 0xBDAACC06]

/-- `cmd_handler` -/
def cmdHandler (os : ServerOs) (cmd : UInt32) (data : Option (List Byte)) : Proc Handled :=
  if cmd >>> (24 : UInt32) ≠ 0xBD then .ret (.returned 1 [])
  else if cmd ∈ metaCommands then os.other cmd data
  else if cmd >>> (16 : UInt32) &&& 0xFF = 0xAA then procHandle os cmd data
  else if cmd >>> (16 : UInt32) &&& 0xFF = 0xBB then debugHandle os cmd data
  else if cmd >>> (16 : UInt32) &&& 0xFF = 0xCC then kernHandle os cmd data
  else if cmd >>> (16 : UInt32) &&& 0xFF = 0xDD then consoleHandle os cmd data
  else .ret (.returned 0 [])

/-- What `handle_client` does about a header. -/
def servePacket (os : ServerOs) (magic cmd : UInt32) (datalen : Nat) : Proc Handled :=
  if magic ≠ PACKET_MAGIC then .ret (.returned 0 [])
  else if datalen ≠ 0 then
    if datalen > maxDatalen then reply CMD_ERROR 0
    else if os.bodyAlloc = false then reply CMD_DATA_NULL 0
    else .recv datalen fun data => cmdHandler os cmd (some data)
  else cmdHandler os cmd none

/-- One pass of `handle_client`. -/
def handleClient (os : ServerOs) : Proc Handled :=
  .recv 12 fun h => servePacket os (word32 h 0) (word32 h 4) (word32 h 8).toNat

end Rpc

end Ps5Debugger

import Ps5Debugger.RpcServer

/-!
# The client's side of a request

The remote calls of `MemoryRpcService`, `ProcessRpcService` and `DebuggerRpcService`, and
`sendNotification`, as programs that talk to the server (`Ps5Connection.kt`).

`disassembleRegion` and `findXrefs` read until a sentinel comes. Their loops are cut off after `fuel`
records, which is told apart from every other end.

What is parsed out of a register blob, and what becomes of the symbols of an ELF file, is left out: it
is parsed after all of it was read.
-/

namespace Ps5Debugger

open Lib

namespace Rpc

/-! ## `Ps5Connection` -/

/-- A `ByteArray`. -/
abbrev ByteArr : Type := { bs : List Byte // bs.length < 2 ^ 31 }

/-- How a call ends. -/
inductive RpcResult (R : Type) : Type where
  | value (v : R)
  /-- `Ps5CommandException`: the connection is kept -/
  | refused
  /-- any other exception: the connection is closed -/
  | thrown
  | cutOff

def writeInt (v : Int32) : List Byte := leBytes 4 v.toUInt32.toNat
def writeLong (v : Int64) : List Byte := leBytes 8 v.toUInt64.toNat

/-- `writeShort` of a value that is an `Int`. -/
def writeShort (v : Int32) : List Byte := leBytes 2 v.toUInt32.toNat

def readInt (bytes : List Byte) : Int32 := (UInt32.ofNat (leNat 4 bytes)).toInt32
def readLong (bytes : List Byte) : Int64 := (UInt64.ofNat (leNat 8 bytes)).toInt64
def readUShort (bytes : List Byte) : Nat := leNat 2 bytes

/-- `readString`, up to the first zero. -/
def readString (length : Nat) (bytes : List Byte) : List Byte := (bytes.take length).takeWhile (· ≠ 0)

section Connection

variable {R : Type}

/-- The header of a packet. -/
def packetHeader (cmd : UInt32) (size : Nat) : List Byte :=
  leBytes 4 PACKET_MAGIC.toNat ++ leBytes 4 cmd.toNat ++ leBytes 4 size

/-- `sendPacket`; a packet that no array holds is not sent, which ends the call with `overflow`. -/
def sendPacketOr (overflow : RpcResult R) (cmd : UInt32) (data : List Byte) (k : Proc (RpcResult R)) :
    Proc (RpcResult R) :=
  if 12 + data.length < 2 ^ 31 then .send (packetHeader cmd data.length ++ data) k else .ret overflow

/-- `sendPacket`, where nothing catches the exception. -/
def sendPacket (cmd : UInt32) (data : List Byte) (k : Proc (RpcResult R)) : Proc (RpcResult R) :=
  sendPacketOr .thrown cmd data k

/-- `readExactly`; there is no array of negative length. -/
def readExactly (length : Int32) (k : List Byte → Proc (RpcResult R)) : Proc (RpcResult R) :=
  if length < 0 then .ret .thrown else .recv length.toInt.toNat k

/-- `receiveStatus` -/
def receiveStatus (k : UInt32 → Proc (RpcResult R)) : Proc (RpcResult R) :=
  .recv 4 fun bytes => k (bitswap32 (UInt32.ofNat (leNat 4 bytes)))

/-- `receiveStatus(inStr) == CMD_SUCCESS` -/
def receiveSuccess : Proc (RpcResult Bool) := receiveStatus fun status => .ret (.value (status == CMD_SUCCESS))

/-- Blocks of `size` bytes up to the first that is a sentinel. -/
def readUntil (size : Nat) (sentinel : List Byte → Bool) :
    Nat → (List (List Byte) → Proc (RpcResult R)) → Proc (RpcResult R)
  | 0, _ => .ret .cutOff
  | fuel + 1, k => .recv size fun block =>
    if sentinel block then k [] else readUntil size sentinel fuel fun blocks => k (block :: blocks)

/-- `count` entries of `size` bytes from a buffer, an exception if it is too short. -/
def parseEntries {α : Type} (size : Nat) (parse : List Byte → α) (count : Int32) (data : List Byte) :
    RpcResult (List α) :=
  if count.toInt.toNat * size ≤ data.length then
    .value ((List.range count.toInt.toNat).map fun i => parse (data.drop (i * size)))
  else .thrown

end Connection

/-! ## `MemoryRpcService` -/

namespace MemoryRpcService

def readMemory (pid : Int32) (address : Int64) (length : Int32) : Proc (RpcResult (List Byte)) :=
  sendPacket 0xBDAA0002 (writeInt pid ++ writeLong address ++ writeInt length) <|
  receiveStatus fun status =>
  if status ≠ CMD_SUCCESS then .ret .refused
  else readExactly length fun data => .ret (.value data)

def writeMemory (pid : Int32) (address : Int64) (data : ByteArr) : Proc (RpcResult Bool) :=
  sendPacket 0xBDAA0003 (writeInt pid ++ writeLong address ++ leBytes 4 data.val.length) <|
  receiveStatus fun status =>
  if status ≠ CMD_SUCCESS then .ret (.value false)
  else .send data.val receiveSuccess

/-- The list of the writes. -/
abbrev Writes : Type := { ws : List (Int64 × ByteArr) // ws.length < 2 ^ 31 }

/-- Address, length and data of a write. -/
def writeEntry (write : Int64 × ByteArr) : List Byte :=
  writeLong write.1 ++ leBytes 4 write.2.val.length ++ write.2.val

def writeMemoryMulti (pid : Int32) (writes : Writes) (withStatusReport : Bool) : Proc (RpcResult Bool) :=
  sendPacket 0xBDAACC04
    (writeInt pid ++ leBytes 4 writes.val.length ++ writeInt (if withStatusReport then 1 else 0)) <|
  receiveStatus fun initialStatus =>
  if initialStatus ≠ CMD_SUCCESS then .ret (.value false)
  else .send (writes.val.flatMap writeEntry) <|
    if withStatusReport then .recv writes.val.length fun _ => receiveSuccess else receiveSuccess

def allocateMemory (pid length : Int32) : Proc (RpcResult Int64) :=
  sendPacket 0xBDAA000B (writeInt pid ++ writeInt length) <|
  receiveStatus fun status =>
  readExactly 8 fun respBytes =>
  if status ≠ CMD_SUCCESS then .ret (.value 0) else .ret (.value (readLong respBytes))

def allocateMemoryHinted (pid : Int32) (hint : Int64) (length : Int32) : Proc (RpcResult Int64) :=
  sendPacket 0xBDAA000E (writeInt pid ++ writeLong hint ++ writeInt length) <|
  receiveStatus fun status =>
  readExactly 8 fun respBytes =>
  if status ≠ CMD_SUCCESS then .ret (.value 0) else .ret (.value (readLong respBytes))

def freeMemory (pid : Int32) (address : Int64) (length : Int32) : Proc (RpcResult Bool) :=
  sendPacket 0xBDAA000C (writeInt pid ++ writeLong address ++ writeInt length) receiveSuccess

def changeProtection (pid : Int32) (address : Int64) (length prot : Int32) : Proc (RpcResult Bool) :=
  sendPacket 0xBDAA0008 (writeInt pid ++ writeLong address ++ writeInt length ++ writeInt prot) receiveSuccess

/-- `Ps5DisasmInstr` -/
structure Ps5DisasmInstr where
  addr : Int64
  ripRelTarget : Int64
  memDisp : Int64
  length : Nat
  kind : Nat
  memBaseReg : Nat
  memIndexReg : Nat
  memScale : Nat
  mnemonic : Nat
  mnemonicLo : Nat

def parseInstr (b : List Byte) : Ps5DisasmInstr where
  addr := readLong b
  ripRelTarget := readLong (b.drop 8)
  memDisp := readLong (b.drop 16)
  length := leNat 1 (b.drop 24)
  kind := leNat 1 (b.drop 25)
  memBaseReg := leNat 1 (b.drop 26)
  memIndexReg := leNat 1 (b.drop 27)
  memScale := leNat 1 (b.drop 28)
  mnemonic := readUShort (b.drop 29)
  mnemonicLo := readUShort (b.drop 29) &&& 0xFF

def disassembleRegion (fuel : Nat) (pid : Int32) (address : Int64) (length maxEntries : Int32) :
    Proc (RpcResult (List Ps5DisasmInstr)) :=
  sendPacket 0xBDAA0020 (writeInt pid ++ writeLong address ++ writeInt length ++ writeInt maxEntries) <|
  receiveStatus fun status =>
  if status ≠ CMD_SUCCESS then .ret .thrown
  else readUntil DISASM_INSTR_ENTRY_SIZE (fun block => block.all (· == 0xFF)) fuel fun blocks =>
    .ret (.value (blocks.map parseInstr))

def findXrefs (fuel : Nat) (pid : Int32) (scanAddress : Int64) (scanLength : Int32) (targetAddress : Int64) :
    Proc (RpcResult (List Int64)) :=
  sendPacket 0xBDAA0022 (writeInt pid ++ writeLong scanAddress ++ writeInt scanLength ++ writeLong targetAddress) <|
  receiveStatus fun status =>
  if status ≠ CMD_SUCCESS then .ret .thrown
  else readUntil 8 (fun block => readLong block == -1) fuel fun blocks => .ret (.value (blocks.map readLong))

def getKernBase : Proc (RpcResult Int64) :=
  sendPacket 0xBDCC0001 [] <|
  receiveStatus fun status =>
  if status ≠ CMD_SUCCESS then .ret (.value 0)
  else readExactly 8 fun bytes => .ret (.value (readLong bytes))

end MemoryRpcService

/-! ## `ProcessRpcService` -/

namespace ProcessRpcService

structure Ps5Process where
  name : List Byte
  pid : Int32

def getProcesses : Proc (RpcResult (List Ps5Process)) :=
  sendPacket 0xBDAA0001 [] <|
  receiveStatus fun status =>
  if status ≠ CMD_SUCCESS then .ret (.value [])
  else readExactly 4 fun countBytes =>
    readExactly (readInt countBytes * 36) fun data =>
    .ret (parseEntries 36 (fun b => ⟨readString 32 b, readInt (b.drop 32)⟩) (readInt countBytes) data)

structure Ps5VmMapEntry where
  name : List Byte
  start : Int64
  stop : Int64
  offset : Int64
  prot : Nat

def parseMapEntry (b : List Byte) : Ps5VmMapEntry :=
  ⟨readString 32 b, readLong (b.drop 32), readLong (b.drop 40), readLong (b.drop 48), readUShort (b.drop 56)⟩

def getMaps (pid : Int32) : Proc (RpcResult (List Ps5VmMapEntry)) :=
  sendPacket 0xBDAA0004 (writeInt pid) <|
  receiveStatus fun status =>
  if status ≠ CMD_SUCCESS then .ret (.value [])
  else readExactly 4 fun countBytes =>
    readExactly (readInt countBytes * 58) fun data =>
    .ret (parseEntries 58 parseMapEntry (readInt countBytes) data)

structure Ps5ProcessInfo where
  pid : Int32
  name : List Byte
  path : List Byte
  titleId : List Byte
  contentId : List Byte

def getProcessInfo (pid : Int32) : Proc (RpcResult Ps5ProcessInfo) :=
  sendPacket 0xBDAA000A (writeInt pid) <|
  receiveStatus fun status =>
  if status ≠ CMD_SUCCESS then .ret .thrown
  else readExactly 188 fun b => .ret <| .value
    ⟨readInt b, readString 40 (b.drop 4), readString 64 (b.drop 44), readString 16 (b.drop 108),
      readString 64 (b.drop 124)⟩

structure Ps5ForegroundApp where
  pid : Int32
  titleId : List Byte
  contentId : List Byte
  name : List Byte
  appVer : List Byte

def getForegroundApp : Proc (RpcResult Ps5ForegroundApp) :=
  sendPacket 0xBDDD0006 [] <|
  receiveStatus fun status =>
  if status ≠ CMD_SUCCESS then .ret .thrown
  else readExactly 140 fun b => .ret <| .value
    ⟨readInt b, readString 16 (b.drop 4), readString 64 (b.drop 20), readString 40 (b.drop 84),
      readString 16 (b.drop 124)⟩

/-- `pullFile`; `unsupported` is whether an earlier call has marked the command. Every exception is
answered with null. -/
def pullFile (unsupported : Bool) (path : ByteArr) : Proc (RpcResult (Option (List Byte))) :=
  if unsupported then .ret (.value none)
  else
    sendPacketOr (.value none) 0xBDDD0007 (path.val ++ [0]) <|
    receiveStatus fun status =>
    if status ≠ CMD_SUCCESS then .ret (.value none)
    else readExactly 8 fun sizeBytes =>
      let size := readLong sizeBytes
      if size < 0 ∨ size > 20 * 1024 * 1024 then .ret (.value none)
      else if size = 0 then .ret (.value (some []))
      else readExactly size.toInt32 fun data => .ret (.value (some data))

/-- `MAX_JSON` -/
def MAX_JSON : Int32 := 5 * 1024 * 1024

/-- `uploadElfRpc`; an exception about the symbols is ignored. -/
def uploadElfRpc (pid : Int32) (elfBytes : ByteArr) : Proc (RpcResult (Option Int64)) :=
  sendPacket 0xBDAA0010 (writeInt pid ++ leBytes 4 elfBytes.val.length) <|
  receiveStatus fun ready =>
  if ready ≠ CMD_SUCCESS then .ret (.value none)
  else .send elfBytes.val <|
    receiveStatus fun status =>
    if status ≠ CMD_SUCCESS then .ret (.value none)
    else readExactly 8 fun respBytes =>
      readExactly 4 fun lenBytes =>
      let jsonLen := readInt lenBytes
      if jsonLen > 0 then
        if jsonLen > MAX_JSON then .ret (.value (readLong respBytes))
        else readExactly jsonLen fun _ => .ret (.value (readLong respBytes))
      else .ret (.value (readLong respBytes))

end ProcessRpcService

/-! ## `DebuggerRpcService` -/

/-- `GpRegs` -/
structure GpRegs where
  /-- `r15` to `r8`, `rdi`, `rsi`, `rbp`, `rbx`, `rdx`, `rcx`, `rax` -/
  general : Fin 15 → Int64
  trapno : Int32
  fs : Int32
  gs : Int32
  err : Int32
  es : Int32
  ds : Int32
  /-- `rip`, `cs`, `rflags`, `rsp`, `ss` -/
  frame : Fin 5 → Int64

/-- What `setRegs` writes for them. -/
def GpRegs.bytes (r : GpRegs) : List Byte :=
  (List.ofFn r.general).flatMap writeLong ++ writeInt r.trapno ++ writeShort r.fs ++ writeShort r.gs ++
    writeInt r.err ++ writeShort r.es ++ writeShort r.ds ++ (List.ofFn r.frame).flatMap writeLong

/-- `DbRegs` -/
structure DbRegs where
  dr : Fin 8 → Int64
  reserved : List Int64

/-- What `setDbRegs` writes for them into its buffer of 128 bytes, unless it overruns it. -/
def DbRegs.bytes (r : DbRegs) : Option (List Byte) :=
  if r.reserved.length ≤ 8 then
    some ((List.ofFn r.dr ++ r.reserved ++ List.replicate (8 - r.reserved.length) 0).flatMap writeLong)
  else none

namespace DebuggerRpcService

def attach (pid : Int32) : Proc (RpcResult Bool) :=
  sendPacket 0xBDBB0001 (writeInt pid) <|
  receiveStatus fun status => .ret (.value (status == CMD_SUCCESS || status == CMD_ALREADY_DEBUG))

def detach : Proc (RpcResult Bool) := sendPacket 0xBDBB0002 [] receiveSuccess

def setBreakpoint (index : Int32) (enabled : Bool) (address : Int64) : Proc (RpcResult Bool) :=
  sendPacket 0xBDBB0003 (writeInt index ++ writeInt (if enabled then 1 else 0) ++ writeLong address) receiveSuccess

def setWatchpoint (index : Int32) (enabled : Bool) (length breakType : Int32) (address : Int64) :
    Proc (RpcResult Bool) :=
  sendPacket 0xBDBB0004
    (writeInt index ++ writeInt (if enabled then 1 else 0) ++ writeInt length ++ writeInt breakType ++
      writeLong address) receiveSuccess

def stepProcess : Proc (RpcResult Bool) := sendPacket 0xBDBB0012 [] receiveSuccess

def getThreadList : Proc (RpcResult (List Int32)) :=
  sendPacket 0xBDBB0005 [] <|
  receiveStatus fun status =>
  if status ≠ CMD_SUCCESS then .ret (.value [])
  else readExactly 4 fun numBytes =>
    let num := readInt numBytes
    if num > 0 then readExactly (num * 4) fun listBytes => .ret (parseEntries 4 readInt num listBytes)
    else .ret (.value [])

def suspendThread (lwpid : Int32) : Proc (RpcResult Bool) := sendPacket 0xBDBB0006 (writeInt lwpid) receiveSuccess

def resumeThread (lwpid : Int32) : Proc (RpcResult Bool) := sendPacket 0xBDBB0007 (writeInt lwpid) receiveSuccess

def stepThread (lwpid : Int32) : Proc (RpcResult Bool) := sendPacket 0xBDBB0013 (writeInt lwpid) receiveSuccess

/-- A call that reads the registers of a thread. -/
def readRegs (cmd : UInt32) (size : Int32) (lwpid : Int32) : Proc (RpcResult (List Byte)) :=
  sendPacket cmd (writeInt lwpid) <|
  receiveStatus fun status =>
  if status ≠ CMD_SUCCESS then .ret .thrown
  else readExactly size fun bytes => .ret (.value bytes)

def getRegs : Int32 → Proc (RpcResult (List Byte)) := readRegs 0xBDBB0008 176
def getFpRegs : Int32 → Proc (RpcResult (List Byte)) := readRegs 0xBDBB000A 832
def getDbRegs : Int32 → Proc (RpcResult (List Byte)) := readRegs 0xBDBB000C 128
def getFsGsBase : Int32 → Proc (RpcResult (List Byte)) := readRegs 0xBDBB000E 16

/-- A call that writes the registers of a thread. -/
def writeRegs (cmd : UInt32) (lwpid : Int32) (regBytes : List Byte) : Proc (RpcResult Bool) :=
  sendPacket cmd (writeInt lwpid ++ leBytes 4 regBytes.length) <|
  receiveStatus fun status =>
  if status ≠ CMD_SUCCESS then .ret (.value false) else .send regBytes receiveSuccess

def setRegs (lwpid : Int32) (regs : GpRegs) : Proc (RpcResult Bool) := writeRegs 0xBDBB0009 lwpid regs.bytes

def setFpRegs (lwpid : Int32) (fpBytes : ByteArr) : Proc (RpcResult Bool) := writeRegs 0xBDBB000B lwpid fpBytes.val

def setDbRegs (lwpid : Int32) (dbRegs : DbRegs) : Proc (RpcResult Bool) :=
  match dbRegs.bytes with
  | none => .ret .thrown
  | some regBytes => writeRegs 0xBDBB000D lwpid regBytes

def setFsGsBase (lwpid : Int32) (fsBase gsBase : Int64) : Proc (RpcResult Bool) :=
  writeRegs 0xBDBB000F lwpid (writeLong fsBase ++ writeLong gsBase)

end DebuggerRpcService

/-! ## `Ps5Client` -/

/-- `sendNotification`, of a text in UTF-8. -/
def sendNotification (textBytes : ByteArr) : Proc (RpcResult Bool) :=
  sendPacket 0xBDDD0004 (leBytes 4 textBytes.val.length ++ textBytes.val) receiveSuccess

end Rpc

end Ps5Debugger

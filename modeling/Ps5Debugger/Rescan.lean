import Ps5Debugger.PatternLoads
import Ps5Debugger.Target
import Ps5Debugger.Wire
import Ps5Debugger.Lib.Window

/-!
# Rescans

The COUNT commands: `proc_scan_count_handle` (`scan.c`) and `proc_turboscan_count_handle`
(`scan_turbo.c`). The client sends chunks of candidates, the server compares each with fresh
memory and sends back those that match. Both read memory through a cached window
(`Lib.Server`): `classicServer` and `turboServer` are their policies. A request with `lenData` 0 leaves the
pattern a null pointer, and the first candidate whose comparator loads it is the end of the handler.
-/

namespace Ps5Debugger

open Lib

/-! ## The parameters of a rescan -/

/-- What both COUNT handlers compute before they look at a candidate. -/
structure CountPass where
  ct : CmpType
  vt : ValType
  valueLength : Nat
  pattern : Option (List Byte)
  mask : Option (List Byte)
  betweenHi : Option (List Byte)

/-- `value_length` of a COUNT request. -/
def ScanCountPacket.valueLength (cp : ScanCountPacket) : Nat :=
  Ps5Debugger.valueLength (ValType.ofByte cp.valueType) cp.lenData.toNat

/-- The prologue of a COUNT: `none` is a rejected request. `data` and `maskData` are the
bytes the client sends for the pattern and the mask. -/
def prepareCount (cp : ScanCountPacket) (data maskData : List Byte) : Option CountPass :=
  match CmpType.ofByte cp.compareType with
  | none => none
  | some ct =>
    let vt := ValType.ofByte cp.valueType
    let v := cp.valueLength
    if v = 0 ∨ v > 0x1000 then none
    else
      let pattern := if ct.needsValue && cp.lenData != 0 then some data else none
      some
        { ct, vt
          valueLength := v
          pattern
          mask := if vt = .arrBytes then some maskData else none
          betweenHi :=
            if ct = .valueBetween ∧ pattern.isSome ∧ cp.lenData.toNat ≥ 2 * v then some (data.drop v)
            else none }

/-- The generic comparison of a candidate's memory. -/
def CountPass.compare (p : CountPass) (window : List Byte) (prev : Option (List Byte)) : Bool :=
  compareValues p.ct p.vt p.valueLength (p.pattern.getD []) window prev p.mask

/-- The comparison of the turbo handler: typed where `turbo_cmp` holds, else generic. -/
def CountPass.turboCompare (p : CountPass) (window : List Byte) (prev : Option (List Byte)) : Bool :=
  if pointTurboSupported p.ct p.vt then
    pointCompare p.ct p.vt window (p.pattern.getD []) (prev.getD [])
  else p.compare window prev

/-- `prev_value_ptr`: the candidate's own previous value, or the upper bound of a between. -/
def CountPass.prevFor (p : CountPass) (own : List Byte) : Option (List Byte) :=
  if p.ct.needsPrevious then some own else p.betweenHi

/-! ## Candidates -/

/-- One candidate of a chunk. -/
structure Entry where
  offset : Nat
  prev : List Byte
  deriving DecidableEq

/-- `entry_size`. -/
def CountPass.entrySize (p : CountPass) : Nat := if p.ct.needsPrevious then 4 + p.valueLength else 4

/-- The candidates of a chunk; a partial entry at its end is not looked at. -/
def CountPass.entries (p : CountPass) (chunk : List Byte) : List Entry :=
  (List.range (chunk.length / p.entrySize)).map fun k =>
    let e := chunk.drop (k * p.entrySize)
    ⟨leNat 4 e, (e.drop 4).take p.valueLength⟩

/-- `base_address + entry_offset`. -/
def candidateAddr (base : Nat) (e : Entry) : Nat := u64 (base + e.offset)

/-- `flush_thresh` of the rescans. -/
def countFlushThresh (v : Nat) : Nat := subU64 0x3FFE8 (2 * v)

/-- What a COUNT handler compares with; only a type without a size has its length from `lenData`. -/
def CountPass.comparing (p : CountPass) : Comparing :=
  ⟨p.ct, p.vt, p.valueLength, p.pattern, p.mask, !p.ct.needsPrevious && p.betweenHi.isNone⟩

/-- The call for a candidate of `proc_turboscan_count_handle`. -/
def CountPass.turboCall (p : CountPass) (mem : List Byte) : CompareCall :=
  if pointTurboSupported p.ct p.vt then .point mem else .values mem

/-- No comparator that is called for one of these windows dereferences a null pattern. -/
def CountPass.Lives (p : CountPass) (call : List Byte → CompareCall) (windows : List (List Byte)) : Prop :=
  ∀ w ∈ windows, ¬ (call w).ReadsNull p.comparing

instance (p : CountPass) (call : List Byte → CompareCall) (windows : List (List Byte)) :
    Decidable (p.Lives call windows) :=
  inferInstanceAs (Decidable (∀ w ∈ windows, ¬ (call w).ReadsNull p.comparing))

/-! ## The classic rescan -/

/-- `TS_RESCAN_GAP_MAX`, the gap a window bridges. -/
def rescanGapMax : Nat := 0x8000

/-- `TS_RESCAN_WIN_CAP`, the size of `mem_buf`. -/
def rescanWinCap : Nat := 0x100000

/-- The extension loop of `proc_scan_count_handle`: `covered_end` after the candidates that
follow. One that starts before the covered end is skipped. -/
def growClassic (v addr : Nat) : Nat → List Nat → Nat
  | coveredEnd, [] => coveredEnd
  | coveredEnd, nextAddr :: rest =>
    if nextAddr < coveredEnd then growClassic v addr coveredEnd rest
    else if nextAddr - coveredEnd > rescanGapMax then coveredEnd
    else if subU64 (u64 (nextAddr + v)) addr > rescanWinCap then coveredEnd
    else growClassic v addr (u64 (nextAddr + v)) rest

/-- `window_end` of a window that is read for a candidate; `read_size` is a `uint32_t`. -/
def classicStop (v addr : Nat) (rest : List Nat) : Nat :=
  let readSize := subU64 (growClassic v addr (u64 (addr + v)) rest) addr % 2 ^ 32
  u64 (addr + readSize)

/-- The window policy of `proc_scan_count_handle`: a candidate that starts inside the window
uses it. -/
def classicServer (mem : Memory) (v : Nat) : Server where
  width := v
  misses w addr := addr ≥ w.stop || addr < w.start
  grow := classicStop v
  read addr n memBuf :=
    let b := readInto mem memBuf addr n
    (b, b)

/-- No window yet: `window_start = window_end = 0`. -/
def noWindow (memBuf : Buf) : Window := ⟨0, 0, memBuf⟩

/-- The windows that a server shows for the candidates of a chunk. -/
def candidateWindows (srv : Server) (p : CountPass) (base : Nat) (chunk : List Byte) (memBuf : Buf) :
    List (List Byte) :=
  srv.serve ((p.entries chunk).map (candidateAddr base)) (noWindow memBuf) memBuf

/-- The records `proc_scan_count_handle` returns for a chunk, in order. -/
def scanCountChunk (mem : Memory) (base : Nat) (p : CountPass) (chunk : List Byte) (memBuf : Buf) :
    List ScanRecord :=
  let es := p.entries chunk
  let shown := candidateWindows (classicServer mem p.valueLength) p base chunk memBuf
  ((es.zip shown).filter fun x => p.compare x.2 (p.prevFor x.1.prev)).map fun x => ⟨x.1.offset, x.2⟩

/-- The sends of `proc_scan_count_handle` for a chunk; `none` is a handler that dereferences the null
pattern. -/
def scanCountStream (mem : Memory) (base : Nat) (p : CountPass) (chunk : List Byte) (memBuf : Buf) :
    Option (List (List Byte)) :=
  if p.Lives .values (candidateWindows (classicServer mem p.valueLength) p base chunk memBuf) then
    some (sendRecords (countFlushThresh p.valueLength) (scanCountChunk mem base p chunk memBuf))
  else none

/-! ## The turbo rescan -/

/-- The extension loop of `proc_turboscan_count_handle` (both of its loops). -/
def growTurbo (v windowStart : Nat) : Nat → List Nat → Nat
  | coveredEnd, [] => coveredEnd
  | coveredEnd, nextAddr :: rest =>
    let gap := if nextAddr > coveredEnd then nextAddr - coveredEnd else 0
    if gap > rescanGapMax then coveredEnd
    else
      let nextEnd := u64 (nextAddr + v)
      if subU64 nextEnd windowStart > rescanWinCap then coveredEnd
      else growTurbo v windowStart (if nextEnd > coveredEnd then nextEnd else coveredEnd) rest

/-- `TS_RESCAN_ALIAS_MIN_WIN`. -/
def rescanAliasMinWin : Nat := 0x10000

/-- `fs_rescan_window_read`: the pointer, and `mem_buf` afterwards. -/
def rescanWindowRead {mem : Memory} (actx : Option (AliasEngine mem)) (windowStart readSize : Nat)
    (memBuf : Buf) : Buf × Buf :=
  match (if readSize ≥ rescanAliasMinWin then actx else none).bind
      fun a => a.map windowStart readSize with
  | some ap => (ap, memBuf)
  | none =>
    let b := readInto mem memBuf windowStart readSize
    (b, b)

/-- The window policy of `proc_turboscan_count_handle`: a candidate must fit in the window. -/
def turboServer {mem : Memory} (actx : Option (AliasEngine mem)) (v : Nat) : Server where
  width := v
  misses w addr := addr < w.start || u64 (addr + v) > w.stop
  grow addr rest := u64 (addr + subU64 (growTurbo v addr (u64 (addr + v)) rest) addr)
  read := rescanWindowRead actx

/-- The records `proc_turboscan_count_handle` returns for a client-driven chunk; `none` is a handler that
dereferences the null pattern. -/
def turboCountChunk {mem : Memory} (actx : Option (AliasEngine mem)) (base : Nat) (p : CountPass)
    (chunk : List Byte) (memBuf : Buf) : Option (List ScanRecord) :=
  let es := p.entries chunk
  let shown := candidateWindows (turboServer actx p.valueLength) p base chunk memBuf
  if p.Lives p.turboCall shown then
    some (((es.zip shown).filter fun x => p.turboCompare x.2 (p.prevFor x.1.prev)).map
      fun x => ⟨x.1.offset, x.2⟩)
  else none

end Ps5Debugger

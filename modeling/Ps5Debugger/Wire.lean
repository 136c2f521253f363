import Ps5Debugger.Compare

/-!
# Requests and result blocks

The packets of the staged scanner (`protocol.h`) with their fixed-width fields, and the
result stream shared by every streaming command: `(offset, value)` records gathered into
blocks of at most 0x40000 bytes, each sent with a 64-bit length in front, closed by an
all-ones sentinel.
-/

namespace Ps5Debugger

open Lib

/-! ## Packets -/

/-- `cmd_proc_scan_start_packet`. -/
structure ScanStartPacket where
  pid : UInt32
  address : UInt64
  length : UInt32
  valueType : UInt8
  compareType : UInt8
  alignment : UInt8
  lenData : UInt32
  deriving DecidableEq

/-- `cmd_proc_turboscan_start_packet`: the same with a flags word. -/
structure TurboStartPacket extends ScanStartPacket where
  flags : UInt32
  deriving DecidableEq

/-- `cmd_proc_scan_count_packet`. -/
structure ScanCountPacket where
  pid : UInt32
  base_address : UInt64
  valueType : UInt8
  compareType : UInt8
  lenData : UInt32
  deriving DecidableEq

/-- `cmd_proc_turboscan_snap_segment`. -/
structure SnapSegment where
  address : UInt64
  length : UInt32
  deriving DecidableEq

def TS_USE_ALIASING : UInt32 := 0x1
def TS_SERVER_RESIDENT : UInt32 := 0x2
def TS_SNAPSHOT : UInt32 := 0x4
def TS_SNAPSHOT_INCLUDE_ZEROS : UInt32 := 0x8
def TS_SNAPSHOT_SEGMENTS : UInt32 := 0x10
def TS_SNAPSHOT_KEEP_FIRST : UInt32 := 0x20
def TS_SNAPSHOT_KEEP_PREVIOUS : UInt32 := 0x40
def TS_PARALLEL_COMPARE : UInt32 := 0x80

/-- `(flags & bit) != 0`. -/
def hasFlag (flags bit : UInt32) : Bool := flags &&& bit != 0

/-! ## Result blocks -/

/-- One result of a scan: an offset on the wire and the value found there. -/
structure ScanRecord where
  offset : Nat
  value : List Byte
  deriving DecidableEq

/-- The bytes of a record in a block: a 32-bit offset and the value. -/
def ScanRecord.bytes (r : ScanRecord) : List Byte := leBytes 4 r.offset ++ r.value

/-- The result buffer of a streaming pass: what was sent, and the block being filled. -/
structure ResultBuf where
  sent : List (List Byte)
  result : List Byte

/-- A block on the wire: its length as a `uint64_t`, then its bytes. -/
def blockBytes (body : List Byte) : List Byte := leBytes 8 body.length ++ body

/-- Append one record, sending the block first when it is past the threshold. -/
def ResultBuf.put (thresh : Nat) (st : ResultBuf) (r : ScanRecord) : ResultBuf :=
  if st.result.length > thresh then ⟨st.sent ++ [blockBytes st.result], r.bytes⟩
  else { st with result := st.result ++ r.bytes }

/-- The closing send, if anything is left. -/
def ResultBuf.finish (st : ResultBuf) : List (List Byte) :=
  if st.result.length ≠ 0 then st.sent ++ [blockBytes st.result] else st.sent

/-- `0xFFFFFFFFFFFFFFFF`, the end of a result stream. -/
def sentinel : List Byte := leBytes 8 0xFFFFFFFFFFFFFFFF

/-- Everything a pass sends for its records: the blocks and the sentinel, one entry a
`net_send_all`. -/
def sendRecords (thresh : Nat) (rs : List ScanRecord) : List (List Byte) :=
  (rs.foldl (ResultBuf.put thresh) ⟨[], []⟩).finish ++ [sentinel]

/-! ### The stream determines how much was sent -/

/-- The bodies of the blocks sent so far, and of the one being filled. -/
def ResultBuf.payload (st : ResultBuf) : List Byte := (st.sent.map (List.drop 8)).flatten ++ st.result

theorem drop_blockBytes (body : List Byte) : (blockBytes body).drop 8 = body :=
  drop_leBytes 8 body.length body

theorem payload_put (thresh : Nat) (st : ResultBuf) (r : ScanRecord) :
    (st.put thresh r).payload = st.payload ++ r.bytes := by
  rw [ResultBuf.put]
  split
  · simp [ResultBuf.payload, drop_blockBytes]
  · simp [ResultBuf.payload]

theorem payload_foldl (thresh : Nat) (rs : List ScanRecord) : ∀ st : ResultBuf,
    (rs.foldl (ResultBuf.put thresh) st).payload = st.payload ++ rs.flatMap ScanRecord.bytes := by
  induction rs with
  | nil => intro st; simp
  | cons r rs ih =>
    intro st
    rw [List.foldl_cons, ih, payload_put, List.flatMap_cons, List.append_assoc]

theorem finish_payload (st : ResultBuf) : (st.finish.map (List.drop 8)).flatten = st.payload := by
  rw [ResultBuf.finish]
  split
  · simp [ResultBuf.payload, drop_blockBytes]
  · next h =>
    have hnil : st.result = [] := List.eq_nil_of_length_eq_zero (by omega)
    simp [ResultBuf.payload, hnil]

/-- Equal streams carry equal payloads. -/
theorem payload_eq_of_sendRecords_eq {thresh : Nat} {rs rs' : List ScanRecord}
    (h : sendRecords thresh rs = sendRecords thresh rs') :
    rs.flatMap ScanRecord.bytes = rs'.flatMap ScanRecord.bytes := by
  have hfin := List.append_inj_left' h rfl
  have hpay := congrArg (fun sends => (List.map (List.drop 8) sends).flatten) hfin
  simp only [finish_payload, payload_foldl] at hpay
  simpa [ResultBuf.payload] using hpay

/-- Streams of records of one width can only be equal when they carry as many records. -/
theorem length_eq_of_sendRecords_eq {thresh v : Nat} {rs rs' : List ScanRecord}
    (hv : ∀ r ∈ rs, r.value.length = v) (hv' : ∀ r ∈ rs', r.value.length = v)
    (h : sendRecords thresh rs = sendRecords thresh rs') : rs.length = rs'.length := by
  have width : ∀ l : List ScanRecord, (∀ r ∈ l, r.value.length = v) →
      (l.flatMap ScanRecord.bytes).length = l.length * (4 + v) := by
    intro l hl
    induction l with
    | nil => simp
    | cons r l ih =>
      have hr : r.bytes.length = 4 + v := by
        rw [ScanRecord.bytes, List.length_append, length_leBytes, hl r (by simp)]
      rw [List.flatMap_cons, List.length_append, hr, ih fun r' hr' => hl r' (by simp [hr']),
        List.length_cons]
      ring
  have hlen := congrArg List.length (payload_eq_of_sendRecords_eq h)
  rw [width rs hv, width rs' hv'] at hlen
  exact Nat.eq_of_mul_eq_mul_right (by omega) hlen

end Ps5Debugger

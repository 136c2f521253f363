import Mathlib
import Ps5Debugger.Lib.Machine
import Ps5Debugger.Lib.Records
import Ps5Debugger.RpcExchange

/-!
# Registers and debug events on the wire

What the client makes of the registers and of the packets of the event channel (`Registers.kt`, `Ps5DebugChannel.kt`),
and the packet that `dispatch_debug_events` (`debug.c`) fills in.

The registers that are read are written back bit for bit, and those that are written are read back
(`registers_round_trip`). A packet is read where it was filled in (`parse_packet`), and the loop of the channel finds
the packets in the stream, however the stream is cut into reads (`channel_receives`).
-/

namespace Ps5Debugger

open Lib Rpc

namespace DebugEvents

/-! ## What the client reads -/

/-- `GpRegs.parse`, from where the buffer stands: one field behind the other. -/
def parseGpRegs (b : List Byte) : GpRegs where
  general := fun i => readLong (b.drop (8 * i))
  trapno := readInt (b.drop 120)
  fs := Int32.ofNat (readUShort (b.drop 124))
  gs := Int32.ofNat (readUShort (b.drop 126))
  err := readInt (b.drop 128)
  es := Int32.ofNat (readUShort (b.drop 132))
  ds := Int32.ofNat (readUShort (b.drop 134))
  frame := fun i => readLong (b.drop (136 + 8 * i))

/-- `DbRegs.parse` -/
def parseDbRegs (b : List Byte) : DbRegs where
  dr := fun i => readLong (b.drop (8 * i))
  reserved := List.ofFn fun i : Fin 8 => readLong (b.drop (64 + 8 * i))

/-- `Ps5DebugEvent`, with the name of the thread in UTF-8. -/
structure Ps5DebugEvent where
  lwpid : Int32
  status : Int32
  threadName : List Byte
  regs : GpRegs
  fpu : List Byte
  dbregs : DbRegs

/-- `Ps5DebugEvent.parse`, of the 1184 bytes of a packet. -/
def Ps5DebugEvent.parse (bytes : List Byte) : Ps5DebugEvent where
  lwpid := readInt bytes
  status := readInt (bytes.drop 4)
  threadName := readString 40 (bytes.drop 8)
  regs := parseGpRegs (bytes.drop 48)
  fpu := (bytes.drop 224).take 832
  dbregs := parseDbRegs (bytes.drop 1056)

/-! ## What is read is written back -/

theorem writeLong_readLong {b : List Byte} (h : 8 ≤ b.length) : writeLong (readLong b) = b.take 8 := by
  have hlt : leNat 8 b < 2 ^ 64 := leNat_lt 8 b
  have hlen : (b.take 8).length = 8 := by rw [List.length_take, min_eq_left h]
  rw [writeLong, readLong, UInt64.toUInt64_toInt64, UInt64.toNat_ofNat_of_lt' hlt, ← leNat_take,
    leBytes_leNat 8 _ hlen]

theorem writeInt_readInt {b : List Byte} (h : 4 ≤ b.length) : writeInt (readInt b) = b.take 4 := by
  have hlt : leNat 4 b < 2 ^ 32 := leNat_lt 4 b
  have hlen : (b.take 4).length = 4 := by rw [List.length_take, min_eq_left h]
  rw [writeInt, readInt, UInt32.toUInt32_toInt32, UInt32.toNat_ofNat_of_lt' hlt, ← leNat_take,
    leBytes_leNat 4 _ hlen]

theorem toUInt32_ofNat {n : Nat} (h : n < 2 ^ 32) : (Int32.ofNat n).toUInt32.toNat = n := by
  rw [← UInt32.toInt32_ofNat', UInt32.toUInt32_toInt32, UInt32.toNat_ofNat_of_lt' h]

theorem writeShort_readUShort {b : List Byte} (h : 2 ≤ b.length) :
    writeShort (Int32.ofNat (readUShort b)) = b.take 2 := by
  have hlt : leNat 2 b < 2 ^ 32 := (leNat_lt 2 b).trans (by decide)
  have hlen : (b.take 2).length = 2 := by rw [List.length_take, min_eq_left h]
  rw [writeShort, readUShort, toUInt32_ofNat hlt, ← leNat_take, leBytes_leNat 2 _ hlen]

/-- Longs, one behind the other. -/
theorem flatMap_readLong (b : List Byte) (off n : Nat) (h : off + 8 * n ≤ b.length) :
    (List.ofFn fun i : Fin n => readLong (b.drop (off + 8 * i))).flatMap writeLong = (b.drop off).take (8 * n) := by
  induction n with
  | zero => rfl
  | succ n ih =>
    have hlast : 8 ≤ (b.drop (off + 8 * n)).length := by
      rw [List.length_drop]
      omega
    rw [List.ofFn_succ_last, List.flatMap_append, List.flatMap_singleton, Fin.val_last, writeLong_readLong hlast,
      Nat.mul_succ, List.take_add, List.drop_drop]
    exact congrArg (· ++ _) (ih (by omega))

theorem bytes_parseGpRegs {b : List Byte} (h : b.length = 176) : (parseGpRegs b).bytes = b := by
  have hlong (off n : Nat) (hle : off + 8 * n ≤ 176) := flatMap_readLong b off n (by omega)
  have hint (off : Nat) (hle : off + 4 ≤ 176) : writeInt (readInt (b.drop off)) = (b.drop off).take 4 :=
    writeInt_readInt (by rw [List.length_drop]; omega)
  have hshort (off : Nat) (hle : off + 2 ≤ 176) :
      writeShort (Int32.ofNat (readUShort (b.drop off))) = (b.drop off).take 2 :=
    writeShort_readUShort (by rw [List.length_drop]; omega)
  have hgeneral := hlong 0 15 (by omega)
  simp only [Nat.zero_add, List.drop_zero] at hgeneral
  rw [GpRegs.bytes, parseGpRegs]
  dsimp only
  rw [hgeneral, hint 120 (by omega), hshort 124 (by omega), hshort 126 (by omega), hint 128 (by omega),
    hshort 132 (by omega), hshort 134 (by omega), hlong 136 5 (by omega), ← List.take_add, ← List.take_add,
    ← List.take_add, ← List.take_add, ← List.take_add, ← List.take_add, ← List.take_add]
  exact List.take_of_length_le (by omega)

theorem bytes_parseDbRegs {b : List Byte} (h : b.length = 128) : (parseDbRegs b).bytes = some b := by
  have hdr := flatMap_readLong b 0 8 (by omega)
  have hreserved := flatMap_readLong b 64 8 (by omega)
  simp only [Nat.zero_add, List.drop_zero] at hdr
  rw [DbRegs.bytes, parseDbRegs, if_pos (by simp)]
  dsimp only
  rw [List.length_ofFn, Nat.sub_self, List.replicate_zero, List.append_nil, List.flatMap_append, hdr, hreserved,
    ← List.take_add, List.take_of_length_le (by omega)]

/-! ## What is written is read back -/

theorem readLong_writeLong (v : Int64) (t : List Byte) : readLong (writeLong v ++ t) = v := by
  rw [readLong, writeLong, leNat_leBytes_append (UInt64.toNat_lt _), UInt64.ofNat_toNat, Int64.toInt64_toUInt64]

theorem readInt_writeInt (v : Int32) (t : List Byte) : readInt (writeInt v ++ t) = v := by
  rw [readInt, writeInt, leNat_leBytes_append (UInt32.toNat_lt _), UInt32.ofNat_toNat, Int32.toInt32_toUInt32]

/-- The value of an unsigned short. -/
def IsUShort (v : Int32) : Prop := v.toUInt32.toNat < 2 ^ 16

theorem readUShort_writeShort {v : Int32} (hv : IsUShort v) (t : List Byte) :
    Int32.ofNat (readUShort (writeShort v ++ t)) = v := by
  rw [readUShort, writeShort, leNat_leBytes_append hv, ← UInt32.toInt32_ofNat', UInt32.ofNat_toNat,
    Int32.toInt32_toUInt32]

/-- The longs in front of other bytes. -/
theorem readLong_flatMap (n : Nat) (f : Fin n → Int64) (t : List Byte) (i : Fin n) :
    readLong (((List.ofFn f).flatMap writeLong ++ t).drop (8 * i)) = f i := by
  have hlen (v : Int64) (_ : v ∈ List.ofFn f) : (writeLong v).length = 8 := length_writeLong v
  have hdrop : ((List.ofFn f).flatMap writeLong).drop (8 * i) = ((List.ofFn f).drop i).flatMap writeLong := by
    rw [Nat.mul_comm, drop_records hlen]
  have hroom : 8 * (i : Nat) ≤ ((List.ofFn f).flatMap writeLong).length := by
    rw [length_records hlen, List.length_ofFn]
    omega
  rw [List.drop_append_of_le_length hroom, hdrop,
    List.drop_eq_getElem_cons (i := i) (by rw [List.length_ofFn]; exact i.isLt), List.getElem_ofFn, List.flatMap_cons,
    List.append_assoc, readLong_writeLong]

@[simp] theorem length_writeShort (v : Int32) : (writeShort v).length = 2 := length_leBytes 2 _

/-- The registers of a `GpRegs` that hold unsigned shorts. -/
def Shorts (r : GpRegs) : Prop := IsUShort r.fs ∧ IsUShort r.gs ∧ IsUShort r.es ∧ IsUShort r.ds

/-- What stands behind some bytes. -/
theorem drop_behind {p t : List Byte} {off : Nat} (h : p.length = off) : (p ++ t).drop off = t := by
  rw [← h, List.drop_left]

theorem parseGpRegs_bytes {r : GpRegs} (h : Shorts r) : parseGpRegs r.bytes = r := by
  obtain ⟨general, trapno, fs, gs, err, es, ds, frame⟩ := r
  obtain ⟨hfs, hgs, hes, hds⟩ := h
  have hgeneral : (fun i : Fin 15 => readLong ((GpRegs.bytes ⟨general, trapno, fs, gs, err, es, ds, frame⟩).drop
      (8 * i))) = general := by
    funext i
    simp only [GpRegs.bytes, List.append_assoc]
    exact readLong_flatMap 15 general _ i
  have hframe : (fun i : Fin 5 => readLong ((GpRegs.bytes ⟨general, trapno, fs, gs, err, es, ds, frame⟩).drop
      (136 + 8 * i))) = frame := by
    funext i
    rw [GpRegs.bytes, ← List.drop_drop, drop_behind (by simp), ← List.append_nil (List.flatMap _ _)]
    exact readLong_flatMap 5 frame _ i
  rw [parseGpRegs, hgeneral, hframe]
  simp only [GpRegs.bytes, List.append_assoc]
  congr 1
  · rw [drop_behind (by simp), readInt_writeInt]
  · rw [← List.append_assoc, drop_behind (by simp), readUShort_writeShort hfs]
  · rw [← List.append_assoc, ← List.append_assoc, drop_behind (by simp), readUShort_writeShort hgs]
  · rw [← List.append_assoc, ← List.append_assoc, ← List.append_assoc, drop_behind (by simp), readInt_writeInt]
  · rw [← List.append_assoc, ← List.append_assoc, ← List.append_assoc, ← List.append_assoc, drop_behind (by simp),
      readUShort_writeShort hes]
  · rw [← List.append_assoc, ← List.append_assoc, ← List.append_assoc, ← List.append_assoc, ← List.append_assoc,
      drop_behind (by simp), readUShort_writeShort hds]

theorem parseDbRegs_bytes {r : DbRegs} (h : r.reserved.length = 8) : r.bytes.map parseDbRegs = some r := by
  obtain ⟨dr, reserved⟩ := r
  obtain ⟨f, rfl⟩ : ∃ f : Fin 8 → Int64, reserved = List.ofFn f := by
    refine ⟨fun i => reserved.get (i.cast h.symm), List.ext_getElem (by rw [List.length_ofFn]; exact h) fun i _ _ => ?_⟩
    rw [List.getElem_ofFn]
    rfl
  have hdr : (fun i : Fin 8 => readLong (((List.ofFn dr).flatMap writeLong ++ (List.ofFn f).flatMap writeLong).drop
      (8 * i))) = dr := funext fun i => readLong_flatMap 8 dr _ i
  have hreserved : (fun i : Fin 8 => readLong (((List.ofFn dr).flatMap writeLong ++
      (List.ofFn f).flatMap writeLong).drop (64 + 8 * i))) = f := by
    funext i
    rw [← List.drop_drop, drop_behind (by simp), ← List.append_nil (List.flatMap _ _)]
    exact readLong_flatMap 8 f _ i
  have hbytes : DbRegs.bytes ⟨dr, List.ofFn f⟩ =
      some ((List.ofFn dr).flatMap writeLong ++ (List.ofFn f).flatMap writeLong) := by
    rw [DbRegs.bytes, if_pos (by simp)]
    dsimp only
    rw [List.length_ofFn, Nat.sub_self, List.replicate_zero, List.append_nil, List.flatMap_append]
  rw [hbytes, Option.map_some, parseDbRegs, hdr, hreserved]

theorem shorts_parseGpRegs (b : List Byte) : Shorts (parseGpRegs b) := by
  have hshort (off : Nat) : IsUShort (Int32.ofNat (readUShort (b.drop off))) := by
    have hlt : readUShort (b.drop off) < 2 ^ 16 := leNat_lt 2 _
    rwa [IsUShort, toUInt32_ofNat (hlt.trans (by decide))]
  exact ⟨hshort 124, hshort 126, hshort 132, hshort 134⟩

/-- **Registers go there and back.** The registers of a thread that are read and written are bit for bit the same.
Registers that are written are read as they were exactly when the four segments are unsigned shorts, and the reserved
debug registers are eight. -/
theorem registers_round_trip :
    (∀ b : Packed 176, Shorts (parseGpRegs b.val) ∧ (parseGpRegs b.val).bytes = b.val) ∧
      (∀ r : GpRegs, parseGpRegs r.bytes = r ↔ Shorts r) ∧
      (∀ b : Packed 128, (parseDbRegs b.val).bytes = some b.val) ∧
      ∀ r : DbRegs, r.bytes.map parseDbRegs = some r ↔ r.reserved.length = 8 := by
  refine ⟨fun b => ⟨shorts_parseGpRegs b.val, bytes_parseGpRegs b.property⟩,
    fun r => ⟨fun h => h ▸ shorts_parseGpRegs r.bytes, parseGpRegs_bytes⟩,
    fun b => bytes_parseDbRegs b.property, fun r => ⟨fun h => ?_, parseDbRegs_bytes⟩⟩
  obtain ⟨b, -, rfl⟩ := Option.map_eq_some_iff.mp h
  exact List.length_ofFn

/-! ## Fields of a buffer -/

def longAt (b : Buf) (off : Nat) : Int64 := readLong (slice b off 8)
def intAt (b : Buf) (off : Nat) : Int32 := readInt (slice b off 4)
def ushortAt (b : Buf) (off : Nat) : Int32 := Int32.ofNat (readUShort (slice b off 2))

/-- `*(uint64_t *)(b + off) = v` -/
def put64 (b : Buf) (off : Nat) (v : UInt64) : Buf := blit b off (ofList (leBytes 8 v.toNat)) 8

/-- `*(uint32_t *)(b + off) = v` -/
def put32 (b : Buf) (off : Nat) (v : UInt32) : Buf := blit b off (ofList (leBytes 4 v.toNat)) 4

/-- A number is made of its own bytes. -/
theorem leNat_drop_slice {b : Buf} {n off k len : Nat} (h : k + n ≤ len) :
    leNat n ((slice b off len).drop k) = leNat n (slice b (off + k) n) := by
  rw [drop_slice, ← leNat_take, take_slice, min_eq_left (by omega)]

theorem readLong_drop_slice {b : Buf} {off k len : Nat} (h : k + 8 ≤ len) :
    readLong ((slice b off len).drop k) = longAt b (off + k) := by
  rw [readLong, leNat_drop_slice h, longAt, readLong]

theorem readInt_drop_slice {b : Buf} {off k len : Nat} (h : k + 4 ≤ len) :
    readInt ((slice b off len).drop k) = intAt b (off + k) := by
  rw [readInt, leNat_drop_slice h, intAt, readInt]

theorem readUShort_drop_slice {b : Buf} {off k len : Nat} (h : k + 2 ≤ len) :
    Int32.ofNat (readUShort ((slice b off len).drop k)) = ushortAt b (off + k) := by
  rw [readUShort, leNat_drop_slice h, ushortAt, readUShort]

theorem parseGpRegs_slice {b : Buf} {off len : Nat} (h : 176 ≤ len) :
    parseGpRegs (slice b off len) =
      ⟨fun i => longAt b (off + 8 * i), intAt b (off + 120), ushortAt b (off + 124), ushortAt b (off + 126),
        intAt b (off + 128), ushortAt b (off + 132), ushortAt b (off + 134),
        fun i => longAt b (off + (136 + 8 * i))⟩ := by
  have hgeneral (i : Fin 15) := @readLong_drop_slice b off (8 * i) len (by omega)
  have hframe (i : Fin 5) := @readLong_drop_slice b off (136 + 8 * i) len (by omega)
  rw [parseGpRegs, readInt_drop_slice (by omega), readUShort_drop_slice (by omega), readUShort_drop_slice (by omega),
    readInt_drop_slice (by omega), readUShort_drop_slice (by omega), readUShort_drop_slice (by omega)]
  simp only [hgeneral, hframe]

theorem parseDbRegs_slice {b : Buf} {off len : Nat} (h : 128 ≤ len) :
    parseDbRegs (slice b off len) =
      ⟨fun i => longAt b (off + 8 * i), List.ofFn fun i : Fin 8 => longAt b (off + (64 + 8 * i))⟩ := by
  have hdr (i : Fin 8) := @readLong_drop_slice b off (8 * i) len (by omega)
  have hreserved (i : Fin 8) := @readLong_drop_slice b off (64 + 8 * i) len (by omega)
  simp only [parseDbRegs, hdr, hreserved]

section Put

variable {b : Buf} {off p : Nat} {v : UInt64}

theorem longAt_put64 : longAt (put64 b p v) p = v.toInt64 := by
  have hslice : slice (put64 b p v) (p + 0) 8 = slice (ofList (leBytes 8 v.toNat)) 0 (leBytes 8 v.toNat).length := by
    rw [put64, slice_blit_inside (by omega), length_leBytes]
  have hlt : v.toNat < 256 ^ 8 := UInt64.toNat_lt v
  rw [Nat.add_zero, slice_ofList] at hslice
  rw [longAt, hslice, readLong, leNat_leBytes, Nat.mod_eq_of_lt hlt, UInt64.ofNat_toNat]

theorem longAt_put64_of_apart (h : off + 8 ≤ p ∨ p + 8 ≤ off) : longAt (put64 b p v) off = longAt b off := by
  rw [longAt, put64, slice_blit_outside h, longAt]

theorem intAt_put64_of_apart (h : off + 4 ≤ p ∨ p + 8 ≤ off) : intAt (put64 b p v) off = intAt b off := by
  rw [intAt, put64, slice_blit_outside h, intAt]

theorem ushortAt_put64_of_apart (h : off + 2 ≤ p ∨ p + 8 ≤ off) : ushortAt (put64 b p v) off = ushortAt b off := by
  rw [ushortAt, put64, slice_blit_outside h, ushortAt]

/-- Another long of an array of longs. -/
theorem longAt_put64_array {n : Nat} {j : Fin n} :
    (fun i : Fin n => longAt (put64 b (off + 8 * j) v) (off + 8 * i)) =
      Function.update (fun i : Fin n => longAt b (off + 8 * i)) j v.toInt64 := by
  funext i
  rcases eq_or_ne i j with rfl | hne
  · rw [Function.update_self, longAt_put64]
  · have hval : (i : Nat) ≠ j := fun h => hne (Fin.ext h)
    rw [Function.update_of_ne hne, longAt_put64_of_apart (by omega)]

end Put

/-! ## The packet -/

/-- What the pump has found out about a stopped thread. -/
structure Found where
  lwpid : UInt32
  status : UInt32
  /-- `lwpi + 0x80` -/
  name : Packed 24
  regs : Packed 176
  fpu : Packed 832
  dbregs : Packed 128

/-- `char pkt[1184]`, as it is filled in. -/
def Found.pkt (f : Found) : Buf :=
  let pkt := put32 (fun _ => 0) 0x000 f.lwpid
  let pkt := put32 pkt 0x004 f.status
  let pkt := blit pkt 0x008 (ofList f.name.val) 24
  let pkt := blit pkt 0x030 (ofList f.regs.val) 176
  let pkt := blit pkt 0x0E0 (ofList f.fpu.val) 832
  blit pkt 0x420 (ofList f.dbregs.val) 128

/-- What the client is to be told. -/
def Found.event (f : Found) : Ps5DebugEvent where
  lwpid := f.lwpid.toInt32
  status := f.status.toInt32
  threadName := f.name.val.takeWhile (· ≠ 0)
  regs := parseGpRegs f.regs.val
  fpu := f.fpu.val
  dbregs := parseDbRegs f.dbregs.val

/-- Another instruction pointer. -/
def Ps5DebugEvent.setRip (e : Ps5DebugEvent) (rip : Int64) : Ps5DebugEvent :=
  { e with regs := { e.regs with frame := Function.update e.regs.frame 0 rip } }

/-- `dr6` is one of the debug registers. -/
local instance dbregsNeZero : NeZero 8 := inferInstance

/-- Another `dr6`. -/
def Ps5DebugEvent.setDr6 (e : Ps5DebugEvent) (dr6 : Int64) : Ps5DebugEvent :=
  { e with dbregs := { e.dbregs with dr := Function.update e.dbregs.dr 6 dr6 } }

/-- A packet is read field by field. -/
theorem parse_slice (b : Buf) : Ps5DebugEvent.parse (slice b 0 1184) =
    ⟨intAt b 0, intAt b 4, (slice b 8 40).takeWhile (· ≠ 0), parseGpRegs (slice b 0x030 176), slice b 0x0E0 832,
      parseDbRegs (slice b 0x420 128)⟩ := by
  have hlwpid := @readInt_drop_slice b 0 0 1184 (by omega)
  rw [List.drop_zero] at hlwpid
  rw [Ps5DebugEvent.parse, hlwpid, readInt_drop_slice (by omega), readString, drop_slice, drop_slice, drop_slice,
    drop_slice, take_slice, take_slice, parseGpRegs_slice (by omega), parseGpRegs_slice (by omega),
    parseDbRegs_slice (by omega)]
  rfl

theorem parse_put_rip (b : Buf) (rip : UInt64) : Ps5DebugEvent.parse (slice (put64 b (0x030 + 0x88) rip) 0 1184) =
    (Ps5DebugEvent.parse (slice b 0 1184)).setRip rip.toInt64 := by
  have hname : slice (put64 b (0x030 + 0x88) rip) 8 40 = slice b 8 40 := slice_blit_outside (by omega)
  have hfpu : slice (put64 b (0x030 + 0x88) rip) 0x0E0 832 = slice b 0x0E0 832 := slice_blit_outside (by omega)
  have hgeneral (i : Fin 15) : longAt (put64 b (0x030 + 0x88) rip) (0x030 + 8 * i) = longAt b (0x030 + 8 * i) :=
    longAt_put64_of_apart (by omega)
  have hframe := @longAt_put64_array b (0x030 + 0x88) rip 5 0
  simp only [Fin.val_zero, Nat.mul_zero, Nat.add_zero, Nat.add_assoc] at hframe
  have hdr (i : Fin 8) : longAt (put64 b (0x030 + 0x88) rip) (0x420 + 8 * i) = longAt b (0x420 + 8 * i) :=
    longAt_put64_of_apart (by omega)
  have hreserved (i : Fin 8) : longAt (put64 b (0x030 + 0x88) rip) (0x420 + (64 + 8 * i)) =
      longAt b (0x420 + (64 + 8 * i)) := longAt_put64_of_apart (by omega)
  rw [parse_slice, parse_slice, Ps5DebugEvent.setRip, hname, hfpu, parseGpRegs_slice (le_refl _),
    parseGpRegs_slice (le_refl _), parseDbRegs_slice (le_refl _), parseDbRegs_slice (le_refl _),
    intAt_put64_of_apart (by omega), intAt_put64_of_apart (by omega), intAt_put64_of_apart (by omega),
    intAt_put64_of_apart (by omega), ushortAt_put64_of_apart (by omega), ushortAt_put64_of_apart (by omega),
    ushortAt_put64_of_apart (by omega), ushortAt_put64_of_apart (by omega)]
  simp only [hgeneral, hdr, hreserved]
  rw [← hframe]

theorem parse_put_dr6 (b : Buf) (dr6 : UInt64) : Ps5DebugEvent.parse (slice (put64 b (0x420 + 0x30) dr6) 0 1184) =
    (Ps5DebugEvent.parse (slice b 0 1184)).setDr6 dr6.toInt64 := by
  have hname : slice (put64 b (0x420 + 0x30) dr6) 8 40 = slice b 8 40 := slice_blit_outside (by omega)
  have hregs : slice (put64 b (0x420 + 0x30) dr6) 0x030 176 = slice b 0x030 176 := slice_blit_outside (by omega)
  have hfpu : slice (put64 b (0x420 + 0x30) dr6) 0x0E0 832 = slice b 0x0E0 832 := slice_blit_outside (by omega)
  have hdr := @longAt_put64_array b 0x420 dr6 8 6
  have hreserved (i : Fin 8) : longAt (put64 b (0x420 + 0x30) dr6) (0x420 + (64 + 8 * i)) =
      longAt b (0x420 + (64 + 8 * i)) := longAt_put64_of_apart (by omega)
  rw [parse_slice, parse_slice, Ps5DebugEvent.setDr6, hname, hregs, hfpu, parseDbRegs_slice (le_refl _),
    parseDbRegs_slice (le_refl _), intAt_put64_of_apart (by omega), intAt_put64_of_apart (by omega)]
  simp only [hreserved]
  rw [← hdr]
  rfl

theorem slice_put32 (b : Buf) (off : Nat) (v : UInt32) : slice (put32 b off v) off 4 = leBytes 4 v.toNat := by
  have hslice : slice (put32 b off v) (off + 0) 4 =
      slice (ofList (leBytes 4 v.toNat)) 0 (leBytes 4 v.toNat).length := by
    rw [put32, slice_blit_inside (by omega), length_leBytes]
  rwa [Nat.add_zero, slice_ofList] at hslice

/-- What was copied in. -/
theorem slice_blit_packed (b : Buf) (off : Nat) {n : Nat} (bs : Packed n) :
    slice (blit b off (ofList bs.val) n) off n = bs.val := by
  have hslice : slice (blit b off (ofList bs.val) n) (off + 0) n = slice (ofList bs.val) 0 bs.val.length := by
    rw [slice_blit_inside (by omega), bs.property]
  rwa [Nat.add_zero, slice_ofList] at hslice

theorem takeWhile_zero (l t : List Byte) : (l ++ 0 :: t).takeWhile (· ≠ 0) = l.takeWhile (· ≠ 0) := by
  induction l with
  | nil => rfl
  | cons x l ih =>
    rw [List.cons_append, List.takeWhile_cons, List.takeWhile_cons, ih]

/-- **A packet says what it was filled with.** -/
theorem parse_pkt (f : Found) : Ps5DebugEvent.parse (slice f.pkt 0 1184) = f.event := by
  have hlwpid : intAt f.pkt 0 = f.lwpid.toInt32 := by
    rw [intAt, Found.pkt, slice_blit_outside (by omega), slice_blit_outside (by omega), slice_blit_outside (by omega),
      slice_blit_outside (by omega), put32, slice_blit_outside (by omega), slice_put32, readInt_leBytes]
  have hstatus : intAt f.pkt 4 = f.status.toInt32 := by
    rw [intAt, Found.pkt, slice_blit_outside (by omega), slice_blit_outside (by omega), slice_blit_outside (by omega),
      slice_blit_outside (by omega), slice_put32, readInt_leBytes]
  have hname : slice f.pkt 8 24 = f.name.val := by
    rw [Found.pkt, slice_blit_outside (by omega), slice_blit_outside (by omega), slice_blit_outside (by omega),
      slice_blit_packed]
  have hzeros : slice f.pkt 32 16 = List.replicate 16 0 := by
    rw [Found.pkt, slice_blit_outside (by omega), slice_blit_outside (by omega), slice_blit_outside (by omega),
      slice_blit_outside (by omega), put32, slice_blit_outside (by omega), put32, slice_blit_outside (by omega)]
    rfl
  have htext : (slice f.pkt 8 40).takeWhile (· ≠ 0) = f.name.val.takeWhile (· ≠ 0) := by
    have hsplit := slice_append_slice f.pkt 8 24 16
    rw [hsplit, hname, hzeros]
    exact takeWhile_zero f.name.val _
  have hregs : slice f.pkt 0x030 176 = f.regs.val := by
    rw [Found.pkt, slice_blit_outside (by omega), slice_blit_outside (by omega), slice_blit_packed]
  have hfpu : slice f.pkt 0x0E0 832 = f.fpu.val := by
    rw [Found.pkt, slice_blit_outside (by omega), slice_blit_packed]
  have hdbregs : slice f.pkt 0x420 128 = f.dbregs.val := by
    rw [Found.pkt, slice_blit_packed]
  rw [parse_slice, hlwpid, hstatus, htext, hregs, hfpu, hdbregs, Found.event]

/-! ## The stream -/

/-- `handleClient` of the channel: the front of the buffer that is filled, and what was emitted. -/
structure Channel where
  buffer : List Byte
  events : List Ps5DebugEvent

/-- What one `read` returns. A full buffer is parsed and filled afresh. -/
def Channel.read (c : Channel) (got : List Byte) : Channel :=
  if (c.buffer ++ got).length = 1184 then ⟨[], c.events ++ [.parse (c.buffer ++ got)]⟩ else ⟨c.buffer ++ got, c.events⟩

/-- A `read` returns at most what it is asked for. -/
def Channel.Asks (c : Channel) (got : List Byte) : Prop := c.buffer.length + got.length ≤ 1184

/-- The whole packets at the front of a stream. -/
def packetsIn (stream : List Byte) : List (List Byte) :=
  (List.range (stream.length / 1184)).map fun i => (stream.drop (i * 1184)).take 1184

/-- What has come in, as the loop has it. -/
def Channel.Holds (c : Channel) (stream : List Byte) : Prop :=
  c.buffer = stream.drop (stream.length / 1184 * 1184) ∧ c.events = (packetsIn stream).map .parse

theorem packet_append {stream : List Byte} (got : List Byte) {i : Nat} (hi : i ∈ List.range (stream.length / 1184)) :
    ((stream ++ got).drop (i * 1184)).take 1184 = (stream.drop (i * 1184)).take 1184 := by
  have hlt := List.mem_range.mp hi
  rw [List.drop_append_of_le_length (by omega), List.take_append_of_le_length (by rw [List.length_drop]; omega)]

theorem packetsIn_append {stream got : List Byte}
    (h : (stream ++ got).length / 1184 = stream.length / 1184) : packetsIn (stream ++ got) = packetsIn stream := by
  rw [packetsIn, h, packetsIn]
  exact List.map_congr_left fun i hi => packet_append got hi

theorem packetsIn_append_full {stream got : List Byte}
    (h : (stream ++ got).length = (stream.length / 1184 + 1) * 1184) :
    packetsIn (stream ++ got) = packetsIn stream ++ [stream.drop (stream.length / 1184 * 1184) ++ got] := by
  have hdiv : (stream ++ got).length / 1184 = stream.length / 1184 + 1 := by rw [h]; omega
  have hroom : stream.length / 1184 * 1184 ≤ stream.length := Nat.div_mul_le_self _ _
  have hlast : ((stream ++ got).drop (stream.length / 1184 * 1184)).take 1184 =
      stream.drop (stream.length / 1184 * 1184) ++ got := by
    rw [List.take_of_length_le (by rw [List.length_drop, h]; omega), List.drop_append_of_le_length hroom]
  rw [packetsIn, hdiv, List.range_succ, List.map_append, List.map_singleton, hlast, packetsIn]
  exact congrArg (· ++ _) (List.map_congr_left fun i hi => packet_append got hi)

theorem Channel.Holds.read {c : Channel} {stream got : List Byte} (h : c.Holds stream) (hok : c.Asks got) :
    (c.read got).Holds (stream ++ got) := by
  obtain ⟨hbuffer, hevents⟩ := h
  have hroom : stream.length / 1184 * 1184 ≤ stream.length := Nat.div_mul_le_self _ _
  have hlen : c.buffer.length = stream.length - stream.length / 1184 * 1184 := by rw [hbuffer, List.length_drop]
  have hlt := Nat.mod_lt stream.length (by decide : 0 < 1184)
  have hsum : (stream ++ got).length = stream.length + got.length := List.length_append
  rw [Channel.Asks] at hok
  rw [Channel.read, List.length_append]
  split
  · rename_i hfull
    have htotal : (stream ++ got).length = (stream.length / 1184 + 1) * 1184 := by omega
    refine ⟨?_, ?_⟩
    · rw [List.drop_of_length_le (by omega)]
    · rw [packetsIn_append_full htotal, List.map_append, List.map_singleton, ← hbuffer, ← hevents]
  · rename_i hpart
    have hdiv : (stream ++ got).length / 1184 = stream.length / 1184 := by omega
    refine ⟨?_, ?_⟩
    · rw [hdiv, List.drop_append_of_le_length hroom, hbuffer]
    · rw [packetsIn_append hdiv]
      exact hevents

/-- The packets in the front of a stream of packets. -/
theorem packetsIn_take (packets : List (Packed 1184)) (n : Nat) :
    packetsIn ((packets.flatMap Subtype.val).take n) = (packets.take (n / 1184)).map Subtype.val := by
  have hlen (p : Packed 1184) (_ : p ∈ packets) : p.val.length = 1184 := p.property
  have htotal := length_records hlen
  refine List.ext_getElem ?_ fun i hi hi' => ?_
  · rw [packetsIn, List.length_map, List.length_range, List.length_take, htotal, List.length_map, List.length_take]
    omega
  · rw [packetsIn, List.length_map, List.length_range, List.length_take, htotal] at hi
    have hlt : i < packets.length := by omega
    simp only [packetsIn, List.getElem_map, List.getElem_range, List.getElem_take]
    rw [List.drop_take, List.take_take, min_eq_left (by omega), drop_records hlen, List.drop_eq_getElem_cons hlt,
      List.flatMap_cons, List.take_append_of_le_length (by rw [packets[i].property]),
      List.take_of_length_le (by rw [packets[i].property])]

/-- **The channel finds the packets.** Whatever the reads of a stream of packets return, the packets that have come in
whole are the ones that are parsed. -/
theorem channel_receives (packets : List (Packed 1184)) (reads : List (List Byte))
    (hreads : Along Channel.read Channel.Asks ⟨[], []⟩ reads) (hsent : reads.flatten <+: packets.flatMap Subtype.val) :
    (reads.foldl Channel.read ⟨[], []⟩).events =
      (packets.take (reads.flatten.length / 1184)).map fun p => .parse p.val := by
  have hstart : Channel.Holds ⟨[], []⟩ [] := ⟨rfl, rfl⟩
  have hfold : reads.foldl (fun stream got => stream ++ got) [] = reads.flatten := by
    have happ := @List.foldl_append_eq_append (List Byte) Byte reads id []
    rwa [List.map_id, List.nil_append] at happ
  have hstep (c : Channel) (stream got : List Byte) (h : c.Holds stream) (hok : c.Asks got) :
      (c.read got).Holds (stream ++ got) := h.read hok
  have hholds := Along.tracks Channel.Holds hstep reads hstart hreads
  rw [hfold] at hholds
  rw [hholds.2, List.prefix_iff_eq_take.mp hsent, packetsIn_take, List.map_map, ← List.prefix_iff_eq_take.mp hsent]
  rfl

end DebugEvents

end Ps5Debugger

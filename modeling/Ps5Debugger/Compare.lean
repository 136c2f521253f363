import Ps5Debugger.Lib.Bytes
import Ps5Debugger.Lib.Stride

/-!
# The scan comparators

`scan_compare.c` and `scan_compare_simd.c`: the value and compare types of the
staged scanner, the generic comparator `proc_scan_compareValues`, the typed point
comparator of the turbo rescans, and the exact finder of the turbo first scan.

A pointer argument is the list of bytes behind it (`none` is the null pointer); a
comparator reads at most `value_length` bytes of each. Floating-point values are
Lean's `Float32` and `Float`, IEEE 754 as the C types are.
-/

namespace Ps5Debugger

open Lib

/-! ## Value and compare types -/

/-- The value types of the wire protocol. `other` is a string (11) and every larger
code: the server treats them alike. -/
inductive ValType : Type where
  | u8 | i8 | u16 | i16 | u32 | i32 | u64 | i64 | f32 | f64 | arrBytes | other
  deriving DecidableEq, Repr

/-- Decode the `valueType` byte of a request. -/
def ValType.ofByte (b : UInt8) : ValType :=
  match b.toNat with
  | 0 => u8 | 1 => i8 | 2 => u16 | 3 => i16 | 4 => u32 | 5 => i32 | 6 => u64 | 7 => i64
  | 8 => f32 | 9 => f64 | 10 => arrBytes | _ => other

/-- `proc_scan_getSizeOfValueType`: zero for the types whose length is `lenData`. -/
def sizeOfValueType : ValType → Nat
  | .u8 | .i8 => 1
  | .u16 | .i16 => 2
  | .u32 | .i32 | .f32 => 4
  | .u64 | .i64 | .f64 => 8
  | .arrBytes | .other => 0

/-- The integer value types (codes 0 to 7). -/
def ValType.isInteger : ValType → Bool
  | .u8 | .i8 | .u16 | .i16 | .u32 | .i32 | .u64 | .i64 => true
  | _ => false

/-- The floating-point value types. -/
def ValType.isFloat : ValType → Bool
  | .f32 | .f64 => true
  | _ => false

/-- The compare types of the wire protocol, codes 0 to 12. -/
inductive CmpType : Type where
  | exactValue | fuzzyValue | biggerThan | smallerThan | valueBetween
  | increasedValue | increasedValueBy | decreasedValue | decreasedValueBy
  | changedValue | unchangedValue | unknownInitialValue | unknownInitialLowValue
  deriving DecidableEq, Repr

/-- Decode the `compareType` byte; the handlers reject codes above 12. -/
def CmpType.ofByte (b : UInt8) : Option CmpType :=
  match b.toNat with
  | 0 => some exactValue | 1 => some fuzzyValue | 2 => some biggerThan | 3 => some smallerThan
  | 4 => some valueBetween | 5 => some increasedValue | 6 => some increasedValueBy
  | 7 => some decreasedValue | 8 => some decreasedValueBy | 9 => some changedValue
  | 10 => some unchangedValue | 11 => some unknownInitialValue
  | 12 => some unknownInitialLowValue | _ => none

/-- `g_cmptype_needs_value` (and the mask `0x114F` with the between case added): the
compare types that read a scan value. -/
def CmpType.needsValue : CmpType → Bool
  | .exactValue | .fuzzyValue | .biggerThan | .smallerThan | .valueBetween
  | .increasedValueBy | .decreasedValueBy | .unknownInitialLowValue => true
  | _ => false

/-- `g_cmptype_needs_previous`: the compare types that read a previous value. -/
def CmpType.needsPrevious : CmpType → Bool
  | .increasedValue | .increasedValueBy | .decreasedValue | .decreasedValueBy
  | .changedValue | .unchangedValue => true
  | _ => false

/-- `value_length` of a request: the size of the type, or `lenData`. -/
def valueLength (vt : ValType) (lenData : Nat) : Nat :=
  if sizeOfValueType vt = 0 then lenData else sizeOfValueType vt

/-! ## Typed loads -/

/-- A signed little-endian load of `n` bytes. -/
def leInt (n : Nat) (p : List Byte) : Int := (BitVec.ofNat (8 * n) (leNat n p)).toInt

/-- `*(const float *)p`. -/
def leF32 (p : List Byte) : Float32 := Float32.ofBits (UInt32.ofNat (leNat 4 p))

/-- `*(const double *)p`. -/
def leF64 (p : List Byte) : Float := Float.ofBits (UInt64.ofNat (leNat 8 p))

/-- A relational operator at each of the types it is expanded at. -/
structure BinOp where
  /-- at the unsigned types -/
  nat : Nat → Nat → Bool
  /-- at the signed types -/
  int : Int → Int → Bool
  /-- at `float` -/
  f32 : Float32 → Float32 → Bool
  /-- at `double` -/
  f64 : Float → Float → Bool

def opGt : BinOp := ⟨fun a b => decide (a > b), fun a b => decide (a > b),
  fun a b => decide (a > b), fun a b => decide (a > b)⟩

def opLt : BinOp := ⟨fun a b => decide (a < b), fun a b => decide (a < b),
  fun a b => decide (a < b), fun a b => decide (a < b)⟩

def opEq : BinOp := ⟨fun a b => a == b, fun a b => a == b, fun a b => a == b, fun a b => a == b⟩

def opNe : BinOp := ⟨fun a b => a != b, fun a b => a != b, fun a b => a != b, fun a b => a != b⟩

/-- `_PER_VALTYPE_BIN` (and `_SPC_BIN`): one relational operator on two typed loads. -/
def perValTypeBin (op : BinOp) (vt : ValType) (lhs rhs : List Byte) : Bool :=
  match vt with
  | .u8 => op.nat (leNat 1 lhs) (leNat 1 rhs)
  | .i8 => op.int (leInt 1 lhs) (leInt 1 rhs)
  | .u16 => op.nat (leNat 2 lhs) (leNat 2 rhs)
  | .i16 => op.int (leInt 2 lhs) (leInt 2 rhs)
  | .u32 => op.nat (leNat 4 lhs) (leNat 4 rhs)
  | .i32 => op.int (leInt 4 lhs) (leInt 4 rhs)
  | .u64 => op.nat (leNat 8 lhs) (leNat 8 rhs)
  | .i64 => op.int (leInt 8 lhs) (leInt 8 rhs)
  | .f32 => op.f32 (leF32 lhs) (leF32 rhs)
  | .f64 => op.f64 (leF64 lhs) (leF64 rhs)
  | .arrBytes | .other => false

/-- An additive operator at each width it is expanded at. -/
structure ByOp where
  /-- at the integer types: the sum wraps at the width -/
  bits : (w : Nat) → BitVec w → BitVec w → BitVec w
  /-- at `float` -/
  f32 : Float32 → Float32 → Float32
  /-- at `double` -/
  f64 : Float → Float → Float

def opAdd : ByOp := ⟨fun _ a b => a + b, fun a b => a + b, fun a b => a + b⟩

def opSub : ByOp := ⟨fun _ a b => a - b, fun a b => a - b, fun a b => a - b⟩

/-- `mem == (TY)(base OP delta)` at an integer type of `n` bytes. -/
def byInteger (op : ByOp) (n : Nat) (mem base delta : List Byte) : Bool :=
  BitVec.ofNat (8 * n) (leNat n mem) ==
    op.bits (8 * n) (BitVec.ofNat (8 * n) (leNat n base)) (BitVec.ofNat (8 * n) (leNat n delta))

/-- `_PER_VALTYPE_BY` (and `_SPC_BY`). For `double` the delta is read as a `float`. -/
def perValTypeBy (op : ByOp) (vt : ValType) (mem base delta : List Byte) : Bool :=
  match vt with
  | .u8 | .i8 => byInteger op 1 mem base delta
  | .u16 | .i16 => byInteger op 2 mem base delta
  | .u32 | .i32 => byInteger op 4 mem base delta
  | .u64 | .i64 => byInteger op 8 mem base delta
  | .f32 => leF32 mem == op.f32 (leF32 base) (leF32 delta)
  | .f64 => leF64 mem == op.f64 (leF64 base) (leF32 delta).toFloat
  | .arrBytes | .other => false

/-! ## `proc_scan_compareValues` -/

/-- `fuzzy_float_compare`. -/
def fuzzyFloatCompare (scanV memV tolerance : Float32) : Bool :=
  if scanV == memV then true
  else
    let diffD := (scanV - memV).toFloat
    let diff := (if diffD < 0 then -diffD else diffD).toFloat32
    let absScan := if scanV < 0 then -scanV else scanV
    let absMem := if memV < 0 then -memV else memV
    let fltMin : Float32 := 1.17549435e-38
    if scanV == 0 || memV == 0 then decide (fltMin * tolerance > diff)
    else
      let sum := absScan + absMem
      if fltMin > sum then decide (fltMin * tolerance > diff)
      else decide (tolerance > diff / sum)

/-- `fuzzy_double_compare`. -/
def fuzzyDoubleCompare (scanV memV tolerance : Float) : Bool :=
  if scanV == memV then true
  else
    let diffD := scanV - memV
    let diff := if diffD < 0 then -diffD else diffD
    let absScan := if scanV < 0 then -scanV else scanV
    let absMem := if memV < 0 then -memV else memV
    let dblMin : Float := 2.2250738585072014e-308
    if scanV == 0 || memV == 0 then decide (dblMin * tolerance > diff)
    else
      let sum := absScan + absMem
      if dblMin > sum then decide (dblMin * tolerance > diff)
      else decide (tolerance > diff / sum)

/-- The byte loop of the exact comparison. -/
def bytesEqual (n : Nat) (scan mem : List Byte) : Bool :=
  (List.range n).all fun j => scan.getD j 0 == mem.getD j 0

/-- The masked byte loop: a differing byte counts only where the mask byte is 1. -/
def maskedEqual (n : Nat) (scan mem : List Byte) (mask : Option (List Byte)) : Bool :=
  (List.range n).all fun j =>
    scan.getD j 0 == mem.getD j 0 ||
      match mask with
      | none => true
      | some m => m.getD j 0 != 1

/-- `case 0` of the comparator. -/
def compareExact (vt : ValType) (n : Nat) (scan mem : List Byte) (mask : Option (List Byte)) :
    Bool :=
  match vt with
  | .arrBytes => maskedEqual n scan mem mask
  | .f32 =>
    if leNat 4 scan = 0 then leNat 4 mem == 0
    else fuzzyFloatCompare (leF32 scan) (leF32 mem) 1e-6
  | .f64 =>
    if leNat 8 scan = 0 then leNat 8 mem == 0
    else fuzzyDoubleCompare (leF64 scan) (leF64 mem) 1e-6
  | _ => bytesEqual n scan mem

/-- `case 1` of the comparator: within one, at the floating-point types only. -/
def compareFuzzy (vt : ValType) (scan mem : List Byte) : Bool :=
  match vt with
  | .f32 => let diff := leF32 scan - leF32 mem; decide (diff < 1.0) && decide (diff > -1.0)
  | .f64 => let diff := leF64 scan - leF64 mem; decide (diff < 1.0) && decide (diff > -1.0)
  | _ => false

/-- `_BETWEEN_ASYNC`: the bounds may come in either order. -/
def betweenAsync {α : Type} [LT α] [LE α] [DecidableLT α] [DecidableLE α] (mv sv ev : α) : Bool :=
  if ev > sv then decide (mv ≥ sv) && decide (mv ≤ ev) else decide (mv ≤ sv) && decide (mv ≥ ev)

/-- `case 4` of the comparator. -/
def compareBetween (vt : ValType) (scan mem hi : List Byte) : Bool :=
  match vt with
  | .u8 => betweenAsync (leNat 1 mem) (leNat 1 scan) (leNat 1 hi)
  | .i8 => betweenAsync (leInt 1 mem) (leInt 1 scan) (leInt 1 hi)
  | .u16 => betweenAsync (leNat 2 mem) (leNat 2 scan) (leNat 2 hi)
  | .i16 => betweenAsync (leInt 2 mem) (leInt 2 scan) (leInt 2 hi)
  | .u32 => betweenAsync (leNat 4 mem) (leNat 4 scan) (leNat 4 hi)
  | .i32 => betweenAsync (leInt 4 mem) (leInt 4 scan) (leInt 4 hi)
  | .u64 => betweenAsync (leNat 8 mem) (leNat 8 scan) (leNat 8 hi)
  | .i64 => betweenAsync (leInt 8 mem) (leInt 8 scan) (leInt 8 hi)
  | .f32 => betweenAsync (leF32 mem) (leF32 scan) (leF32 hi)
  | .f64 => betweenAsync (leF64 mem) (leF64 scan) (leF64 hi)
  | .arrBytes | .other => false

/-- `case 11` of the comparator: not zero. -/
def compareUnknownInitial (vt : ValType) (mem : List Byte) : Bool :=
  match vt with
  | .u8 | .i8 => leNat 1 mem != 0
  | .u16 | .i16 => leNat 2 mem != 0
  | .u32 | .i32 => leNat 4 mem != 0
  | .u64 | .i64 => leNat 8 mem != 0
  | .f32 => leF32 mem != 0
  | .f64 => leF64 mem != 0
  | .arrBytes | .other => false

/-- `(uint64_t)(int64_t)mv`: sign extension, then read as unsigned. -/
def signExtendU64 (x : Int) : Nat := (BitVec.ofInt 64 x).toNat

/-- `case 12` of the comparator: not zero and at most the scan value, signed values
compared after sign extension to 64 bits. -/
def compareUnknownInitialLow (vt : ValType) (scan mem : List Byte) : Bool :=
  let unsigned (n : Nat) : Bool := leNat n mem != 0 && decide (leNat n mem ≤ leNat n scan)
  let signed (n : Nat) : Bool :=
    leInt n mem != 0 && decide (signExtendU64 (leInt n mem) ≤ signExtendU64 (leInt n scan))
  match vt with
  | .u8 => unsigned 1
  | .i8 => signed 1
  | .u16 => unsigned 2
  | .i16 => signed 2
  | .u32 => unsigned 4
  | .i32 => signed 4
  | .u64 => unsigned 8
  | .i64 => signed 8
  | .f32 =>
    let mv := leF32 mem
    if mv == 0 then false
    else decide ((if mv < 0 then -mv else mv).toFloat ≤ (leF32 scan).toFloat)
  | .f64 =>
    let mv := leF64 mem
    if mv == 0 then false else decide ((if mv < 0 then -mv else mv) ≤ leF64 scan)
  | .arrBytes | .other => false

/-- `proc_scan_compareValues`. Compare types 4 to 10 reject a null previous value. -/
def compareValues (ct : CmpType) (vt : ValType) (n : Nat) (scan mem : List Byte)
    (prev mask : Option (List Byte)) : Bool :=
  match ct, prev with
  | .exactValue, _ => compareExact vt n scan mem mask
  | .fuzzyValue, _ => compareFuzzy vt scan mem
  | .biggerThan, _ => perValTypeBin opGt vt mem scan
  | .smallerThan, _ => perValTypeBin opLt vt mem scan
  | .unknownInitialValue, _ => compareUnknownInitial vt mem
  | .unknownInitialLowValue, _ => compareUnknownInitialLow vt scan mem
  | _, none => false
  | .valueBetween, some p => compareBetween vt scan mem p
  | .increasedValue, some p => perValTypeBin opGt vt mem p
  | .increasedValueBy, some p => perValTypeBy opAdd vt mem p scan
  | .decreasedValue, some p => perValTypeBin opLt vt mem p
  | .decreasedValueBy, some p => perValTypeBy opSub vt mem p scan
  | .changedValue, some p => perValTypeBin opNe vt mem p
  | .unchangedValue, some p => perValTypeBin opEq vt mem p

/-! ## The typed point comparator -/

/-- `scan_point_turbo_supported`. -/
def pointTurboSupported (ct : CmpType) (vt : ValType) : Bool :=
  match vt with
  | .arrBytes | .other => false
  | _ =>
    match ct with
    | .exactValue => vt.isInteger
    | .increasedValue | .increasedValueBy | .decreasedValue | .decreasedValueBy
    | .changedValue | .unchangedValue => true
    | _ => false

/-- `scan_point_compare`. -/
def pointCompare (ct : CmpType) (vt : ValType) (mem scan prev : List Byte) : Bool :=
  match ct with
  | .exactValue => perValTypeBin opEq vt mem scan
  | .increasedValue => perValTypeBin opGt vt mem prev
  | .increasedValueBy => perValTypeBy opAdd vt mem prev scan
  | .decreasedValue => perValTypeBin opLt vt mem prev
  | .decreasedValueBy => perValTypeBy opSub vt mem prev scan
  | .changedValue => perValTypeBin opNe vt mem prev
  | .unchangedValue => perValTypeBin opEq vt mem prev
  | _ => false

theorem bytesEqual_iff {n : Nat} {scan mem : List Byte} :
    bytesEqual n scan mem = true ↔ ∀ j < n, scan.getD j 0 = mem.getD j 0 := by
  simp [bytesEqual]

/-- The byte loop decides equality of the unsigned words. -/
theorem bytesEqual_eq_word (n : Nat) (scan mem : List Byte) :
    bytesEqual n scan mem = (leNat n mem == leNat n scan) := by
  rw [Bool.eq_iff_iff, bytesEqual_iff, beq_iff_eq, eq_comm, leNat_inj]

/-- Signed words are equal exactly when the unsigned ones are. -/
theorem leInt_beq (n : Nat) (p q : List Byte) : (leInt n p == leInt n q) = (leNat n p == leNat n q) := by
  have hp := leNat_lt n p
  have hq := leNat_lt n q
  have hpow : 256 ^ n = 2 ^ (8 * n) := by rw [show 256 = 2 ^ 8 from rfl, ← Nat.pow_mul]
  rw [Bool.eq_iff_iff, beq_iff_eq, beq_iff_eq, leInt, leInt, BitVec.toInt_inj]
  constructor
  · intro h
    have := congrArg BitVec.toNat h
    rwa [BitVec.toNat_ofNat, BitVec.toNat_ofNat, Nat.mod_eq_of_lt (by omega),
      Nat.mod_eq_of_lt (by omega)] at this
  · intro h
    rw [h]

/-- At the integer types the exact case of the point comparator is the byte loop. -/
theorem perValTypeBin_opEq {vt : ValType} (hvt : vt.isInteger = true) (mem scan : List Byte) :
    perValTypeBin opEq vt mem scan = bytesEqual (sizeOfValueType vt) scan mem := by
  cases vt <;> simp only [ValType.isInteger, Bool.false_eq_true] at hvt <;>
    simp only [perValTypeBin, opEq, sizeOfValueType, bytesEqual_eq_word, leInt_beq]

/-- The typed point comparator agrees with the generic one wherever it is used. -/
theorem pointCompare_eq {ct : CmpType} {vt : ValType} (h : pointTurboSupported ct vt = true)
    (mem scan prev : List Byte) (mask : Option (List Byte)) :
    pointCompare ct vt mem scan prev =
      compareValues ct vt (sizeOfValueType vt) scan mem (some prev) mask := by
  cases ct with
  | exactValue =>
    have hvt : vt.isInteger = true := by cases vt <;> simp_all [pointTurboSupported]
    rw [pointCompare, compareValues, perValTypeBin_opEq hvt]
    cases vt <;> simp_all [compareExact, ValType.isInteger]
  | increasedValue | increasedValueBy | decreasedValue | decreasedValueBy | changedValue
  | unchangedValue => rfl
  | _ => cases vt <;> simp [pointTurboSupported] at h

/-! ## The exact finder of the turbo first scan -/

/-- `elem_size`. -/
def elemSize (vt : ValType) : Nat := sizeOfValueType vt

/-- What a finder hands back: how many matches there are, and the offsets it had room
for. -/
structure Found where
  count : Nat
  off : List Nat

/-- All matches counted, the first `maxOut` of them written. -/
def Found.record (matchOff : List Nat) (maxOut : Nat) : Found :=
  ⟨matchOff.length, matchOff.take maxOut⟩

/-- `find_u32_avx2`: eight lanes at a time, then the remaining words one by one. -/
def findU32Avx2 (buf : Buf) (len target maxOut : Nat) : Found :=
  let n := len / 4
  let lane (i : Nat) : Bool := leNat 4 (slice buf (i * 4) 4) == target
  let vector := (List.range (n / 8)).flatMap fun q =>
    ((List.range 8).filter fun b => lane (8 * q + b)).map fun b => (8 * q + b) * 4
  let rest := ((List.range (n % 8)).filter fun t => lane (8 * (n / 8) + t)).map
    fun t => (8 * (n / 8) + t) * 4
  Found.record (vector ++ rest) maxOut

/-- The typed equality of one element. -/
def elemEq (vt : ValType) (m value : List Byte) : Bool :=
  match vt with
  | .f32 => leF32 m == leF32 value
  | .f64 => leF64 m == leF64 value
  | _ => leNat (elemSize vt) m == leNat (elemSize vt) value

/-- `find_scalar`. A type without an element size finds nothing. -/
def findScalar (vt : ValType) (buf : Buf) (len : Nat) (value : List Byte) (step maxOut : Nat) :
    Found :=
  if elemSize vt = 0 ∨ step = 0 ∨ len < elemSize vt then ⟨0, []⟩
  else
    Found.record ((strideUpTo step (len - elemSize vt)).filter fun off =>
      elemEq vt (slice buf off (elemSize vt)) value) maxOut

/-- `scan_simd_find_exact`. -/
def simdFindExact (vt : ValType) (buf : Buf) (len : Nat) (value : List Byte)
    (step maxOut : Nat) : Found :=
  if (vt = .u32 ∨ vt = .i32) ∧ step = 4 then findU32Avx2 buf len (leNat 4 value) maxOut
  else findScalar vt buf len value step maxOut

/-- The lanes of the vector loop and its tail are the words in order. -/
theorem range_eq_lanes (n : Nat) :
    List.range n = (List.range (n / 8)).flatMap (fun q => (List.range 8).map (8 * q + ·)) ++
      (List.range (n % 8)).map (8 * (n / 8) + ·) := by
  have blocks : ∀ m : Nat,
      (List.range m).flatMap (fun q => (List.range 8).map (8 * q + ·)) = List.range (8 * m) := by
    intro m
    induction m with
    | zero => rfl
    | succ m ih =>
      rw [List.range_succ (n := m), List.flatMap_append, ih, List.flatMap_singleton, ← List.range_add,
        Nat.mul_succ]
  rw [blocks, ← List.range_add, Nat.div_add_mod]

theorem findU32Avx2_eq (buf : Buf) (len target maxOut : Nat) :
    findU32Avx2 buf len target maxOut =
      Found.record (((List.range (len / 4)).map (· * 4)).filter
        fun off => leNat 4 (slice buf off 4) == target) maxOut := by
  rw [findU32Avx2]
  congr 1
  rw [range_eq_lanes (len / 4), List.map_append, List.filter_append]
  congr 1
  · rw [List.map_flatMap, List.filter_flatMap]
    apply List.flatMap_congr
    intro q _
    rw [List.map_map, List.filter_map]
    rfl
  · rw [List.map_map, List.filter_map]
    rfl

/-- **The exact finder is a filter of the strided offsets**: at an integer type, with the
step of an aligned scan, it finds the elements whose bytes are those of the value. -/
theorem simdFindExact_integer {vt : ValType} (hvt : vt.isInteger = true) (buf : Buf) (len : Nat)
    (value : List Byte) (maxOut : Nat) :
    simdFindExact vt buf len value (sizeOfValueType vt) maxOut =
      Found.record (if len < sizeOfValueType vt then [] else
        (strideUpTo (sizeOfValueType vt) (len - sizeOfValueType vt)).filter fun off =>
          bytesEqual (sizeOfValueType vt) value (slice buf off (sizeOfValueType vt))) maxOut := by
  have hpos : sizeOfValueType vt ≠ 0 := by cases vt <;> simp_all [ValType.isInteger, sizeOfValueType]
  rw [simdFindExact]
  split
  · next h =>
    -- the vector loop runs over `len / 4` words, the strided loop up to `len - 4`
    have h4 : sizeOfValueType vt = 4 := h.2
    rw [h4, findU32Avx2_eq]
    congr 1
    by_cases hlen : len < 4
    · rw [if_pos hlen, Nat.div_eq_of_lt hlen]
      rfl
    · rw [if_neg hlen, strideUpTo, show (len - 4) / 4 + 1 = len / 4 by omega]
      apply List.filter_congr
      intro off _
      rw [bytesEqual_eq_word]
  · rw [findScalar, elemSize]
    by_cases hlen : len < sizeOfValueType vt
    · rw [if_pos (.inr (.inr hlen)), if_pos hlen]
      simp [Found.record]
    · have hsome : ¬ (sizeOfValueType vt = 0 ∨ sizeOfValueType vt = 0 ∨ len < sizeOfValueType vt) := by
        omega
      rw [if_neg hsome, if_neg hlen]
      congr 1
      apply List.filter_congr
      intro off _
      rw [bytesEqual_eq_word]
      cases vt <;> simp_all [ValType.isInteger, elemEq, elemSize]

/-- A type without an element size is never found. -/
theorem simdFindExact_unsized {vt : ValType} (hvt : sizeOfValueType vt = 0) (buf : Buf)
    (len : Nat) (value : List Byte) (step maxOut : Nat) :
    simdFindExact vt buf len value step maxOut = ⟨0, []⟩ := by
  have hne : ¬ ((vt = .u32 ∨ vt = .i32) ∧ step = 4) := by
    rintro ⟨rfl | rfl, -⟩ <;> simp [sizeOfValueType] at hvt
  rw [simdFindExact, if_neg hne, findScalar, if_pos (.inl hvt)]

end Ps5Debugger

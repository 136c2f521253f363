import Ps5Debugger.Lib.CInt
import Ps5Debugger.Compare
import Mathlib.Tactic.IntervalCases

/-!
# The point comparator, type by type

`scan_point_compare` expands two macros at each type: a relation of two loads, and a load that equals a sum or
a difference, computed at the type that C promotes its operands to. The codes of the request select them.

`scanPointCompare_eq`: wherever `scan_point_turbo_supported` accepts the codes, this is the generic comparator.
-/

namespace Ps5Debugger

open Lib

namespace PointCompare

/-! ## The macros -/

/-- The operators that `_SPC_BIN` is expanded with. -/
inductive RelOp where
  | eq | gt | lt | ne

/-- The relation of two integers. -/
def RelOp.int : RelOp → Int → Int → Bool
  | .eq, a, b => a == b
  | .gt, a, b => decide (a > b)
  | .lt, a, b => decide (a < b)
  | .ne, a, b => a != b

def RelOp.float : RelOp → Float32 → Float32 → Bool
  | .eq, a, b => a == b
  | .gt, a, b => decide (a > b)
  | .lt, a, b => decide (a < b)
  | .ne, a, b => a != b

def RelOp.double : RelOp → Float → Float → Bool
  | .eq, a, b => a == b
  | .gt, a, b => decide (a > b)
  | .lt, a, b => decide (a < b)
  | .ne, a, b => a != b

/-- The operators that `_SPC_BY` is expanded with. -/
inductive AddOp where
  | add | sub

/-- The result for two integers, before it is brought into a type. -/
def AddOp.int : AddOp → Int → Int → Int
  | .add, a, b => a + b
  | .sub, a, b => a - b

def AddOp.float : AddOp → Float32 → Float32 → Float32
  | .add, a, b => a + b
  | .sub, a, b => a - b

def AddOp.double : AddOp → Float → Float → Float
  | .add, a, b => a + b
  | .sub, a, b => a - b

def uint8 : CIntType := ⟨1, false⟩
def int8 : CIntType := ⟨1, true⟩
def uint16 : CIntType := ⟨2, false⟩
def int16 : CIntType := ⟨2, true⟩
def uint32 : CIntType := ⟨4, false⟩
def int32 : CIntType := ⟨4, true⟩
def uint64 : CIntType := ⟨8, false⟩
def int64 : CIntType := ⟨8, true⟩

/-- `_SPC_BIN` -/
def spcBin (op : RelOp) (valType : UInt8) (lhs rhs : List Byte) : Bool :=
  match valType.toNat with
  | 0 => op.int (uint8.load lhs) (uint8.load rhs)
  | 1 => op.int (int8.load lhs) (int8.load rhs)
  | 2 => op.int (uint16.load lhs) (uint16.load rhs)
  | 3 => op.int (int16.load lhs) (int16.load rhs)
  | 4 => op.int (uint32.load lhs) (uint32.load rhs)
  | 5 => op.int (int32.load lhs) (int32.load rhs)
  | 6 => op.int (uint64.load lhs) (uint64.load rhs)
  | 7 => op.int (int64.load lhs) (int64.load rhs)
  | 8 => op.float (leF32 lhs) (leF32 rhs)
  | 9 => op.double (leF64 lhs) (leF64 rhs)
  | _ => false

/-- `base OP delta` at a type: the result has the type that the operands are promoted to. -/
def arith (t : CIntType) (op : AddOp) (base delta : List Byte) : Int :=
  t.promoted.conv (op.int (t.load base) (t.load delta))

/-- `_SPC_BY`: with a cast to the type where it is narrower than `int`. -/
def spcBy (op : AddOp) (valType : UInt8) (mem base delta : List Byte) : Bool :=
  match valType.toNat with
  | 0 => uint8.load mem == uint8.conv (arith uint8 op base delta)
  | 1 => int8.load mem == int8.conv (arith int8 op base delta)
  | 2 => uint16.load mem == uint16.conv (arith uint16 op base delta)
  | 3 => int16.load mem == int16.conv (arith int16 op base delta)
  | 4 => uint32.load mem == arith uint32 op base delta
  | 5 => int32.load mem == arith int32 op base delta
  | 6 => uint64.load mem == arith uint64 op base delta
  | 7 => int64.load mem == arith int64 op base delta
  | 8 => leF32 mem == op.float (leF32 base) (leF32 delta)
  | 9 => leF64 mem == op.double (leF64 base) (leF32 delta).toFloat
  | _ => false

/-! ## The comparator -/

/-- `scan_point_turbo_supported` -/
def scanPointTurboSupported (cmpType valType : UInt8) : Bool :=
  if valType.toNat > 9 then false
  else
    match cmpType.toNat with
    | 0 => decide (valType.toNat ≤ 7)
    | 5 | 6 | 7 | 8 | 9 | 10 => true
    | _ => false

/-- `scan_point_compare` -/
def scanPointCompare (cmpType valType : UInt8) (mem scan prev : List Byte) : Bool :=
  match cmpType.toNat with
  | 0 => spcBin .eq valType mem scan
  | 5 => spcBin .gt valType mem prev
  | 6 => spcBy .add valType mem prev scan
  | 7 => spcBin .lt valType mem prev
  | 8 => spcBy .sub valType mem prev scan
  | 9 => spcBin .ne valType mem prev
  | 10 => spcBin .eq valType mem prev
  | _ => false

/-- `proc_scan_compareValues`, by the codes of a request. -/
def procScanCompareValues (cmpType valType : UInt8) (valueLength : Nat) (scan mem : List Byte)
    (prev mask : Option (List Byte)) : Bool :=
  match CmpType.ofByte cmpType with
  | some ct => compareValues ct (ValType.ofByte valType) valueLength scan mem prev mask
  | none => false

/-! ## The macros of both comparators -/

/-- The operator as the generic comparator has it. -/
def RelOp.generic : RelOp → BinOp
  | .eq => opEq
  | .gt => opGt
  | .lt => opLt
  | .ne => opNe

def AddOp.generic : AddOp → ByOp
  | .add => opAdd
  | .sub => opSub

variable (mem scan base delta prev : List Byte)

theorem RelOp.int_nat (op : RelOp) (a b : Nat) : op.int a b = op.generic.nat a b := by
  cases op with
  | eq => exact Bool.eq_iff_iff.mpr (by simp [RelOp.int, RelOp.generic, opEq])
  | gt => exact Bool.eq_iff_iff.mpr (by simp [RelOp.int, RelOp.generic, opGt])
  | lt => exact Bool.eq_iff_iff.mpr (by simp [RelOp.int, RelOp.generic, opLt])
  | ne => exact Bool.eq_iff_iff.mpr (by simp [RelOp.int, RelOp.generic, opNe])

theorem RelOp.int_eq (op : RelOp) (a b : Int) : op.int a b = op.generic.int a b := by
  cases op <;> rfl

theorem load_unsigned (n : Nat) : CIntType.load ⟨n, false⟩ mem = leNat n mem := by
  have hlt := leNat_lt n mem
  have hpow : 256 ^ n = 2 ^ (8 * n) := by rw [show 256 = 2 ^ 8 from rfl, ← Nat.pow_mul]
  rw [CIntType.load, CIntType.value, if_neg Bool.false_ne_true, CIntType.bits, BitVec.toNat_ofNat]
  exact congrArg Nat.cast (Nat.mod_eq_of_lt (hpow ▸ hlt))

/-- The codes of the numeric types. -/
theorem valType_cases {valType : UInt8} (h : valType.toNat ≤ 9) :
    valType = 0 ∨ valType = 1 ∨ valType = 2 ∨ valType = 3 ∨ valType = 4 ∨ valType = 5 ∨ valType = 6 ∨ valType = 7 ∨
      valType = 8 ∨ valType = 9 := by
  rw [← @UInt8.ofNat_toNat valType]
  interval_cases valType.toNat <;> simp

variable {valType : UInt8}

/-- `_SPC_BIN` is `_PER_VALTYPE_BIN`. -/
theorem spcBin_eq (op : RelOp) (h : valType.toNat ≤ 9) :
    spcBin op valType mem scan = perValTypeBin op.generic (ValType.ofByte valType) mem scan := by
  have unsigned (n : Nat) : op.int (CIntType.load ⟨n, false⟩ mem) (CIntType.load ⟨n, false⟩ scan) =
      op.generic.nat (leNat n mem) (leNat n scan) := by
    rw [load_unsigned, load_unsigned, RelOp.int_nat]
  have signed (n : Nat) : op.int (CIntType.load ⟨n, true⟩ mem) (CIntType.load ⟨n, true⟩ scan) =
      op.generic.int (leInt n mem) (leInt n scan) := op.int_eq _ _
  rcases valType_cases h with rfl | rfl | rfl | rfl | rfl | rfl | rfl | rfl | rfl | rfl
  · exact unsigned 1
  · exact signed 1
  · exact unsigned 2
  · exact signed 2
  · exact unsigned 4
  · exact signed 4
  · exact unsigned 8
  · exact signed 8
  · cases op <;> rfl
  · cases op <;> rfl

/-- A sum or a difference at a type is that of the bits. -/
theorem by_eq (op : AddOp) (t : CIntType) :
    (t.load mem == t.conv (op.int (t.load base) (t.load delta))) = byInteger op.generic t.bytes mem base delta := by
  have hbits : t.conv (op.int (t.load base) (t.load delta)) =
      t.value (op.generic.bits t.width (t.bits base) (t.bits delta)) := by
    cases op with
    | add => exact (t.value_add _ _).symm
    | sub => exact (t.value_sub _ _).symm
  rw [hbits, Bool.eq_iff_iff, beq_iff_eq, CIntType.load, CIntType.value_inj, byInteger, beq_iff_eq]
  rfl

/-- `_SPC_BY` is `_PER_VALTYPE_BY`. -/
theorem spcBy_eq (op : AddOp) (h : valType.toNat ≤ 9) :
    spcBy op valType mem base delta = perValTypeBy op.generic (ValType.ofByte valType) mem base delta := by
  -- what is computed at `int` is cast back
  have narrow (t : CIntType) : (t.load mem == t.conv (arith t op base delta)) =
      byInteger op.generic t.bytes mem base delta := by
    rw [arith, t.conv_promoted_conv, by_eq]
  -- a type that is not narrower is not promoted
  have wide (t : CIntType) (ht : t.promoted = t) : (t.load mem == arith t op base delta) =
      byInteger op.generic t.bytes mem base delta := by
    rw [arith, ht, by_eq]
  rcases valType_cases h with rfl | rfl | rfl | rfl | rfl | rfl | rfl | rfl | rfl | rfl
  · exact narrow uint8
  · exact narrow int8
  · exact narrow uint16
  · exact narrow int16
  · exact wide uint32 rfl
  · exact wide int32 rfl
  · exact wide uint64 rfl
  · exact wide int64 rfl
  · cases op <;> rfl
  · cases op <;> rfl

/-! ## The comparators agree -/

variable {cmpType : UInt8}

/-- The pairs of codes that are supported. -/
theorem supported_cases (h : scanPointTurboSupported cmpType valType = true) :
    valType.toNat ≤ 9 ∧ (cmpType = 0 ∧ valType.toNat ≤ 7 ∨ cmpType = 5 ∨ cmpType = 6 ∨ cmpType = 7 ∨ cmpType = 8 ∨
      cmpType = 9 ∨ cmpType = 10) := by
  rw [scanPointTurboSupported] at h
  split at h
  · cases h
  · rename_i hnum
    refine ⟨Nat.le_of_not_lt hnum, ?_⟩
    rw [← @UInt8.ofNat_toNat cmpType]
    split at h
    · rename_i hcode
      rw [hcode]
      exact .inl ⟨rfl, of_decide_eq_true h⟩
    all_goals first | (rename_i hcode; rw [hcode]; simp) | cases h

/-- At an integer type the exact comparison is the byte loop. -/
theorem compareExact_integer (h : valType.toNat ≤ 7) (mask : Option (List Byte)) :
    perValTypeBin opEq (ValType.ofByte valType) mem scan =
      compareExact (ValType.ofByte valType) (sizeOfValueType (ValType.ofByte valType)) scan mem mask := by
  have hinteger : (ValType.ofByte valType).isInteger = true ∧ ∀ n, compareExact (ValType.ofByte valType) n scan mem mask =
      bytesEqual n scan mem := by
    rcases valType_cases (h.trans (by decide)) with rfl | rfl | rfl | rfl | rfl | rfl | rfl | rfl | rfl | rfl
    iterate 8
      · exact ⟨rfl, fun _ => rfl⟩
    · exact absurd h (by decide)
    · exact absurd h (by decide)
  rw [perValTypeBin_opEq hinteger.1, hinteger.2]

/-- The fast comparator is the generic one, with a previous value and the length of the type. -/
theorem scanPointCompare_eq (h : scanPointTurboSupported cmpType valType = true) (mask : Option (List Byte)) :
    scanPointCompare cmpType valType mem scan prev = procScanCompareValues cmpType valType
      (sizeOfValueType (ValType.ofByte valType)) scan mem (some prev) mask := by
  obtain ⟨hnum, hcmp⟩ := supported_cases h
  rcases hcmp with ⟨rfl, hint⟩ | rfl | rfl | rfl | rfl | rfl | rfl
  · exact (spcBin_eq mem scan .eq hnum).trans (compareExact_integer mem scan hint mask)
  · exact spcBin_eq mem prev .gt hnum
  · exact spcBy_eq mem prev scan .add hnum
  · exact spcBin_eq mem prev .lt hnum
  · exact spcBy_eq mem prev scan .sub hnum
  · exact spcBin_eq mem prev .ne hnum
  · exact spcBin_eq mem prev .eq hnum

end PointCompare

end Ps5Debugger

import Ps5Debugger.Compare

/-!
# The comparisons of the client

`MemoryScannerView.kt` rescans on its own: it fetches the values at the candidates of an
earlier scan and decides with `evaluateCandidateMatch` which of them survive. The server
decides the same question with `proc_scan_compareValues`, so the two are two versions of one
comparator, written in two languages. This module embeds the client's and says for which
inputs the two answer alike.

A read of a `BinaryBuffer` past its end throws, and `evaluateCandidateMatch` answers `false`
to every exception: the readers return an `Option`, and `none` is an exception on its way to
that handler.
-/

namespace Ps5Debugger

open Lib

namespace ScannerView

/-! ## `BinaryBuffer` -/

/-- `readUByte`, `readUShort`, `readUInt` of a fresh buffer. -/
def readUnsigned (n : Nat) (bytes : List Byte) : Option Int :=
  if n ≤ bytes.length then some (leNat n bytes : Int) else none

/-- `readByte`, `readShort`, `readInt`, `readLong` of a fresh buffer. -/
def readSigned (n : Nat) (bytes : List Byte) : Option Int :=
  if n ≤ bytes.length then some (leInt n bytes) else none

/-- `readFloat`. -/
def readFloat (bytes : List Byte) : Option Float32 :=
  if 4 ≤ bytes.length then some (leF32 bytes) else none

/-- `readDouble`. -/
def readDouble (bytes : List Byte) : Option Float :=
  if 8 ≤ bytes.length then some (leF64 bytes) else none

/-! ## Floating-point comparisons -/

/-- `Float.compareTo`: a total order, with the bits deciding where `<` and `>` do not. -/
def compareFloat (a b : Float32) : Ordering :=
  if a < b then .lt else if a > b then .gt
  else compare (BitVec.ofNat 32 a.toBits.toNat).toInt (BitVec.ofNat 32 b.toBits.toNat).toInt

/-- `Double.compareTo`. -/
def compareDouble (a b : Float) : Ordering :=
  if a < b then .lt else if a > b then .gt
  else compare (BitVec.ofNat 64 a.toBits.toNat).toInt (BitVec.ofNat 64 b.toBits.toNat).toInt

/-- `fuzzyFloatCompare`. `Float.MIN_VALUE` is the least positive number, not the least normal one. -/
def fuzzyFloatCompare (scanV memV tolerance : Float32) : Bool :=
  if scanV == memV then true
  else
    let diff := (scanV - memV).abs
    let fltMin := Float32.ofBits 1
    if scanV == 0 || memV == 0 then decide (fltMin * tolerance > diff)
    else
      let sum := scanV.abs + memV.abs
      if fltMin > sum then decide (fltMin * tolerance > diff)
      else decide (tolerance > diff / sum)

/-- `fuzzyDoubleCompare`. -/
def fuzzyDoubleCompare (scanV memV tolerance : Float) : Bool :=
  if scanV == memV then true
  else
    let diff := (scanV - memV).abs
    let dblMin := Float.ofBits 1
    if scanV == 0 || memV == 0 then decide (dblMin * tolerance > diff)
    else
      let sum := scanV.abs + memV.abs
      if dblMin > sum then decide (dblMin * tolerance > diff)
      else decide (tolerance > diff / sum)

/-! ## `compareBinary`, `checkBetween`, `checkDelta` -/

/-- `java.lang.Long.compareUnsigned`. -/
def compareUnsigned (a b : Int) : Ordering := compare (signExtendU64 a) (signExtendU64 b)

/-- One branch of `compareBinary`: read both values, compare, look at the sign. -/
def comparing {α : Type} (read : List Byte → Option α) (cmp : α → α → Ordering) (op : Ordering → Bool)
    (memVal otherVal : List Byte) : Option Bool := do
  let m ← read memVal
  let o ← read otherVal
  return op (cmp m o)

/-- `compareBinary`. -/
def compareBinary (memVal otherVal : List Byte) (vtVal : ValType) (op : Ordering → Bool) : Option Bool :=
  if memVal.isEmpty || otherVal.isEmpty then some false
  else
    match vtVal with
    | .u8 => comparing (readUnsigned 1) compare op memVal otherVal
    | .i8 => comparing (readSigned 1) compare op memVal otherVal
    | .u16 => comparing (readUnsigned 2) compare op memVal otherVal
    | .i16 => comparing (readSigned 2) compare op memVal otherVal
    | .u32 => comparing (readUnsigned 4) compare op memVal otherVal
    | .i32 => comparing (readSigned 4) compare op memVal otherVal
    | .u64 => comparing (readSigned 8) compareUnsigned op memVal otherVal
    | .i64 => comparing (readSigned 8) compare op memVal otherVal
    | .f32 => comparing readFloat compareFloat op memVal otherVal
    | .f64 => comparing readDouble compareDouble op memVal otherVal
    | .arrBytes | .other => some false

/-- One branch of `checkBetween`: `mv in sv..ev` or `mv in ev..sv`, whichever way the bounds lie. -/
def inRange {α : Type} [LT α] [LE α] [DecidableLT α] [DecidableLE α] (read : List Byte → Option α)
    (memVal lowVal highVal : List Byte) : Option Bool := do
  let mv ← read memVal
  let sv ← read lowVal
  let ev ← read highVal
  return if ev > sv then decide (sv ≤ mv) && decide (mv ≤ ev) else decide (ev ≤ mv) && decide (mv ≤ sv)

/-- The `UInt64` branch of `checkBetween`, through `compareUnsigned`. -/
def inRangeUnsigned (memVal lowVal highVal : List Byte) : Option Bool := do
  let mv ← readSigned 8 memVal
  let sv ← readSigned 8 lowVal
  let ev ← readSigned 8 highVal
  return if compareUnsigned ev sv == .gt then compareUnsigned mv sv != .lt && compareUnsigned mv ev != .gt
    else compareUnsigned mv ev != .lt && compareUnsigned mv sv != .gt

/-- `checkBetween`. -/
def checkBetween (memVal lowVal highVal : List Byte) (vtVal : ValType) : Option Bool :=
  if memVal.isEmpty || lowVal.isEmpty || highVal.isEmpty then some false
  else
    match vtVal with
    | .u8 => inRange (readUnsigned 1) memVal lowVal highVal
    | .i8 => inRange (readSigned 1) memVal lowVal highVal
    | .u16 => inRange (readUnsigned 2) memVal lowVal highVal
    | .i16 => inRange (readSigned 2) memVal lowVal highVal
    | .u32 => inRange (readUnsigned 4) memVal lowVal highVal
    | .i32 => inRange (readSigned 4) memVal lowVal highVal
    | .u64 => inRangeUnsigned memVal lowVal highVal
    | .i64 => inRange (readSigned 8) memVal lowVal highVal
    | .f32 => inRange readFloat memVal lowVal highVal
    | .f64 => inRange readDouble memVal lowVal highVal
    | .arrBytes | .other => some false

/-- The result of an addition cut to an unsigned type by a mask. -/
def maskTo (n : Nat) (x : Int) : Int := x % 256 ^ n

/-- The result of an addition as `toByte`, `toShort` and the arithmetic of `Int` and `Long` leave it. -/
def wrapTo (n : Nat) (x : Int) : Int := (BitVec.ofInt (8 * n) x).toInt

/-- One branch of `checkDelta`: `m == expected`. -/
def stepsBy (read : List Byte → Option Int) (cut : Int → Int) (isAdd : Bool)
    (memVal prevVal deltaVal : List Byte) : Option Bool := do
  let m ← read memVal
  let p ← read prevVal
  let d ← read deltaVal
  return m == cut (if isAdd then p + d else p - d)

/-- `checkDelta`. -/
def checkDelta (memVal prevVal deltaVal : List Byte) (vtVal : ValType) (isAdd : Bool) : Option Bool :=
  if memVal.isEmpty || prevVal.isEmpty || deltaVal.isEmpty then some false
  else
    match vtVal with
    | .u8 => stepsBy (readUnsigned 1) (maskTo 1) isAdd memVal prevVal deltaVal
    | .i8 => stepsBy (readSigned 1) (wrapTo 1) isAdd memVal prevVal deltaVal
    | .u16 => stepsBy (readUnsigned 2) (maskTo 2) isAdd memVal prevVal deltaVal
    | .i16 => stepsBy (readSigned 2) (wrapTo 2) isAdd memVal prevVal deltaVal
    | .u32 => stepsBy (readUnsigned 4) (maskTo 4) isAdd memVal prevVal deltaVal
    | .i32 => stepsBy (readSigned 4) (wrapTo 4) isAdd memVal prevVal deltaVal
    | .u64 | .i64 => stepsBy (readSigned 8) (wrapTo 8) isAdd memVal prevVal deltaVal
    | .f32 => do
      let m ← readFloat memVal
      let p ← readFloat prevVal
      let d ← readFloat deltaVal
      return fuzzyFloatCompare (if isAdd then p + d else p - d) m 1e-6
    | .f64 => do
      let m ← readDouble memVal
      let p ← readDouble prevVal
      let d ← if deltaVal.length ≥ 8 then readDouble deltaVal
        else if deltaVal.length ≥ 4 then (readFloat deltaVal).map Float32.toFloat else some 0
      return fuzzyDoubleCompare (if isAdd then p + d else p - d) m 1e-6
    | .arrBytes | .other => some false

/-! ## `evaluateCandidateMatch` -/

/-- Whether a difference at byte `j` counts: where the mask byte is 1, and everywhere when there is
no mask. -/
def maskCounts (maskVal : Option (List Byte)) (j : Nat) : Bool :=
  match maskVal with
  | none => true
  | some m => decide (j < m.length) && m.getD j 0 == 1

/-- Case 0 with a string or a hex mask. -/
def matchesMasked (memVal scanVal : List Byte) (maskVal : Option (List Byte)) : Bool :=
  if scanVal.isEmpty then true
  else (List.range (min memVal.length scanVal.length)).all fun j =>
    scanVal.getD j 0 == memVal.getD j 0 || !maskCounts maskVal j

/-- Case 0. -/
def matchesExact (vtVal : ValType) (memVal scanVal : List Byte) (maskVal : Option (List Byte)) :
    Option Bool :=
  match vtVal with
  | .arrBytes => some (matchesMasked memVal scanVal maskVal)
  | .f32 => do
    let sBits ← readSigned 4 scanVal
    let mBits ← readSigned 4 memVal
    return if sBits == 0 then mBits == 0
      else fuzzyFloatCompare (leF32 scanVal) (leF32 memVal) 1e-6
  | .f64 => do
    let sBits ← readSigned 8 scanVal
    let mBits ← readSigned 8 memVal
    return if sBits == 0 then mBits == 0
      else fuzzyDoubleCompare (leF64 scanVal) (leF64 memVal) 1e-6
  | _ => some ((List.range (min memVal.length scanVal.length)).all fun j =>
      memVal.getD j 0 == scanVal.getD j 0)

/-- Case 1. -/
def matchesFuzzy (vtVal : ValType) (memVal scanVal : List Byte) : Option Bool :=
  match vtVal with
  | .f32 => do
    let diff := (← readFloat scanVal) - (← readFloat memVal)
    return decide (diff < 1.0) && decide (diff > -1.0)
  | .f64 => do
    let diff := (← readDouble scanVal) - (← readDouble memVal)
    return decide (diff < 1.0) && decide (diff > -1.0)
  | _ => some false

/-- `evaluateCandidateMatch`; an exception counts as no match. -/
def evaluateCandidateMatch (ctVal : CmpType) (vtVal : ValType) (memVal prevVal scanVal : List Byte)
    (extraVal maskVal : Option (List Byte)) : Bool :=
  Option.getD (match ctVal with
    | .exactValue => matchesExact vtVal memVal scanVal maskVal
    | .fuzzyValue => matchesFuzzy vtVal memVal scanVal
    | .biggerThan => compareBinary memVal scanVal vtVal (· == .gt)
    | .smallerThan => compareBinary memVal scanVal vtVal (· == .lt)
    | .valueBetween =>
      match extraVal with
      | none => some false
      | some extra => checkBetween memVal scanVal extra vtVal
    | .increasedValue => compareBinary memVal prevVal vtVal (· == .gt)
    | .increasedValueBy => checkDelta memVal prevVal scanVal vtVal true
    | .decreasedValue => compareBinary memVal prevVal vtVal (· == .lt)
    | .decreasedValueBy => checkDelta memVal prevVal scanVal vtVal false
    | .changedValue => some (memVal != prevVal)
    | .unchangedValue => some (memVal == prevVal)
    | .unknownInitialValue => some (memVal.any (· != 0))
    | .unknownInitialLowValue =>
      if memVal.all (· == 0) then some false
      else compareBinary memVal scanVal vtVal (· != .gt)) false

/-! ## Reading a value of its own length -/

section Reading

variable {n : Nat} {p q : List Byte}

theorem readUnsigned_eq (h : p.length = n) : readUnsigned n p = some (leNat n p : Int) := by
  rw [readUnsigned, if_pos (le_of_eq h.symm)]

theorem readSigned_eq (h : p.length = n) : readSigned n p = some (leInt n p) := by
  rw [readSigned, if_pos (le_of_eq h.symm)]

/-- The bits of a value, of which both loads are readings. -/
def word (n : Nat) (p : List Byte) : BitVec (8 * n) := BitVec.ofNat (8 * n) (leNat n p)

theorem leNat_eq_word (n : Nat) (p : List Byte) : leNat n p = (word n p).toNat := by
  have hlt : leNat n p < 2 ^ (8 * n) := by
    rw [Nat.pow_mul]
    exact leNat_lt n p
  rw [word, BitVec.toNat_ofNat, Nat.mod_eq_of_lt hlt]

theorem leInt_eq_word (n : Nat) (p : List Byte) : leInt n p = (word n p).toInt := rfl

theorem signExtendU64_leInt (p : List Byte) : signExtendU64 (leInt 8 p) = leNat 8 p := by
  rw [signExtendU64, leInt_eq_word, leNat_eq_word]
  exact congrArg BitVec.toNat BitVec.ofInt_toInt

/-- Values of one length are equal exactly when their words are. -/
theorem word_inj (hp : p.length = n) (hq : q.length = n) : word n p = word n q ↔ p = q := by
  rw [← BitVec.toNat_inj, ← leNat_eq_word, ← leNat_eq_word, leNat_inj]
  constructor
  · intro h
    apply List.ext_getElem (hp.trans hq.symm)
    intro j hj hj'
    have := h j (by omega)
    rwa [List.getD_eq_getElem?_getD, List.getD_eq_getElem?_getD, List.getElem?_eq_getElem hj,
      List.getElem?_eq_getElem hj'] at this
  · rintro rfl j _
    rfl

theorem beq_eq_leNat_beq (hp : p.length = n) (hq : q.length = n) : (p == q) = (leNat n p == leNat n q) := by
  rw [Bool.eq_iff_iff, beq_iff_eq, beq_iff_eq, leNat_eq_word, leNat_eq_word, BitVec.toNat_inj, word_inj hp hq]

/-- The word of zero bytes, and of no others, is zero. -/
theorem all_zero_iff (hp : p.length = n) : (∀ b ∈ p, b = 0) ↔ leNat n p = 0 := by
  have hzero : leNat n (List.replicate n 0) = 0 := by
    clear hp
    induction n with
    | zero => rfl
    | succ n ih => rw [List.replicate_succ, leNat, List.tail_cons, ih]; rfl
  rw [← hzero, leNat_eq_word, leNat_eq_word, BitVec.toNat_inj, word_inj hp List.length_replicate,
    List.eq_replicate_iff]
  exact ⟨fun h => ⟨hp, h⟩, fun h => h.2⟩

end Reading

/-! ## One branch at a time -/

section Branches

variable {n : Nat} {mem other third : List Byte}

theorem gt_iff (a b : Int) : (compare a b == .gt) = decide (a > b) := by
  rw [Bool.eq_iff_iff, beq_iff_eq, decide_eq_true_iff, compare_gt_iff_gt]

theorem lt_iff (a b : Int) : (compare a b == .lt) = decide (a < b) := by
  rw [Bool.eq_iff_iff, beq_iff_eq, decide_eq_true_iff, compare_lt_iff_lt]

theorem le_iff (a b : Int) : (compare a b != .gt) = decide (a ≤ b) := by
  rw [bne, gt_iff, Bool.eq_iff_iff, Bool.not_eq_true', decide_eq_false_iff_not, decide_eq_true_iff, not_lt]

theorem ge_iff (a b : Int) : (compare a b != .lt) = decide (b ≤ a) := by
  rw [bne, lt_iff, Bool.eq_iff_iff, Bool.not_eq_true', decide_eq_false_iff_not, decide_eq_true_iff, not_lt]

theorem compareUnsigned_leInt (p q : List Byte) :
    compareUnsigned (leInt 8 p) (leInt 8 q) = compare (leNat 8 p : Int) (leNat 8 q : Int) := by
  rw [compareUnsigned, signExtendU64_leInt, signExtendU64_leInt]
  rcases Nat.lt_trichotomy (leNat 8 p) (leNat 8 q) with h | h | h
  · rw [Nat.compare_eq_lt.mpr h, Int.compare_eq_lt.mpr (by omega)]
  · rw [Nat.compare_eq_eq.mpr h, Int.compare_eq_eq.mpr (by omega)]
  · rw [Nat.compare_eq_gt.mpr h, Int.compare_eq_gt.mpr (by omega)]

/-- A branch of `compareBinary`. -/
theorem comparing_of {α : Type} {read : List Byte → Option α} {cmp : α → α → Ordering} {op : Ordering → Bool} {x y : α}
    (hm : read mem = some x) (ho : read other = some y) : comparing read cmp op mem other = some (op (cmp x y)) := by
  rw [comparing, hm, ho]
  rfl

/-- A signed branch of `checkBetween`. -/
theorem inRange_signed (hm : mem.length = n) (ho : other.length = n) (ht : third.length = n) :
    inRange (readSigned n) mem other third = some (betweenAsync (leInt n mem) (leInt n other) (leInt n third)) := by
  rw [inRange, readSigned_eq hm, readSigned_eq ho, readSigned_eq ht, betweenAsync,
    Bool.and_comm (decide (leInt n mem ≤ _))]
  rfl

/-- An unsigned branch. -/
theorem inRange_unsigned (hm : mem.length = n) (ho : other.length = n) (ht : third.length = n) :
    inRange (readUnsigned n) mem other third = some (betweenAsync (leNat n mem) (leNat n other) (leNat n third)) := by
  have hcast : betweenAsync (leNat n mem : Int) (leNat n other) (leNat n third) =
      betweenAsync (leNat n mem) (leNat n other) (leNat n third) := by
    simp only [betweenAsync, gt_iff_lt, ge_iff_le, Int.ofNat_lt, Int.ofNat_le]
  rw [inRange, readUnsigned_eq hm, readUnsigned_eq ho, readUnsigned_eq ht, ← hcast, betweenAsync,
    Bool.and_comm (decide ((leNat n mem : Int) ≤ _))]
  rfl

/-- The branch that compares bit patterns. -/
theorem inRangeUnsigned_eq (hm : mem.length = 8) (ho : other.length = 8) (ht : third.length = 8) :
    inRangeUnsigned mem other third = some (betweenAsync (leNat 8 mem) (leNat 8 other) (leNat 8 third)) := by
  rw [← inRange_unsigned hm ho ht, inRangeUnsigned, inRange, readSigned_eq hm, readSigned_eq ho, readSigned_eq ht,
    readUnsigned_eq hm, readUnsigned_eq ho, readUnsigned_eq ht]
  simp only [Option.bind_eq_bind, Option.bind_some, compareUnsigned_leInt, le_iff, ge_iff, gt_iff, decide_eq_true_eq]

/-- An unsigned cut is the word of the exact result. -/
theorem maskTo_eq (n : Nat) (x : Int) : maskTo n x = ((BitVec.ofInt (8 * n) x).toNat : Int) := by
  have hpow : ((2 ^ (8 * n) : Nat) : Int) = 256 ^ n := by rw [Nat.pow_mul]; norm_cast
  rw [maskTo, BitVec.toNat_ofInt, hpow, Int.toNat_of_nonneg (Int.emod_nonneg _ (by positivity))]

theorem ofInt_step {w : Nat} (isAdd : Bool) (p d : Int) :
    BitVec.ofInt w (if isAdd then p + d else p - d) =
      (if isAdd then opAdd else opSub).bits w (BitVec.ofInt w p) (BitVec.ofInt w d) := by
  cases isAdd
  · simp [opSub, Int.sub_eq_add_neg, BitVec.ofInt_add, BitVec.ofInt_neg, BitVec.sub_eq_add_neg]
  · simp [opAdd, BitVec.ofInt_add]

/-- The unsigned branches of `checkDelta` are the server's. -/
theorem stepsBy_unsigned (isAdd : Bool) (hm : mem.length = n) (ho : other.length = n)
    (ht : third.length = n) :
    stepsBy (readUnsigned n) (maskTo n) isAdd mem other third =
      some (byInteger (if isAdd then opAdd else opSub) n mem other third) := by
  rw [stepsBy, readUnsigned_eq hm, readUnsigned_eq ho, readUnsigned_eq ht]
  simp only [Option.bind_eq_bind, Option.bind_some, Option.pure_def, maskTo_eq, ofInt_step, byInteger,
    BitVec.ofInt_natCast]
  congr 1
  rw [Bool.eq_iff_iff, beq_iff_eq, beq_iff_eq, leNat_eq_word n mem, Int.natCast_inj, BitVec.toNat_inj,
    BitVec.ofNat_toNat, BitVec.setWidth_eq]

/-- The signed branches too: the bits of a sum do not depend on how its terms are read. -/
theorem stepsBy_signed (isAdd : Bool) (hm : mem.length = n) (ho : other.length = n)
    (ht : third.length = n) :
    stepsBy (readSigned n) (wrapTo n) isAdd mem other third =
      some (byInteger (if isAdd then opAdd else opSub) n mem other third) := by
  rw [stepsBy, readSigned_eq hm, readSigned_eq ho, readSigned_eq ht]
  simp only [Option.bind_eq_bind, Option.bind_some, Option.pure_def, wrapTo, ofInt_step, byInteger,
    leInt_eq_word, BitVec.ofInt_toInt]
  congr 1
  rw [Bool.eq_iff_iff, beq_iff_eq, beq_iff_eq, BitVec.toInt_inj]
  rfl

end Branches

/-! ## The integer types -/

section Integers

/-- The number that both sides see in the bytes of an integer type. -/
def intValue (vt : ValType) (p : List Byte) : Int :=
  match vt with
  | .i8 | .i16 | .i32 | .i64 => leInt (sizeOfValueType vt) p
  | _ => leNat (sizeOfValueType vt) p

variable {vt : ValType} {mem other third : List Byte}

theorem isEmpty_of_integer (hvt : vt.isInteger = true) (h : mem.length = sizeOfValueType vt) :
    mem.isEmpty = false := by
  cases mem with
  | nil => cases vt <;> simp [ValType.isInteger, sizeOfValueType] at hvt h
  | cons => rfl

theorem compareBinary_integer (hvt : vt.isInteger = true) (hm : mem.length = sizeOfValueType vt)
    (ho : other.length = sizeOfValueType vt) (op : Ordering → Bool) :
    compareBinary mem other vt op = some (op (compare (intValue vt mem) (intValue vt other))) := by
  unfold compareBinary
  rw [isEmpty_of_integer hvt hm, isEmpty_of_integer hvt ho, Bool.or_self, if_neg Bool.false_ne_true]
  cases vt with
  | u8 | u16 | u32 => exact comparing_of (readUnsigned_eq hm) (readUnsigned_eq ho)
  | i8 | i16 | i32 | i64 => exact comparing_of (readSigned_eq hm) (readSigned_eq ho)
  | u64 =>
    refine (comparing_of (readSigned_eq hm) (readSigned_eq ho)).trans ?_
    rw [sizeOfValueType, compareUnsigned_leInt]
    rfl
  | f32 | f64 | arrBytes | other => cases hvt

theorem checkBetween_integer (hvt : vt.isInteger = true) (hm : mem.length = sizeOfValueType vt)
    (ho : other.length = sizeOfValueType vt) (ht : third.length = sizeOfValueType vt) :
    checkBetween mem other third vt = some (compareBetween vt other mem third) := by
  unfold checkBetween
  rw [isEmpty_of_integer hvt hm, isEmpty_of_integer hvt ho, isEmpty_of_integer hvt ht,
    Bool.or_self, Bool.or_self, if_neg Bool.false_ne_true]
  cases vt with
  | u8 | u16 | u32 => exact inRange_unsigned hm ho ht
  | i8 | i16 | i32 | i64 => exact inRange_signed hm ho ht
  | u64 => exact inRangeUnsigned_eq hm ho ht
  | f32 | f64 | arrBytes | other => cases hvt

theorem checkDelta_integer (hvt : vt.isInteger = true) (hm : mem.length = sizeOfValueType vt)
    (ho : other.length = sizeOfValueType vt) (ht : third.length = sizeOfValueType vt) (isAdd : Bool) :
    checkDelta mem other third vt isAdd =
      some (perValTypeBy (if isAdd then opAdd else opSub) vt mem other third) := by
  unfold checkDelta
  rw [isEmpty_of_integer hvt hm, isEmpty_of_integer hvt ho, isEmpty_of_integer hvt ht,
    Bool.or_self, Bool.or_self, if_neg Bool.false_ne_true]
  cases vt <;> simp only [ValType.isInteger, Bool.false_eq_true] at hvt <;>
    simp only [sizeOfValueType] at hm ho ht <;>
    simp only [perValTypeBy, stepsBy_unsigned, stepsBy_signed, hm, ho, ht]

end Integers

/-! ## Where the two comparators agree -/

/-- The inputs on which client and server give the same answer. Two things set them apart.

The server compares the signed types of `UNKNOWN_INITIAL_LOW` as sign-extended unsigned words, the
client as numbers. On byte arrays the server has no `CHANGED`, `UNCHANGED` and `UNKNOWN_INITIAL`
and answers `false`, where the client compares the bytes; and without a mask the server lets every
array pass, the client only an equal one. -/
def AnswersAlike (ct : CmpType) (vt : ValType) (mem prev scan : List Byte) (mask : Option (List Byte)) :
    Prop :=
  match vt, ct with
  | .arrBytes, .exactValue => mask = none → mem = scan
  | .arrBytes, .changedValue => mem = prev
  | .arrBytes, .unchangedValue => mem ≠ prev
  | .arrBytes, .unknownInitialValue => ∀ b ∈ mem, b = 0
  | .i8, .unknownInitialLowValue | .i16, .unknownInitialLowValue | .i32, .unknownInitialLowValue
  | .i64, .unknownInitialLowValue =>
    intValue vt mem = 0 ∨ (intValue vt mem < 0 ↔ intValue vt scan < 0)
  | _, _ => True

section Agreement

variable {vt : ValType} {n : Nat} {mem prev scan hi : List Byte} {mask : Option (List Byte)}

theorem leInt_bounds {n : Nat} (hn : n ≤ 8) (p : List Byte) :
    -(2 ^ 63) ≤ leInt n p ∧ leInt n p < 2 ^ 63 := by
  have h := BitVec.toInt_lt (x := word n p)
  have h' := BitVec.le_toInt (word n p)
  have hpow : (2 : Int) ^ (8 * n - 1) ≤ 2 ^ 63 :=
    pow_le_pow_right₀ (by decide) (by omega)
  rw [leInt_eq_word]
  omega

/-- Sign extension and an unsigned comparison agree with the signed one between numbers of one sign. -/
theorem signExtendU64_le_iff {a b : Int} (ha : -(2 ^ 63) ≤ a ∧ a < 2 ^ 63)
    (hb : -(2 ^ 63) ≤ b ∧ b < 2 ^ 63) :
    (signExtendU64 a ≤ signExtendU64 b ↔ a ≤ b) ↔ (a < 0 ↔ b < 0) := by
  rw [signExtendU64, signExtendU64, BitVec.toNat_ofInt, BitVec.toNat_ofInt]
  omega

/-- `UNKNOWN_INITIAL_LOW` at a signed type. -/
theorem low_signed_iff (hn : n ≤ 8) (hm : mem.length = n) :
    ((if mem.all (· == 0) then some false
        else some (compare (leInt n mem) (leInt n scan) != .gt)).getD false =
      (leInt n mem != 0 && decide (signExtendU64 (leInt n mem) ≤ signExtendU64 (leInt n scan)))) ↔
      (leInt n mem = 0 ∨ (leInt n mem < 0 ↔ leInt n scan < 0)) := by
  have hzero : mem.all (· == 0) = true ↔ leInt n mem = 0 := by
    rw [List.all_eq_true]
    simp only [beq_iff_eq]
    rw [all_zero_iff hm, leNat_eq_word, leInt_eq_word]
    exact ⟨fun h => by rw [BitVec.eq_of_toNat_eq (h.trans BitVec.toNat_zero.symm)]; exact BitVec.toInt_zero,
      fun h => by rw [BitVec.eq_of_toInt_eq (h.trans BitVec.toInt_zero.symm)]; exact BitVec.toNat_zero⟩
  by_cases hz : leInt n mem = 0
  · rw [if_pos (hzero.mpr hz)]
    simp [hz]
  · have hle := signExtendU64_le_iff (leInt_bounds hn mem) (leInt_bounds hn scan)
    rw [if_neg (fun h => hz (hzero.mp h)), le_iff, Option.getD_some, ← hle]
    rw [bne_iff_ne.mpr hz, Bool.true_and, Bool.eq_iff_iff, decide_eq_true_iff, decide_eq_true_iff]
    exact ⟨fun h => .inr h.symm, fun h => (h.resolve_left hz).symm⟩

/-- The argument of the server that stands for the previous value, or for the upper bound. -/
def prevArgument (ct : CmpType) (prev hi : List Byte) : List Byte :=
  if ct = .valueBetween then hi else prev

theorem bytesEqual_comm (hm : mem.length = n) (hs : scan.length = n) :
    ((List.range (min mem.length scan.length)).all fun j => mem.getD j 0 == scan.getD j 0) =
      bytesEqual n scan mem := by
  rw [hm, hs, Nat.min_self, bytesEqual]
  refine List.all_congr rfl fun j => ?_
  rw [Bool.eq_iff_iff, beq_iff_eq, beq_iff_eq, eq_comm]

theorem matchesExact_integer (hvt : vt.isInteger = true) (hm : mem.length = n) (hs : scan.length = n) :
    matchesExact vt mem scan mask = some (compareExact vt n scan mem mask) := by
  have heq := bytesEqual_comm hm hs
  cases vt <;> simp only [ValType.isInteger, Bool.false_eq_true] at hvt <;>
    exact congrArg some heq

/-- A relational operator on two integers. -/
theorem perValTypeBin_integer (hvt : vt.isInteger = true) {op : BinOp} {rel : Int → Int → Bool}
    (hnat : ∀ a b : Nat, op.nat a b = rel a b) (hint : ∀ a b, op.int a b = rel a b) (p q : List Byte) :
    perValTypeBin op vt p q = rel (intValue vt p) (intValue vt q) := by
  cases vt with
  | u8 | u16 | u32 | u64 => exact hnat _ _
  | i8 | i16 | i32 | i64 => exact hint _ _
  | f32 | f64 | arrBytes | other => cases hvt

theorem perValTypeBin_gt (hvt : vt.isInteger = true) (p q : List Byte) :
    perValTypeBin opGt vt p q = (compare (intValue vt p) (intValue vt q) == .gt) := by
  rw [gt_iff]
  exact perValTypeBin_integer hvt (fun _ _ => decide_eq_decide.mpr Int.ofNat_lt.symm) (fun _ _ => rfl) p q

theorem perValTypeBin_lt (hvt : vt.isInteger = true) (p q : List Byte) :
    perValTypeBin opLt vt p q = (compare (intValue vt p) (intValue vt q) == .lt) := by
  rw [lt_iff]
  exact perValTypeBin_integer hvt (fun _ _ => decide_eq_decide.mpr Int.ofNat_lt.symm) (fun _ _ => rfl) p q

theorem perValTypeBin_eq_beq (hvt : vt.isInteger = true) (hm : mem.length = sizeOfValueType vt)
    (hp : prev.length = sizeOfValueType vt) : perValTypeBin opEq vt mem prev = (mem == prev) := by
  rw [beq_eq_leNat_beq hm hp]
  cases vt <;> simp only [ValType.isInteger, Bool.false_eq_true] at hvt <;>
    simp only [perValTypeBin, opEq, leInt_beq, sizeOfValueType]

theorem perValTypeBin_ne_bne (hvt : vt.isInteger = true) (hm : mem.length = sizeOfValueType vt)
    (hp : prev.length = sizeOfValueType vt) : perValTypeBin opNe vt mem prev = (mem != prev) := by
  rw [bne, ← perValTypeBin_eq_beq hvt hm hp]
  cases vt <;> simp only [ValType.isInteger, Bool.false_eq_true] at hvt <;>
    simp only [perValTypeBin, opNe, opEq, bne]

theorem compareUnknownInitial_integer (hvt : vt.isInteger = true) (hm : mem.length = sizeOfValueType vt) :
    compareUnknownInitial vt mem = mem.any (· != 0) := by
  have hbytes : compareUnknownInitial vt mem = (leNat (sizeOfValueType vt) mem != 0) := by
    cases vt <;> simp only [ValType.isInteger, Bool.false_eq_true] at hvt <;> rfl
  have hzero := all_zero_iff hm
  rw [hbytes, Bool.eq_iff_iff, bne_iff_ne, List.any_eq_true, ne_eq, ← hzero]
  simp

/-- At an integer type the two answer alike on every compare type but `UNKNOWN_INITIAL_LOW`. -/
theorem evaluate_integer {ct : CmpType} (hvt : vt.isInteger = true) (hct : ct ≠ .unknownInitialLowValue)
    (hm : mem.length = sizeOfValueType vt) (hp : prev.length = sizeOfValueType vt)
    (hs : scan.length = sizeOfValueType vt) (hh : hi.length = sizeOfValueType vt) :
    evaluateCandidateMatch ct vt mem prev scan (some hi) mask =
      compareValues ct vt (sizeOfValueType vt) scan mem (some (prevArgument ct prev hi)) mask := by
  cases ct with
  | exactValue => exact congrArg (Option.getD · false) (matchesExact_integer hvt hm hs)
  | fuzzyValue =>
    cases vt <;> simp only [ValType.isInteger, Bool.false_eq_true] at hvt <;> rfl
  | biggerThan =>
    exact (congrArg (Option.getD · false) (compareBinary_integer hvt hm hs _)).trans
      (perValTypeBin_gt hvt mem scan).symm
  | smallerThan =>
    exact (congrArg (Option.getD · false) (compareBinary_integer hvt hm hs _)).trans
      (perValTypeBin_lt hvt mem scan).symm
  | valueBetween => exact congrArg (Option.getD · false) (checkBetween_integer hvt hm hs hh)
  | increasedValue =>
    exact (congrArg (Option.getD · false) (compareBinary_integer hvt hm hp _)).trans
      (perValTypeBin_gt hvt mem prev).symm
  | increasedValueBy => exact congrArg (Option.getD · false) (checkDelta_integer hvt hm hp hs true)
  | decreasedValue =>
    exact (congrArg (Option.getD · false) (compareBinary_integer hvt hm hp _)).trans
      (perValTypeBin_lt hvt mem prev).symm
  | decreasedValueBy => exact congrArg (Option.getD · false) (checkDelta_integer hvt hm hp hs false)
  | changedValue => exact (perValTypeBin_ne_bne hvt hm hp).symm
  | unchangedValue => exact (perValTypeBin_eq_beq hvt hm hp).symm
  | unknownInitialValue => exact (compareUnknownInitial_integer hvt hm).symm
  | unknownInitialLowValue => exact absurd rfl hct

/-- `UNKNOWN_INITIAL_LOW` at an unsigned type. -/
theorem low_unsigned (hm : mem.length = n) :
    (if mem.all (· == 0) then some false
        else some (compare (leNat n mem : Int) (leNat n scan : Int) != .gt)).getD false =
      (leNat n mem != 0 && decide (leNat n mem ≤ leNat n scan)) := by
  have hzero : mem.all (· == 0) = true ↔ leNat n mem = 0 := by
    rw [← all_zero_iff hm, List.all_eq_true]
    simp only [beq_iff_eq]
  by_cases hz : leNat n mem = 0
  · rw [if_pos (hzero.mpr hz)]
    simp [hz]
  · rw [if_neg (fun h => hz (hzero.mp h)), le_iff, Option.getD_some, bne_iff_ne.mpr hz, Bool.true_and]
    simp

/-- `UNKNOWN_INITIAL_LOW` at an integer type. -/
theorem evaluate_low_iff (hvt : vt.isInteger = true) (hm : mem.length = sizeOfValueType vt)
    (hs : scan.length = sizeOfValueType vt) (other : List Byte) :
    evaluateCandidateMatch .unknownInitialLowValue vt mem prev scan (some hi) mask =
        compareValues .unknownInitialLowValue vt (sizeOfValueType vt) scan mem (some other) mask ↔
      AnswersAlike .unknownInitialLowValue vt mem prev scan mask := by
  rw [evaluateCandidateMatch, compareBinary_integer hvt hm hs]
  cases vt <;> simp only [ValType.isInteger, Bool.false_eq_true] at hvt
  case i8 => exact low_signed_iff (by decide) hm
  case i16 => exact low_signed_iff (by decide) hm
  case i32 => exact low_signed_iff (by decide) hm
  case i64 => exact low_signed_iff (by decide) hm
  all_goals exact iff_of_true (low_unsigned hm) trivial

theorem matchesMasked_eq (hm : mem.length = n) (hs : scan.length = n) :
    matchesMasked mem scan mask =
      (List.range n).all fun j => scan.getD j 0 == mem.getD j 0 || !maskCounts mask j := by
  rw [matchesMasked, hm, hs, Nat.min_self]
  split
  · next hempty =>
    rw [← hs, List.isEmpty_iff.mp hempty]
    rfl
  · rfl

/-- The masked comparison: the two loops are one, but for a missing mask. -/
theorem matchesMasked_iff (hm : mem.length = n) (hs : scan.length = n)
    (hmask : ∀ m, mask = some m → m.length = n) :
    matchesMasked mem scan mask = maskedEqual n scan mem mask ↔ (mask = none → mem = scan) := by
  rw [matchesMasked_eq hm hs]
  cases mask with
  | none =>
    have hserver : maskedEqual n scan mem none = true := by simp [maskedEqual]
    have hclient : (List.range n).all (fun j => scan.getD j 0 == mem.getD j 0 || !maskCounts none j) =
        bytesEqual n scan mem := by simp [bytesEqual, maskCounts]
    rw [hserver, hclient, bytesEqual_iff, ← leNat_inj, leNat_eq_word, leNat_eq_word, BitVec.toNat_inj,
      word_inj hs hm]
    exact ⟨fun h _ => h.symm, fun h => (h rfl).symm⟩
  | some m =>
    have hlen := hmask m rfl
    refine iff_of_true ?_ (fun h => absurd h (Option.some_ne_none m))
    rw [maskedEqual, Bool.eq_iff_iff, List.all_eq_true, List.all_eq_true]
    refine forall_congr' fun j => forall_congr' fun hj => ?_
    have hlt : j < m.length := by rw [hlen]; exact List.mem_range.mp hj
    rw [maskCounts, decide_eq_true hlt, Bool.true_and]
    rfl

theorem compareBinary_arrBytes (mem other : List Byte) (op : Ordering → Bool) :
    compareBinary mem other .arrBytes op = some false := by
  unfold compareBinary
  exact ite_self _

theorem checkBetween_arrBytes (mem low high : List Byte) :
    checkBetween mem low high .arrBytes = some false := by
  unfold checkBetween
  exact ite_self _

theorem checkDelta_arrBytes (mem prev delta : List Byte) (isAdd : Bool) :
    checkDelta mem prev delta .arrBytes isAdd = some false := by
  unfold checkDelta
  exact ite_self _

/-- On byte arrays. -/
theorem evaluate_arrBytes_iff {ct : CmpType} (hm : mem.length = n) (hs : scan.length = n)
    (hmask : ∀ m, mask = some m → m.length = n) (hi : List Byte) (other : List Byte) :
    evaluateCandidateMatch ct .arrBytes mem prev scan (some hi) mask =
        compareValues ct .arrBytes n scan mem (some other) mask ↔
      AnswersAlike ct .arrBytes mem prev scan mask := by
  cases ct with
  | exactValue => exact matchesMasked_iff hm hs hmask
  | fuzzyValue => exact iff_of_true rfl trivial
  | changedValue =>
    show (mem != prev) = false ↔ mem = prev
    rw [bne_eq_false_iff_eq]
  | unchangedValue =>
    show (mem == prev) = false ↔ mem ≠ prev
    rw [beq_eq_false_iff_ne]
  | unknownInitialValue =>
    show mem.any (· != 0) = false ↔ ∀ b ∈ mem, b = 0
    simp [List.any_eq_false]
  | unknownInitialLowValue =>
    refine iff_of_true ?_ trivial
    rw [evaluateCandidateMatch, compareBinary_arrBytes, ite_self]
    rfl
  | valueBetween =>
    exact iff_of_true (congrArg (Option.getD · false) (checkBetween_arrBytes mem scan hi)) trivial
  | increasedValueBy | decreasedValueBy =>
    exact iff_of_true (congrArg (Option.getD · false) (checkDelta_arrBytes mem prev scan _)) trivial
  | biggerThan | smallerThan | increasedValue | decreasedValue =>
    exact iff_of_true (congrArg (Option.getD · false) (compareBinary_arrBytes mem _ _)) trivial

/-- For every compare type, the integer types and the byte arrays, all values of the type's length
and every mask, the client's comparison gives the server's answer exactly where `AnswersAlike` says
so. -/
theorem evaluateCandidateMatch_iff (ct : CmpType) (lenData : Nat)
    (hvt : vt.isInteger = true ∨ vt = .arrBytes) (hm : mem.length = valueLength vt lenData)
    (hp : prev.length = valueLength vt lenData) (hs : scan.length = valueLength vt lenData)
    (hh : hi.length = valueLength vt lenData)
    (hmask : ∀ m, mask = some m → m.length = valueLength vt lenData) :
    evaluateCandidateMatch ct vt mem prev scan (some hi) mask =
        compareValues ct vt (valueLength vt lenData) scan mem (some (prevArgument ct prev hi)) mask ↔
      AnswersAlike ct vt mem prev scan mask := by
  rcases hvt with hvt | rfl
  · have hlen : valueLength vt lenData = sizeOfValueType vt := by
      cases vt <;> simp only [ValType.isInteger, Bool.false_eq_true] at hvt <;> rfl
    rw [hlen] at hm hp hs hh ⊢
    by_cases hct : ct = .unknownInitialLowValue
    · subst hct
      exact evaluate_low_iff hvt hm hs _
    · refine iff_of_true (evaluate_integer hvt hct hm hp hs hh) ?_
      cases vt <;> simp only [ValType.isInteger, Bool.false_eq_true] at hvt <;>
        cases ct <;> first | exact trivial | exact absurd rfl hct
  · exact evaluate_arrBytes_iff hm hs hmask hi _

/-- 5 is at most 7 at `int32_t`, and both sides say so. -/
theorem evaluateCandidateMatch_iff_int32 :
    evaluateCandidateMatch .unknownInitialLowValue .i32 [5, 0, 0, 0] [0, 0, 0, 0] [7, 0, 0, 0]
        (some [0, 0, 0, 0]) none =
      compareValues .unknownInitialLowValue .i32 4 [7, 0, 0, 0] [5, 0, 0, 0] (some [0, 0, 0, 0]) none :=
  (evaluateCandidateMatch_iff .unknownInitialLowValue 4 (.inl rfl) rfl rfl rfl rfl
    (fun m (h : none = some m) => nomatch h)).mpr (.inr (by decide))

/-- -1 is below 5: the client keeps the candidate. The server compares `0xFFFFFFFFFFFFFFFF` with 5. -/
theorem evaluateCandidateMatch_differs :
    ¬ ∀ (ct : CmpType) (vt : ValType) (lenData : Nat) (mem prev scan hi : List Byte)
        (mask : Option (List Byte)),
      (vt.isInteger = true ∨ vt = .arrBytes) → mem.length = valueLength vt lenData →
      prev.length = valueLength vt lenData → scan.length = valueLength vt lenData →
      hi.length = valueLength vt lenData → (∀ m, mask = some m → m.length = valueLength vt lenData) →
      evaluateCandidateMatch ct vt mem prev scan (some hi) mask =
        compareValues ct vt (valueLength vt lenData) scan mem (some (prevArgument ct prev hi)) mask := by
  intro h
  have := h .unknownInitialLowValue .i32 4 [0xFF, 0xFF, 0xFF, 0xFF] [0, 0, 0, 0] [5, 0, 0, 0] [0, 0, 0, 0] none
    (.inl rfl) rfl rfl rfl rfl (fun _ h => nomatch h)
  revert this
  decide

end Agreement

end ScannerView

end Ps5Debugger

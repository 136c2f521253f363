import Ps5Debugger.Compare

/-!
# What a comparator loads through the pattern pointer

The handlers pass the scan value as a pointer, null where there is none, and no comparator looks at the
pointer before it loads. `Comparing.valueReads`, `pointReads` and `findReads` say for one call which bytes are
loaded; a call of which one load is not empty dereferences the pointer.
-/

namespace Ps5Debugger

open Lib

/-! ## The loads of the comparators -/

/-- What a comparator is called with, apart from the memory. -/
structure Comparing where
  ct : CmpType
  vt : ValType
  lenData : Nat
  /-- the pattern pointer, and what is there -/
  pattern : Option (List Byte)
  mask : Option (List Byte)
  /-- `pPrev == NULL` -/
  prevNull : Bool

namespace Comparing

/-- `value_length`. -/
def n (c : Comparing) : Nat := valueLength c.vt c.lenData

/-- The size of the type, 0 where there is none. -/
def size (c : Comparing) : Nat := sizeOfValueType c.vt

/-- The delta of the by-comparisons: for `double` it is a `float`. -/
def deltaSize (c : Comparing) : Nat := if c.vt = .f64 then 4 else c.size

/-- `pScan[j]`. -/
def scanAt (c : Comparing) (j : Nat) : Byte := (c.pattern.getD []).getD j 0

/-- Where the byte loop of the exact comparison leaves. -/
def leaves (c : Comparing) (mem : List Byte) (j : Nat) : Bool :=
  c.scanAt j != mem.getD j 0 &&
    (c.vt != .arrBytes || c.mask.any fun m => m.getD j 0 == 1)

end Comparing

/-- How many bytes a loop over `j < n` reads on its way: that of the `j` at which it leaves, too. -/
def loopReads (n : Nat) (leaves : Nat → Bool) : Nat :=
  match (List.range n).find? leaves with
  | some j => j + 1
  | none => n

/-- The loads of `proc_scan_compareValues` through the pattern pointer, as offset and size. -/
def Comparing.valueReads (c : Comparing) (mem : List Byte) : List (Nat × Nat) :=
  match c.ct with
  | .exactValue =>
    match c.vt with
    | .f32 => [(0, 4)]
    | .f64 => [(0, 8)]
    | _ => [(0, loopReads c.n (c.leaves mem))]
  | .fuzzyValue =>
    match c.vt with
    | .f32 => [(0, 4)]
    | .f64 => [(0, 8)]
    | _ => []
  | .biggerThan | .smallerThan => [(0, c.size)]
  -- the upper bound is behind the value
  | .valueBetween => if c.prevNull then [] else [(0, c.size), (c.n, c.size)]
  | .increasedValueBy | .decreasedValueBy => if c.prevNull then [] else [(0, c.deltaSize)]
  -- the value is not looked at if the memory is zero
  | .unknownInitialLowValue => if compareUnknownInitial c.vt mem then [(0, c.size)] else []
  | .increasedValue | .decreasedValue | .changedValue | .unchangedValue | .unknownInitialValue => []

/-- Those of `scan_point_compare`. -/
def Comparing.pointReads (c : Comparing) : List (Nat × Nat) :=
  match c.ct with
  | .exactValue => [(0, c.size)]
  | .increasedValueBy | .decreasedValueBy => [(0, c.deltaSize)]
  | _ => []

/-- Those of `scan_simd_find_exact`, on a chunk of `len` bytes. `find_scalar` loads the value as a
`uint8_t`, a `uint16_t`, a `uint32_t`, a `uint64_t`, a `float` and a `double`. -/
def Comparing.findReads (c : Comparing) (len : Nat) : List (Nat × Nat) :=
  if (c.vt = .u32 ∨ c.vt = .i32) ∧ c.n = 4 then [(0, 4)]
  else if elemSize c.vt = 0 ∨ c.n = 0 ∨ len < elemSize c.vt then []
  else [(0, 1), (0, 2), (0, 4), (0, 8), (0, 4), (0, 8)]

/-- A call of a comparator. -/
inductive CompareCall where
  /-- `proc_scan_compareValues` on this memory -/
  | values (mem : List Byte)
  /-- `scan_point_compare` on this memory -/
  | point (mem : List Byte)
  /-- `scan_simd_find_exact` on a chunk of so many bytes -/
  | find (len : Nat)

def CompareCall.reads (c : Comparing) : CompareCall → List (Nat × Nat)
  | .values mem => c.valueReads mem
  | .point _ => c.pointReads
  | .find len => c.findReads len

/-- The call dereferences a null pointer. -/
def CompareCall.ReadsNull (c : Comparing) (call : CompareCall) : Prop :=
  c.pattern = none ∧ ∃ x ∈ call.reads c, 0 < x.2

instance (c : Comparing) (call : CompareCall) : Decidable (call.ReadsNull c) :=
  inferInstanceAs (Decidable (c.pattern = none ∧ ∃ x ∈ call.reads c, 0 < x.2))

end Ps5Debugger

import Ps5Debugger.PointCompare

/-!
# The exact finder, loop by loop

`scan_simd_find_exact` counts the elements that equal a value, and stores the offsets of the first ones as
`uint32_t`. Words are found eight at a time, and what is left one by one; other types one by one.

`fast_scan_exact`: the offsets are those of the equal elements in ascending order, brought into 32 bits, and no
entry behind `max` is written. `simdFindExact_eq`: that is what the first scan takes them for.
-/

namespace Ps5Debugger

open Lib

namespace ExactFinder

open PointCompare

/-! ## What is found -/

/-- The count, and the array of offsets. -/
structure Finding where
  cnt : Nat
  out : Nat → Nat

/-- `if (cnt < max) out[cnt] = (uint32_t)off; cnt++` -/
def Finding.found (max : Nat) (f : Finding) (off : Nat) : Finding where
  cnt := f.cnt + 1
  out := if f.cnt < max then Function.update f.out f.cnt (u32 off) else f.out

/-! ## The loops -/

/-- The value of `n` bytes behind a pointer. -/
def loadAt (n : Nat) (b : Buf) (off : Nat) : Nat := leNat n (slice b off n)

/-- `_mm256_movemask_ps` of `_mm256_cmpeq_epi32`: which of the eight words from `i` on equal the target. -/
def laneMask (buf : Buf) (target i : Nat) : BitVec 32 :=
  (BitVec.ofBoolListLE ((List.range 8).map fun b => loadAt 4 buf ((i + b) * 4) == target)).setWidth 32

/-- The loop over the lanes of a mask. -/
def takeLanes (max : Nat) (mask : BitVec 32) (i : Nat) (f : Finding) : Finding :=
  (List.range 8).foldl (fun f b => if mask.getLsbD b then f.found max ((i + b) * 4) else f) f

/-- The vector loop of `find_u32_avx2`. -/
def vectorLoop (buf : Buf) (n target max i : Nat) (f : Finding) : Nat × Finding :=
  if i + 8 ≤ n then
    let mask := laneMask buf target i
    vectorLoop buf n target max (i + 8) (if mask ≠ 0 then takeLanes max mask i f else f)
  else (i, f)
termination_by n - i

/-- The scalar tail. -/
def tailLoop (buf : Buf) (n target max i : Nat) (f : Finding) : Finding :=
  if i < n then
    tailLoop buf n target max (i + 1) (if loadAt 4 buf (i * 4) == target then f.found max (i * 4) else f)
  else f
termination_by n - i

/-- `find_u32_avx2` -/
def findU32Avx2 (buf : Buf) (len target : Nat) (out : Nat → Nat) (max : Nat) : Finding :=
  let n := len / 4
  let r := vectorLoop buf n target max 0 ⟨0, out⟩
  tailLoop buf n target max r.1 r.2

/-- `elem_size` -/
def elemSize (vt : UInt8) : Nat :=
  match vt.toNat with
  | 0 | 1 => 1
  | 2 | 3 => 2
  | 4 | 5 | 8 => 4
  | 6 | 7 | 9 => 8
  | _ => 0

/-- The comparison of one element; `none` is a type that has none. -/
def elemEq (vt : UInt8) (buf : Buf) (off : Nat) (val : Buf) : Option Bool :=
  match vt.toNat with
  | 0 | 1 => some (loadAt 1 buf off == loadAt 1 val 0)
  | 2 | 3 => some (loadAt 2 buf off == loadAt 2 val 0)
  | 4 | 5 => some (loadAt 4 buf off == loadAt 4 val 0)
  | 6 | 7 => some (loadAt 8 buf off == loadAt 8 val 0)
  | 8 => some (leF32 (slice buf off 4) == leF32 (slice val 0 4))
  | 9 => some (leF64 (slice buf off 8) == leF64 (slice val 0 8))
  | _ => none

/-- The loop of `find_scalar`. -/
def scalarLoop (vt : UInt8) (buf val : Buf) (step stop max : Nat) : Nat → Nat → Finding → Option Finding
  | 0, _, _ => none
  | fuel + 1, off, f =>
    if off ≤ stop then
      match elemEq vt buf off val with
      | none => some f
      | some eq => scalarLoop vt buf val step stop max fuel (u64 (off + step)) (if eq then f.found max off else f)
    else some f

/-- `find_scalar` -/
def findScalar (vt : UInt8) (buf : Buf) (len : Nat) (val : Buf) (step : Nat) (out : Nat → Nat) (max : Nat) :
    Option Finding :=
  let esz := elemSize vt
  if esz = 0 ∨ step = 0 ∨ len < esz then some ⟨0, out⟩
  else scalarLoop vt buf val step (len - esz) max (len + 1) 0 ⟨0, out⟩

/-- `scan_simd_find_exact`. With a null pointer there is nothing to find. -/
def scanSimdFindExact (valtype : UInt8) (buf : Option Buf) (len : Nat) (value : Option Buf) (step : Nat)
    (out : Option (Nat → Nat)) (max : Nat) : Option Finding :=
  match buf, value, out with
  | some buf, some value, some out =>
    if (valtype.toNat = 4 ∨ valtype.toNat = 5) ∧ step = 4 then
      some (findU32Avx2 buf len (loadAt 4 value 0) out max)
    else findScalar valtype buf len value step out max
  | _, _, out => some ⟨0, out.getD fun _ => 0⟩

/-! ## What the loops have found -/

/-- What was found among the first `k` elements. -/
def upTo (size : Nat) (buf : Buf) (target : Nat) (out : Nat → Nat) (max k : Nat) : Finding :=
  (((List.range k).filter fun i => loadAt size buf (i * size) == target).map (· * size)).foldl (Finding.found max)
    ⟨0, out⟩

variable {size target max : Nat} {buf val : Buf} {out : Nat → Nat}

/-- One more element. -/
theorem upTo_succ (k : Nat) :
    (if loadAt size buf (k * size) == target then (upTo size buf target out max k).found max (k * size)
      else upTo size buf target out max k) = upTo size buf target out max (k + 1) := by
  rw [upTo, upTo, List.range_succ, List.filter_append, List.map_append, List.foldl_append]
  by_cases hk : (loadAt size buf (k * size) == target) = true
  · rw [if_pos hk, List.filter_cons, if_pos hk]
    rfl
  · rw [if_neg hk, List.filter_cons, if_neg hk]
    rfl

theorem Finding.found_out_self (f : Finding) (off : Nat) :
    (f.found max off).out f.cnt = if f.cnt < max then u32 off else f.out f.cnt := by
  rw [Finding.found]
  dsimp only
  split
  · exact Function.update_self _ _ _
  · rfl

theorem Finding.found_out_of_ne (f : Finding) (off : Nat) {k : Nat} (h : k ≠ f.cnt) :
    (f.found max off).out k = f.out k := by
  rw [Finding.found]
  dsimp only
  split
  · exact Function.update_of_ne h _ _
  · rfl

/-- The count is that of the offsets, and the first ones are in the first `max` entries. -/
theorem foldl_found (l : List Nat) : ∀ f : Finding,
    (l.foldl (Finding.found max) f).cnt = f.cnt + l.length ∧
      ∀ k, (l.foldl (Finding.found max) f).out k =
        if f.cnt ≤ k ∧ k < f.cnt + l.length ∧ k < max then u32 (l.getD (k - f.cnt) 0) else f.out k := by
  induction l with
  | nil =>
    intro f
    refine ⟨rfl, fun k => ?_⟩
    rw [List.length_nil, if_neg (by omega)]
    rfl
  | cons off l ih =>
    intro f
    obtain ⟨hcnt, hout⟩ := ih (f.found max off)
    have hnext : (f.found max off).cnt = f.cnt + 1 := rfl
    rw [hnext] at hcnt hout
    rw [List.foldl_cons, List.length_cons]
    refine ⟨by rw [hcnt]; omega, fun k => ?_⟩
    rw [hout]
    rcases Nat.lt_trichotomy k f.cnt with hlt | rfl | hgt
    · rw [f.found_out_of_ne off hlt.ne, if_neg (by omega), if_neg (by omega)]
    · -- the entry of this offset
      rw [f.found_out_self, Nat.sub_self, List.getD_cons_zero, if_neg (by omega)]
      exact if_congr (by omega) rfl rfl
    · have hsub : k - f.cnt = k - (f.cnt + 1) + 1 := by omega
      rw [f.found_out_of_ne off hgt.ne', hsub, List.getD_cons_succ]
      exact if_congr (by omega) rfl rfl

/-! ## The loops are what is found one by one -/

variable {n : Nat}

theorem laneMask_getLsbD {b : Nat} (hb : b < 8) (i : Nat) :
    (laneMask buf target i).getLsbD b = (loadAt 4 buf ((i + b) * 4) == target) := by
  rw [laneMask, BitVec.getLsbD_setWidth, BitVec.getLsbD_ofBoolListLE, List.getD_eq_getElem?_getD, List.getElem?_map,
    List.getElem?_range hb, Option.map_some, Option.getD_some, decide_eq_true (by omega), Bool.true_and]

/-- The lanes are the next eight elements. -/
theorem takeLanes_upTo (i : Nat) :
    takeLanes max (laneMask buf target i) i (upTo 4 buf target out max i) =
      upTo 4 buf target out max (i + 8) := by
  have hlanes : ∀ m ≤ 8, (List.range m).foldl
      (fun f b => if (laneMask buf target i).getLsbD b then f.found max ((i + b) * 4) else f)
        (upTo 4 buf target out max i) =
          upTo 4 buf target out max (i + m) := by
    intro m hm
    induction m with
    | zero => rfl
    | succ m ih =>
      rw [List.range_succ, List.foldl_append, ih (by omega), List.foldl_cons, List.foldl_nil,
        laneMask_getLsbD (by omega), ← Nat.add_assoc, upTo_succ]
  exact hlanes 8 (le_refl 8)

/-- A mask without bits has no lane to take. -/
theorem takeLanes_zero (i : Nat) (f : Finding) : takeLanes max 0 i f = f := by
  have hclear : ∀ b, (0 : BitVec 32).getLsbD b = false := fun _ => BitVec.getLsbD_zero
  have hnone : ∀ l : List Nat,
      l.foldl (fun f b => if (0 : BitVec 32).getLsbD b then f.found max ((i + b) * 4) else f) f = f := by
    intro l
    induction l with
    | nil => rfl
    | cons b l ih =>
      rw [List.foldl_cons, hclear, if_neg Bool.false_ne_true]
      exact ih
  exact hnone _

/-- The vector loop ends at most at `n`, and has found what there is up to where it ends. -/
theorem vectorLoop_upTo {i : Nat} (hi : i ≤ n) :
    ∃ j ≤ n, vectorLoop buf n target max i (upTo 4 buf target out max i) =
      (j, upTo 4 buf target out max j) := by
  induction hm : n - i using Nat.strong_induction_on generalizing i with
  | _ m ih =>
    rw [vectorLoop]
    split
    · rename_i hlt
      have hstep : (if laneMask buf target i ≠ 0 then takeLanes max (laneMask buf target i) i
          (upTo 4 buf target out max i)
          else upTo 4 buf target out max i) =
            upTo 4 buf target out max (i + 8) := by
        split
        · exact takeLanes_upTo i
        · rename_i hzero
          rw [← takeLanes_upTo, not_not.mp hzero, takeLanes_zero]
      simp only [hstep]
      exact ih (n - (i + 8)) (by omega) (by omega) rfl
    · exact ⟨i, hi, rfl⟩

/-- The tail finds the rest. -/
theorem tailLoop_upTo {i : Nat} (hi : i ≤ n) :
    tailLoop buf n target max i (upTo 4 buf target out max i) =
      upTo 4 buf target out max n := by
  induction hm : n - i generalizing i with
  | zero =>
    rw [tailLoop, if_neg (by omega), show i = n by omega]
  | succ m ih =>
    rw [tailLoop, if_pos (by omega), upTo_succ]
    exact ih (by omega) (by omega)

theorem findU32Avx2_upTo (len : Nat) : findU32Avx2 buf len target out max =
    upTo 4 buf target out max (len / 4) := by
  obtain ⟨j, hj, hvector⟩ := @vectorLoop_upTo target max buf out (len / 4) 0 (Nat.zero_le _)
  have hstart : upTo 4 buf target out max 0 = ⟨0, out⟩ := rfl
  rw [hstart] at hvector
  rw [findU32Avx2, hvector]
  exact tailLoop_upTo hj

/-! ## The scalar loop -/

variable {vt : UInt8} {len : Nat}

/-- The integer types have a size, and are compared by their bytes. -/
theorem elemEq_integer (hvt : vt.toNat ≤ 7) : 0 < elemSize vt ∧
    ∀ off, elemEq vt buf off val = some (loadAt (elemSize vt) buf off == loadAt (elemSize vt) val 0) := by
  rcases valType_cases (hvt.trans (by decide)) with rfl | rfl | rfl | rfl | rfl | rfl | rfl | rfl | rfl | rfl
  iterate 8
    · exact ⟨by decide, fun _ => rfl⟩
  · exact absurd hvt (by decide)
  · exact absurd hvt (by decide)

/-- The scalar loop ends, and has found what there is. -/
theorem scalarLoop_upTo (hvt : vt.toNat ≤ 7) (hlen : len < 2 ^ 64) (hfit : elemSize vt ≤ len) :
    ∀ {fuel k : Nat}, k ≤ len / elemSize vt → len / elemSize vt < k + fuel →
      scalarLoop vt buf val (elemSize vt) (len - elemSize vt) max fuel (k * elemSize vt)
          (upTo (elemSize vt) buf (loadAt (elemSize vt) val 0) out max k) =
        some (upTo (elemSize vt) buf (loadAt (elemSize vt) val 0) out max (len / elemSize vt)) := by
  obtain ⟨hpos, heq⟩ := @elemEq_integer buf val vt hvt
  intro fuel
  induction fuel with
  | zero =>
    intro k hk hfuel
    omega
  | succ fuel ih =>
    intro k hk hfuel
    have hinside : k < len / elemSize vt ↔ k * elemSize vt ≤ len - elemSize vt := by
      rw [← Nat.succ_le_iff, Nat.le_div_iff_mul_le hpos, Nat.succ_mul]
      omega
    rw [scalarLoop]
    by_cases hmore : k < len / elemSize vt
    · have hstop := hinside.mp hmore
      have hnext : u64 (k * elemSize vt + elemSize vt) = (k + 1) * elemSize vt := by
        rw [u64_of_lt (by omega), Nat.succ_mul]
      rw [if_pos hstop, heq, hnext]
      dsimp only
      rw [upTo_succ]
      exact ih hmore (by omega)
    · rw [if_neg fun h => hmore (hinside.mpr h), le_antisymm hk (Nat.le_of_not_lt hmore)]

/-! ## The finder -/

/-- The offsets of the elements that equal the value, in ascending order. -/
structure Matches (size : Nat) (buf : Buf) (len : Nat) (value : Buf) (l : List Nat) : Prop where
  ascend : l.Pairwise (· < ·)
  mem : ∀ off, off ∈ l ↔ ∃ k, off = k * size ∧ off + size ≤ len ∧ ∀ j < size, buf (off + j) = value j

/-- The elements that are gone through. -/
theorem matches_upTo (hpos : 0 < size) (len : Nat) : Matches size buf len val
    (((List.range (len / size)).filter fun i => loadAt size buf (i * size) == loadAt size val 0).map (· * size)) := by
  constructor
  · apply List.Pairwise.map
    · intro i j hij
      exact Nat.mul_lt_mul_of_pos_right hij hpos
    · exact List.Pairwise.filter _ List.pairwise_lt_range
  · intro off
    have hequal : ∀ off, loadAt size buf off = loadAt size val 0 ↔ ∀ j < size, buf (off + j) = val j := by
      intro off
      rw [loadAt, loadAt, leNat_inj]
      refine forall₂_congr fun j hj => ?_
      rw [getD_slice hj, getD_slice hj, Nat.zero_add]
    have hinside : ∀ k, k < len / size ↔ k * size + size ≤ len := by
      intro k
      rw [← Nat.succ_le_iff, Nat.le_div_iff_mul_le hpos, Nat.succ_mul]
    simp only [List.mem_map, List.mem_filter, List.mem_range, beq_iff_eq, hequal, hinside]
    constructor
    · rintro ⟨k, ⟨hlen, hbytes⟩, rfl⟩
      exact ⟨k, rfl, hlen, hbytes⟩
    · rintro ⟨k, rfl, hlen, hbytes⟩
      exact ⟨k, ⟨hlen, hbytes⟩, rfl⟩

/-- With the step of the type, the finder has gone through all elements. -/
theorem scanSimdFindExact_upTo (hvt : vt.toNat ≤ 7) (hlen : len < 2 ^ 64) :
    scanSimdFindExact vt (some buf) len (some val) (elemSize vt) (some out) max =
      some (upTo (elemSize vt) buf (loadAt (elemSize vt) val 0) out max (len / elemSize vt)) := by
  obtain ⟨hpos, -⟩ := @elemEq_integer buf val vt hvt
  rw [scanSimdFindExact]
  split
  · rename_i hword
    rw [hword.2, findU32Avx2_upTo]
  · rw [findScalar]
    by_cases hfit : elemSize vt ≤ len
    · rw [if_neg (by omega)]
      have hloop := @scalarLoop_upTo max buf val out vt len hvt hlen hfit (len + 1) 0 (Nat.zero_le _)
        (by have hle := Nat.div_le_self len (elemSize vt); omega)
      rw [Nat.zero_mul] at hloop
      exact hloop
    · rw [if_pos (.inr (.inr (by omega))), Nat.div_eq_of_lt (by omega)]
      rfl

/-- The elements that are gone through are the offsets at which the first scan compares. -/
theorem filter_strideUpTo (hpos : 0 < size) (value : List Byte) :
    (if len < size then [] else
      (strideUpTo size (len - size)).filter fun off => bytesEqual size value (slice buf off size)) =
      ((List.range (len / size)).filter fun i => loadAt size buf (i * size) == leNat size value).map (· * size) := by
  split
  · next hlt =>
    rw [Nat.div_eq_of_lt hlt]
    rfl
  · next hle =>
    have hcount : (len - size) / size + 1 = len / size := by
      rw [← Nat.add_div_right _ hpos, Nat.sub_add_cancel (Nat.le_of_not_lt hle)]
    rw [strideUpTo, hcount, List.filter_map]
    simp only [Function.comp_def, bytesEqual_eq_word, loadAt]

/-- **The finder of the first scan** counts and stores what is found here. -/
theorem simdFindExact_eq (hvt : vt.toNat ≤ 7) (hlen : len < 2 ^ 64) :
    ∃ f, scanSimdFindExact vt (some buf) len (some val) (elemSize vt) (some out) max = some f ∧
      f.cnt = (simdFindExact (.ofByte vt) buf len (slice val 0 (elemSize vt)) (elemSize vt) max).count ∧
        (List.range (min f.cnt max)).map f.out =
          (simdFindExact (.ofByte vt) buf len (slice val 0 (elemSize vt)) (elemSize vt) max).off.map u32 := by
  obtain ⟨hint, hsize⟩ : (ValType.ofByte vt).isInteger = true ∧ sizeOfValueType (.ofByte vt) = elemSize vt := by
    rcases valType_cases (hvt.trans (by decide)) with rfl | rfl | rfl | rfl | rfl | rfl | rfl | rfl | rfl | rfl
    iterate 8
      · exact ⟨rfl, rfl⟩
    · exact absurd hvt (by decide)
    · exact absurd hvt (by decide)
  obtain ⟨l, hl⟩ : ∃ l, l = ((List.range (len / elemSize vt)).filter fun i =>
    loadAt (elemSize vt) buf (i * elemSize vt) == loadAt (elemSize vt) val 0).map (· * elemSize vt) := ⟨_, rfl⟩
  have hfind := simdFindExact_integer hint buf len (slice val 0 (elemSize vt)) max
  rw [hsize, filter_strideUpTo (@elemEq_integer buf val vt hvt).1, ← loadAt, ← hl] at hfind
  refine ⟨_, scanSimdFindExact_upTo hvt hlen, ?_⟩
  obtain ⟨hcnt, hout⟩ := @foldl_found max l ⟨0, out⟩
  rw [Nat.zero_add] at hcnt
  rw [hfind, upTo, ← hl, hcnt]
  refine ⟨rfl, List.ext_getElem (by simp [Found.record, Nat.min_comm]) fun k hk hk' => ?_⟩
  rw [List.length_map, List.length_range] at hk
  simp only [Found.record, List.getElem_map, List.getElem_range, List.getElem_take]
  rw [hout, if_pos (by dsimp only; omega), List.getD_eq_getElem?_getD, Nat.sub_zero,
    List.getElem?_eq_getElem (by omega), Option.getD_some]

/-- What the finder returns and stores. -/
theorem scanSimdFindExact_spec (hvt : vt.toNat ≤ 7) (hlen : len < 2 ^ 64) :
    ∃ f l, scanSimdFindExact vt (some buf) len (some val) (elemSize vt) (some out) max = some f ∧
      Matches (elemSize vt) buf len val l ∧ f.cnt = l.length ∧
        ∀ k, f.out k = if k < l.length ∧ k < max then u32 (l.getD k 0) else out k := by
  obtain ⟨hpos, -⟩ := @elemEq_integer buf val vt hvt
  obtain ⟨hcnt, hout⟩ := @foldl_found max
    (((List.range (len / elemSize vt)).filter fun i =>
      loadAt (elemSize vt) buf (i * elemSize vt) == loadAt (elemSize vt) val 0).map (· * elemSize vt)) ⟨0, out⟩
  refine ⟨_, _, scanSimdFindExact_upTo hvt hlen, matches_upTo hpos len, ?_, fun k => ?_⟩
  · rw [upTo, hcnt, Nat.zero_add]
  · rw [upTo, hout]
    simp only [Nat.zero_le, true_and, Nat.zero_add, Nat.sub_zero]

/-- Offsets of a buffer that 32 bits can tell apart are stored as they are. -/
theorem Matches.u32_eq {l : List Nat} {off : Nat} (h : Matches size buf len val l) (hpos : 0 < size)
    (hlen : len ≤ 2 ^ 32) (hoff : off ∈ l) : u32 off = off := by
  obtain ⟨k, -, hend, -⟩ := (h.mem off).mp hoff
  exact u32_of_lt (by omega)

/-! ## Both -/

/-- The fast comparator is the generic one, and the finder is exact up to the 32 bits of an offset. -/
theorem fast_scan_exact :
    (∀ (cmpType valType : UInt8) (mem scan prev : List Byte) (mask : Option (List Byte)),
      scanPointTurboSupported cmpType valType = true →
        scanPointCompare cmpType valType mem scan prev = procScanCompareValues cmpType valType
          (sizeOfValueType (ValType.ofByte valType)) scan mem (some prev) mask) ∧
    ∀ (vt : UInt8) (buf value : Buf) (len : Nat) (out : Nat → Nat) (max : Nat), vt.toNat ≤ 7 → len < 2 ^ 64 →
      ∃ f l, scanSimdFindExact vt (some buf) len (some value) (elemSize vt) (some out) max = some f ∧
        Matches (elemSize vt) buf len value l ∧ f.cnt = l.length ∧
          (∀ k, f.out k = if k < l.length ∧ k < max then u32 (l.getD k 0) else out k) ∧
            (len ≤ 2 ^ 32 → ∀ off ∈ l, u32 off = off) := by
  constructor
  · intro cmpType valType mem scan prev mask h
    exact scanPointCompare_eq mem scan prev h mask
  · intro vt buf value len out max hvt hlen
    obtain ⟨f, l, hrun, hl, hcnt, hout⟩ := @scanSimdFindExact_spec max buf value out vt len hvt hlen
    have hpos := (@elemEq_integer buf value vt hvt).1
    exact ⟨f, l, hrun, hl, hcnt, hout, fun hsmall off hoff => hl.u32_eq hpos hsmall hoff⟩

/-- A byte that decreased by one below zero, and a word behind the eight lanes that is found. -/
theorem fast_scan_exact_tail :
    scanPointCompare 8 0 [255] [1] [0] = true ∧
      ∃ (f : Finding) (l : List Nat), scanSimdFindExact 5 (some fun x => if x = 32 then 7 else 0) 38
          (some fun x => if x = 0 then 7 else 0) 4 (some fun _ => 0) 2 = some f ∧ f.cnt = l.length ∧
        l.Pairwise (· < ·) ∧ 32 ∈ l ∧ ∀ off ∈ l, u32 off = off := by
  constructor
  · exact (fast_scan_exact.1 8 0 [255] [1] [0] none (by decide)).trans (by decide)
  · obtain ⟨f, l, hrun, hl, hcnt, -, hexact⟩ := fast_scan_exact.2 5 (fun x => if x = 32 then 7 else 0)
      (fun x => if x = 0 then 7 else 0) 38 (fun _ => 0) 2 (by decide) (by decide)
    refine ⟨f, l, hrun, hcnt, hl.ascend, (hl.mem 32).mpr ⟨8, rfl, by decide, ?_⟩, hexact (by decide)⟩
    decide

/-- In a buffer of four gigabytes and one byte that ends with the only match, the offset that is stored is not the
match's. -/
theorem offset_truncated :
    ¬ ∃ f l, scanSimdFindExact 0 (some fun x => if x = 2 ^ 32 then 1 else 0) (2 ^ 32 + 1) (some fun _ => 1) 1
        (some fun _ => 0) 1 = some f ∧
      Matches 1 (fun x => if x = 2 ^ 32 then 1 else 0) (2 ^ 32 + 1) (fun _ => 1) l ∧ f.cnt = l.length ∧
        ∀ k, f.out k = if k < l.length ∧ k < 1 then l.getD k 0 else 0 := by
  rintro ⟨f, l, hrun, hl, hcnt, hout⟩
  obtain ⟨f', l', hrun', -, hcnt', hout'⟩ := @scanSimdFindExact_spec 1 (fun x => if x = 2 ^ 32 then 1 else 0)
    (fun _ => 1) (fun _ => 0) 0 (2 ^ 32 + 1) (by decide) (by omega)
  obtain rfl : f' = f := Option.some.inj (hrun'.symm.trans hrun)
  have hmem : 2 ^ 32 ∈ l := (hl.mem _).mpr ⟨2 ^ 32, rfl, le_refl _, fun j hj => by
    rw [Nat.lt_one_iff.mp hj]
    rfl⟩
  -- there is no other match
  have honly : ∀ off ∈ l, off = 2 ^ 32 := by
    intro off hoff
    obtain ⟨-, -, -, hbyte⟩ := (hl.mem off).mp hoff
    by_contra hne
    have h := hbyte 0 Nat.one_pos
    rw [Nat.add_zero, if_neg hne] at h
    exact absurd h (by decide)
  have hlen : 0 < l.length := List.length_pos_of_mem hmem
  have hfirst : l.getD 0 0 = 2 ^ 32 := by
    rw [List.getD_eq_getElem?_getD, List.getElem?_eq_getElem hlen, Option.getD_some]
    exact honly _ (List.getElem_mem hlen)
  have hlen' : 0 < l'.length := by rw [← hcnt', hcnt]; exact hlen
  have h := hout 0
  rw [hout' 0, if_pos ⟨hlen', Nat.one_pos⟩, if_pos ⟨hlen, Nat.one_pos⟩, hfirst] at h
  have hlt : u32 (l'.getD 0 0) < 2 ^ 32 := Nat.mod_lt _ (by decide)
  omega

end ExactFinder

end Ps5Debugger

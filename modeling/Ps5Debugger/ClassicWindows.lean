import Ps5Debugger.RescanPointwise

/-!
# The window of the classic rescan

`proc_scan_count_handle` reuses its window for a candidate that merely starts in it. A candidate that runs
past the end of the window is compared with whatever `mem_buf` holds there: bytes that an earlier window of the
chunk has left, or none that this chunk has read.

A chunk is answered pointwise exactly when the bytes of every candidate are where the handler looks for them
(`Shown`), or no comparison of the request can report anything. What counts are the offsets alone: the windows do
not depend on memory.
-/

namespace Ps5Debugger

open Lib

/-! ## Requests -/

/-- An accepted COUNT request with a non-floating type whose pattern carries the bytes its
compare type needs. -/
structure CountReq where
  cp : ScanCountPacket
  ct : CmpType
  ct_eq : CmpType.ofByte cp.compareType = some ct
  v_pos : 0 < cp.valueLength
  v_le : cp.valueLength ≤ 0x1000
  notFloat : (ValType.ofByte cp.valueType).isFloat = false
  needs : ct.needsValue = true → cp.valueLength ≤ cp.lenData.toNat
  needsBetween : ct = .valueBetween → 2 * cp.valueLength ≤ cp.lenData.toNat

namespace CountReq

variable (req : CountReq)

/-- The value type. -/
def vt : ValType := ValType.ofByte req.cp.valueType

/-- The value length. -/
def v : Nat := req.cp.valueLength

/-- The base address of the candidates. -/
def base : Nat := req.cp.base_address.toNat

/-- The parameters the handlers compute for the request. -/
def pass (data maskData : List Byte) : CountPass where
  ct := req.ct
  vt := req.vt
  valueLength := req.v
  pattern := if req.ct.needsValue then some data else none
  mask := if req.vt = .arrBytes then some maskData else none
  betweenHi := if req.ct = .valueBetween then some (data.drop req.v) else none

/-- The prologue of the handlers accepts the request with these parameters. -/
theorem prepareCount_eq (data maskData : List Byte) :
    prepareCount req.cp data maskData = some (req.pass data maskData) := by
  have hv : ¬ (req.cp.valueLength = 0 ∨ req.cp.valueLength > 0x1000) := by
    have h1 := req.v_pos
    have h2 := req.v_le
    omega
  have hlen : req.ct.needsValue = true → (req.cp.lenData != 0) = true := by
    intro hn
    have h1 := req.needs hn
    have h2 := req.v_pos
    rw [bne_iff_ne]
    intro h0
    rw [h0] at h1
    have : (0 : UInt32).toNat = 0 := rfl
    omega
  have hpat : (if (req.ct.needsValue && req.cp.lenData != 0) = true then some data else none) =
      if req.ct.needsValue then some data else none := by
    cases hn : req.ct.needsValue with
    | false => rfl
    | true => rw [hlen hn]; rfl
  rw [prepareCount, req.ct_eq]
  simp only [hv, if_false, hpat]
  by_cases hb : req.ct = .valueBetween
  · have h2 : req.cp.lenData.toNat ≥ 2 * req.cp.valueLength := req.needsBetween hb
    simp only [CountReq.pass, hb, h2, CmpType.needsValue, if_true, Option.isSome_some, and_self]
    rfl
  · simp only [CountReq.pass, hb, false_and, if_false]
    rfl

theorem v_eq_size (h : sizeOfValueType req.vt ≠ 0) : req.v = sizeOfValueType req.vt := if_neg h

theorem isInteger_or_unsized : req.vt.isInteger = true ∨ sizeOfValueType req.vt = 0 := by
  have hf : req.vt.isFloat = false := req.notFloat
  cases hvt : req.vt <;> simp_all [ValType.isFloat, ValType.isInteger, sizeOfValueType]

/-- No comparator dereferences a null pattern: without one nothing is loaded. -/
theorem lives (data maskData : List Byte) (windows : List (List Byte)) :
    (req.pass data maskData).Lives .values windows := by
  rintro w - ⟨hnull, x, hx, hpos⟩
  have hct : req.ct.needsValue = false := by
    cases hn : req.ct.needsValue with
    | false => rfl
    | true =>
      have hsome : (req.pass data maskData).comparing.pattern = some data := if_pos hn
      rw [hsome] at hnull
      cases hnull
  have hnone : CompareCall.reads (req.pass data maskData).comparing (.values w) = [] := by
    change Comparing.valueReads _ w = []
    have hsame : (req.pass data maskData).comparing.ct = req.ct := rfl
    rw [Comparing.valueReads, hsame]
    cases h : req.ct <;> rw [h] at hct <;> first | rfl | cases hct
  rw [hnone] at hx
  cases hx

/-- The offsets of the candidates of a chunk; the pattern has no part in them. -/
def offsets (chunk : List Byte) : List Nat := ((req.pass [] []).entries chunk).map Entry.offset

/-- Their addresses, if none of them wraps. -/
def addrs (offsets : List Nat) : List Nat := offsets.map (req.base + ·)

end CountReq

/-! ## The reads of a chunk -/

/-- How far the classic window reaches: to the end of its own candidate or of a later one,
and never past the cap. -/
theorem growClassic_spec {v addr : Nat} (rest : List Nat) : ∀ {coveredEnd : Nat},
    (∀ b ∈ rest, b + v < 2 ^ 64) → addr ≤ coveredEnd → coveredEnd < 2 ^ 64 →
    coveredEnd ≤ growClassic v addr coveredEnd rest ∧ growClassic v addr coveredEnd rest < 2 ^ 64 ∧
      (coveredEnd ≤ addr + rescanWinCap →
        growClassic v addr coveredEnd rest ≤ addr + rescanWinCap) := by
  induction rest with
  | nil => intro ce _ _ hlt; exact ⟨Nat.le_refl _, hlt, id⟩
  | cons b rest ih =>
    intro ce hwrap hle hlt
    have hb := hwrap b (List.mem_cons_self ..)
    have hrest : ∀ c ∈ rest, c + v < 2 ^ 64 := fun c hc => hwrap c (List.mem_cons_of_mem _ hc)
    rw [growClassic]
    split
    · exact ih hrest hle hlt
    · split
      · exact ⟨Nat.le_refl _, hlt, id⟩
      · split
        · exact ⟨Nat.le_refl _, hlt, id⟩
        · next hnear _ hcap =>
          rw [u64_of_lt hb] at hcap ⊢
          rw [subU64_of_le (by omega) hb] at hcap
          obtain ⟨h1, h2, h3⟩ := @ih (b + v) hrest (by omega) hb
          exact ⟨by omega, h2, fun _ => h3 (by omega)⟩

/-- A window holds at least its own candidate, and ends inside the address space. -/
theorem classicStop_spec {v a : Nat} (hv : v ≤ 0x1000) {rest : List Nat} (ha : a + v < 2 ^ 64)
    (hrest : ∀ b ∈ rest, b + v < 2 ^ 64) : a + v ≤ classicStop v a rest ∧ classicStop v a rest < 2 ^ 64 := by
  obtain ⟨hle, hlt, hcap⟩ := @growClassic_spec v a rest _ hrest (Nat.le_add_right a v) ha
  have hbound := hcap (by rw [rescanWinCap]; omega)
  have hstop : classicStop v a rest = growClassic v a (a + v) rest := by
    rw [classicStop, u64_of_lt ha, subU64_of_le (by omega) hlt,
      Nat.mod_eq_of_lt (by rw [rescanWinCap] at hbound; omega), u64_of_lt (by omega)]
    omega
  rw [hstop]
  exact ⟨hle, hlt⟩

/-- The reads of a chunk behind each candidate, the last one first. -/
def classicHistory (v : Nat) (as : List Nat) : List (List (Nat × Nat)) :=
  (classicServer (fun _ => 0) v).history as []

/-- What the handler compares of a chunk is what its reads have left in `mem_buf`. -/
theorem classic_serve_eq {v : Nat} (hv : v ≤ 0x1000) (mem : Memory) (memBuf : Buf) {as : List Nat}
    (has : ∀ a ∈ as, a + v < 2 ^ 64) :
    (classicServer mem v).serve as (noWindow memBuf) memBuf = (as.zip (classicHistory v as)).map fun x =>
      slice (scratchOf (readMem mem 0) memBuf x.2) (x.1 - (lastWindow x.2 fun _ => 0).start) v := by
  have hhistory : (classicServer mem v).history as [] = classicHistory v as := by
    have hsame : ∀ (as : List Nat) (reads : List (Nat × Nat)), (classicServer mem v).history as reads =
        (classicServer (fun _ => 0) v).history as reads := by
      intro as
      induction as with
      | nil => intro reads; rfl
      | cons a rest ih => intro reads; exact congrArg₂ List.cons rfl (ih _)
    exact hsame as []
  have h := @Server.serve_eq_history (classicServer mem v) (readMem mem 0) (fun a => a + v < 2 ^ 64)
    (fun w base a => rfl) (fun a n scratch => ⟨rfl, fun i => ?_⟩)
    (fun a rest ha hrest => Nat.le_trans (Nat.le_add_right a v) (classicStop_spec hv ha hrest).1) memBuf as [] has
  · rw [hhistory] at h
    exact h
  · change readInto mem scratch a n i = _
    by_cases hi : i < n
    · rw [if_pos hi, readInto_of_lt hi, readMem_eq_zero]
    · rw [if_neg hi, readInto_of_le (by omega)]

/-- The reads of a chunk end inside the address space. -/
theorem classicHistory_lt {v : Nat} (hv : v ≤ 0x1000) {as : List Nat} (has : ∀ a ∈ as, a + v < 2 ^ 64) :
    ∀ rs ∈ classicHistory v as, ∀ r ∈ rs, r.1 + r.2 < 2 ^ 64 := by
  refine Server.mem_history (classicServer (fun _ => 0) v) (fun a => a + v < 2 ^ 64) (fun a rest ha hrest => ?_)
    as [] has (fun r hr => by cases hr)
  obtain ⟨hle, hlt⟩ := classicStop_spec hv ha hrest
  change a + (classicStop v a rest - a) < 2 ^ 64
  omega

/-! ## Values that are accepted -/

/-- The compare and value types under which a rescan can report a candidate. -/
def rescanReports (ct : CmpType) (vt : ValType) : Bool :=
  match ct with
  | .exactValue => true
  | .fuzzyValue => false
  | _ => vt.isInteger

theorem compare_of_not_rescanReports (req : CountReq) (data maskData w own : List Byte)
    (h : rescanReports req.ct req.vt = false) :
    (req.pass data maskData).compare w ((req.pass data maskData).prevFor own) = false := by
  have hcmp : (req.pass data maskData).compare w ((req.pass data maskData).prevFor own) =
      compareValues req.ct req.vt req.v ((req.pass data maskData).pattern.getD []) w
        ((req.pass data maskData).prevFor own) (req.pass data maskData).mask := rfl
  rw [hcmp]
  generalize (req.pass data maskData).pattern.getD [] = scan
  generalize (req.pass data maskData).mask = mask
  generalize (req.pass data maskData).prevFor own = prev
  rcases req.isInteger_or_unsized with hvt | hvt
  · cases hct : req.ct <;> simp_all [rescanReports]
    cases hv : req.vt <;> simp_all [ValType.isInteger, compareValues, compareFuzzy]
  · cases hv : req.vt <;> simp_all [sizeOfValueType] <;> cases hct : req.ct <;>
      simp_all [rescanReports, compareValues, compareFuzzy, perValTypeBin, compareBetween,
        compareUnknownInitial, compareUnknownInitialLow, perValTypeBy] <;>
      cases prev <;> rfl

/-- The value of `n` bytes that is one at byte `j` and zero elsewhere. -/
def unitBytes (n j : Nat) : List Byte := (List.range n).map fun i => if i = j then 1 else 0

theorem length_unitBytes (n j : Nat) : (unitBytes n j).length = n := by
  rw [unitBytes, List.length_map, List.length_range]

/-- A scan value with which each compare type accepts a unit. -/
def acceptingScan (ct : CmpType) (n j : Nat) : List Byte :=
  match ct with
  | .exactValue | .increasedValueBy => unitBytes n j
  | .smallerThan | .unknownInitialLowValue => List.replicate n 2
  | _ => List.replicate n 0

/-- A previous value, or an upper bound. -/
def acceptingPrev (ct : CmpType) (n j : Nat) : List Byte :=
  match ct with
  | .unchangedValue | .decreasedValueBy => unitBytes n j
  | .decreasedValue | .changedValue | .valueBetween => List.replicate n 2
  | _ => List.replicate n 0

theorem length_acceptingScan (ct : CmpType) (n j : Nat) : (acceptingScan ct n j).length = n := by
  cases ct <;> first | exact length_unitBytes n j | exact List.length_replicate

theorem length_acceptingPrev (ct : CmpType) (n j : Nat) : (acceptingPrev ct n j).length = n := by
  cases ct <;> first | exact length_unitBytes n j | exact List.length_replicate

theorem compareValues_unit {ct : CmpType} {vt : ValType} (hvt : vt.isInteger = true) (hct : ct ≠ .fuzzyValue) :
    ∀ j < sizeOfValueType vt, compareValues ct vt (sizeOfValueType vt) (acceptingScan ct (sizeOfValueType vt) j)
      (unitBytes (sizeOfValueType vt) j) (some (acceptingPrev ct (sizeOfValueType vt) j)) none = true := by
  cases vt <;> simp only [ValType.isInteger, Bool.false_eq_true] at hvt <;> cases ct <;>
    first | decide | exact absurd rfl hct

/-- At the integer types the comparator sees its arguments as words. -/
theorem compareValues_congr {vt : ValType} (hvt : vt.isInteger = true) (ct : CmpType)
    {scan scan' prev prev' : List Byte} (mem : List Byte)
    (hscan : leNat (sizeOfValueType vt) scan = leNat (sizeOfValueType vt) scan')
    (hprev : leNat (sizeOfValueType vt) prev = leNat (sizeOfValueType vt) prev')
    (mask : Option (List Byte)) :
    compareValues ct vt (sizeOfValueType vt) scan mem (some prev) mask =
      compareValues ct vt (sizeOfValueType vt) scan' mem (some prev') mask := by
  have hscanInt : leInt (sizeOfValueType vt) scan = leInt (sizeOfValueType vt) scan' := by
    rw [leInt, leInt, hscan]
  have hprevInt : leInt (sizeOfValueType vt) prev = leInt (sizeOfValueType vt) prev' := by
    rw [leInt, leInt, hprev]
  cases vt <;> simp only [ValType.isInteger, Bool.false_eq_true] at hvt <;> cases ct <;>
    simp only [sizeOfValueType] at hscan hprev hscanInt hprevInt ⊢ <;>
    simp [compareValues, compareExact, bytesEqual_eq_word, perValTypeBin, perValTypeBy, byInteger,
      compareBetween, compareFuzzy, compareUnknownInitial, compareUnknownInitialLow, hscan, hprev,
      hscanInt, hprevInt]

/-- The arguments the comparison looks at: a pattern that was not received and a previous value
that was not sent are not among them. -/
theorem CountReq.compare_args (req : CountReq) (data own window : List Byte) :
    (req.pass data []).compare window ((req.pass data []).prevFor own) =
      compareValues req.ct req.vt req.v data window
        (some (if req.ct = .valueBetween then data.drop req.v else own)) (req.pass data []).mask := by
  refine compareValues_unused (fun (hn : req.ct.needsValue = true) => ?_)
    (fun (hp : req.ct.needsPrevious = true ∨ req.ct = .valueBetween) => ?_) _ _ _ _
  · simp [CountReq.pass, hn]
  · rcases hp with hp | hp
    · have hne : req.ct ≠ .valueBetween := by
        intro hb
        rw [hb] at hp
        cases hp
      simp [CountPass.prevFor, CountReq.pass, hp, hne]
    · simp [CountPass.prevFor, CountReq.pass, hp, CmpType.needsPrevious]

/-- A pattern with the accepting scan value in front and the upper bound behind it. -/
def CountReq.acceptingData (req : CountReq) (j : Nat) : List Byte :=
  (acceptingScan req.ct req.v j ++ (acceptingPrev req.ct req.v j ++
    List.replicate req.cp.lenData.toNat 0)).take req.cp.lenData.toNat

theorem CountReq.length_acceptingData (req : CountReq) (j : Nat) :
    (req.acceptingData j).length = req.cp.lenData.toNat := by
  rw [CountReq.acceptingData, List.length_take, List.length_append, List.length_append, List.length_replicate]
  omega

/-- A value of which the pattern holds every byte. -/
theorem leNat_take_append {n k : Nat} {front rest : List Byte} (hfront : front.length = n) (hn : n ≤ k) :
    leNat n ((front ++ rest).take k) = leNat n front := by
  rw [← leNat_take n ((front ++ rest).take k), List.take_take, min_eq_left hn, ← hfront, List.take_left]

/-- Integers: the pattern and a previous value accept a unit. -/
theorem CountReq.accepts_unit_integer (req : CountReq) (h : rescanReports req.ct req.vt = true)
    (hvt : req.vt.isInteger = true) {j : Nat} (hj : j < req.v) :
    compareValues req.ct req.vt req.v (req.acceptingData j) (unitBytes req.v j)
      (some (if req.ct = .valueBetween then (req.acceptingData j).drop req.v else acceptingPrev req.ct req.v j))
      (req.pass (req.acceptingData j) []).mask = true := by
  have hsize : req.v = sizeOfValueType req.vt := by
    refine req.v_eq_size ?_
    cases hv : req.vt <;> simp_all [ValType.isInteger, sizeOfValueType]
  have hmask : (req.pass (req.acceptingData j) []).mask = none := by
    refine if_neg fun harr => ?_
    rw [harr] at hvt
    cases hvt
  have hct : req.ct ≠ .fuzzyValue := by
    intro hf
    rw [hf] at h
    cases h
  have hscan : leNat req.v (if req.ct.needsValue then req.acceptingData j else acceptingScan req.ct req.v j) =
      leNat req.v (acceptingScan req.ct req.v j) := by
    split
    · next hn => exact leNat_take_append (length_acceptingScan ..) (req.needs hn)
    · rfl
  have hprev : leNat req.v (if req.ct = .valueBetween then (req.acceptingData j).drop req.v
      else acceptingPrev req.ct req.v j) = leNat req.v (acceptingPrev req.ct req.v j) := by
    split
    · next hb =>
      have h2 : 2 * req.v ≤ req.cp.lenData.toNat := req.needsBetween hb
      rw [CountReq.acceptingData, List.drop_take, List.drop_append_of_le_length (by rw [length_acceptingScan]),
        List.drop_of_length_le (by rw [length_acceptingScan]), List.nil_append]
      exact leNat_take_append (length_acceptingPrev ..) (by omega)
    · rfl
  have haccept := compareValues_unit hvt hct j (by rw [← hsize]; exact hj)
  rw [hmask, ← haccept, ← hsize]
  calc compareValues req.ct req.vt req.v (req.acceptingData j) _ _ none
      = compareValues req.ct req.vt req.v (if req.ct.needsValue then req.acceptingData j else
          acceptingScan req.ct req.v j) _ _ none :=
        compareValues_unused (fun hn => by rw [if_pos hn]) (fun _ => rfl) _ _ _ _
    _ = _ := by
        rw [hsize] at hscan hprev ⊢
        exact compareValues_congr hvt _ _ hscan hprev none

/-- Without a size only the exact comparison reports, and it accepts its own pattern. -/
theorem CountReq.accepts_unit_unsized (req : CountReq) (h : rescanReports req.ct req.vt = true)
    (hvt : sizeOfValueType req.vt = 0) (j : Nat) (prev mask : Option (List Byte)) :
    compareValues req.ct req.vt req.v (req.acceptingData j) (unitBytes req.v j) prev mask = true := by
  have hct : req.ct = .exactValue := by
    cases hct : req.ct <;> cases hv : req.vt <;>
      simp_all [rescanReports, sizeOfValueType, ValType.isInteger]
  have hlen : req.cp.lenData.toNat = req.v := (if_pos hvt).symm
  have hdata : req.acceptingData j = unitBytes req.v j := by
    have hscan : acceptingScan req.ct req.v j = unitBytes req.v j := by rw [hct]; rfl
    rw [CountReq.acceptingData, hscan, hlen, List.take_append_of_le_length (by rw [length_unitBytes]),
      List.take_of_length_le (by rw [length_unitBytes])]
  rw [hdata, hct, compareValues]
  cases hv : req.vt <;> simp_all [sizeOfValueType, compareExact, bytesEqual, maskedEqual]

/-- A comparison that can report accepts a unit, with this pattern and this previous value. -/
theorem CountReq.accepts_unit (req : CountReq) (h : rescanReports req.ct req.vt = true) {j : Nat} (hj : j < req.v) :
    (req.pass (req.acceptingData j) []).compare (unitBytes req.v j)
      ((req.pass (req.acceptingData j) []).prevFor (acceptingPrev req.ct req.v j)) = true := by
  rw [req.compare_args]
  rcases req.isInteger_or_unsized with hvt | hvt
  · exact req.accepts_unit_integer h hvt hj
  · exact req.accepts_unit_unsized h hvt j _ _

/-! ## Chunks -/

/-- The bytes of a candidate in a chunk. -/
def CountPass.entryBytes (p : CountPass) (o : Nat) (own : List Byte) : List Byte :=
  leBytes 4 o ++ if p.ct.needsPrevious then own else []

theorem CountPass.entrySize_pos (p : CountPass) : 0 < p.entrySize := by
  rw [entrySize]
  split <;> omega

theorem CountPass.length_entryBytes (p : CountPass) (o : Nat) {own : List Byte}
    (hown : own.length = p.valueLength) : (p.entryBytes o own).length = p.entrySize := by
  rw [entryBytes, entrySize, List.length_append, length_leBytes]
  split
  · rw [hown]
  · rfl

/-- What the handler reads back at the front of an entry. -/
theorem CountPass.entryBytes_front (p : CountPass) {o : Nat} (ho : o < 2 ^ 32) {own : List Byte}
    (hown : own.length = p.valueLength) (rest : List Byte) :
    leNat 4 (p.entryBytes o own ++ rest) = o ∧
      p.prevFor (((p.entryBytes o own ++ rest).drop 4).take p.valueLength) = p.prevFor own := by
  refine ⟨?_, ?_⟩
  · rw [entryBytes, List.append_assoc, leNat_append _ (by rw [length_leBytes]), leNat_leBytes]
    exact Nat.mod_eq_of_lt ho
  · rw [prevFor, prevFor]
    split
    · next hp =>
      rw [entryBytes, if_pos hp, List.append_assoc, List.drop_append_of_le_length (by simp),
        List.drop_eq_nil_of_le (by simp), List.nil_append,
        List.take_append_of_le_length (by omega), List.take_of_length_le (by omega)]
    · rfl

/-- The chunk of these candidates, all with one previous value. -/
def CountPass.chunkOf (p : CountPass) (own : List Byte) (os : List Nat) : List Byte :=
  os.flatMap fun o => p.entryBytes o own

theorem CountPass.length_chunkOf (p : CountPass) {own : List Byte} (hown : own.length = p.valueLength)
    (os : List Nat) : (p.chunkOf own os).length = os.length * p.entrySize := by
  induction os with
  | nil => rw [List.length_nil, Nat.zero_mul]; rfl
  | cons o os ih =>
    rw [chunkOf, List.flatMap_cons, List.length_append, ← chunkOf, ih, p.length_entryBytes o hown,
      List.length_cons, Nat.succ_mul, Nat.add_comm]

/-- A chunk with one entry in front. -/
theorem CountPass.entries_append (p : CountPass) {front : List Byte} (hfront : front.length = p.entrySize)
    (rest : List Byte) : p.entries (front ++ rest) =
      ⟨leNat 4 (front ++ rest), ((front ++ rest).drop 4).take p.valueLength⟩ :: p.entries rest := by
  have hcount : (front ++ rest).length / p.entrySize = rest.length / p.entrySize + 1 := by
    rw [List.length_append, hfront, Nat.add_comm, Nat.add_div_right _ p.entrySize_pos]
  rw [entries, entries, hcount, List.range_succ_eq_map, List.map_cons, List.map_map, Nat.zero_mul, List.drop_zero]
  congr 1
  apply List.map_congr_left
  intro k _
  have hdrop : (front ++ rest).drop ((k + 1) * p.entrySize) = rest.drop (k * p.entrySize) := by
    rw [Nat.succ_mul, Nat.add_comm, ← List.drop_drop, ← hfront, List.drop_left]
  simp only [Function.comp_apply, Nat.succ_eq_add_one, hdrop]

/-- Such a chunk, parsed: its offsets, and everywhere that previous value. -/
theorem CountPass.entries_chunkOf (p : CountPass) {own : List Byte} (hown : own.length = p.valueLength)
    (os : List Nat) (hos : ∀ o ∈ os, o < 2 ^ 32) : (p.entries (p.chunkOf own os)).map Entry.offset = os ∧
      ∀ e ∈ p.entries (p.chunkOf own os), p.prevFor e.prev = p.prevFor own := by
  induction os with
  | nil =>
    have hnil : p.entries (p.chunkOf own []) = [] := by
      rw [entries, chunkOf, List.flatMap_nil, List.length_nil, Nat.zero_div]
      rfl
    rw [hnil]
    exact ⟨rfl, fun e he => by cases he⟩
  | cons o os ih =>
    obtain ⟨hoff, hprev⟩ := ih fun o' h => hos o' (List.mem_cons_of_mem _ h)
    obtain ⟨hword, hfront⟩ := p.entryBytes_front (hos o List.mem_cons_self) hown (p.chunkOf own os)
    have hcons : p.chunkOf own (o :: os) = p.entryBytes o own ++ p.chunkOf own os := List.flatMap_cons
    rw [hcons, p.entries_append (p.length_entryBytes o hown)]
    exact ⟨by rw [List.map_cons, hoff, hword], List.forall_mem_cons.mpr ⟨hfront, hprev⟩⟩

/-! ## When a chunk is answered pointwise -/

/-- Every chunk with candidates at these offsets gets the pointwise reference, whatever the pattern, the mask,
the previous values, memory and `mem_buf`. -/
def ClassicPointwise (req : CountReq) (os : List Nat) : Prop :=
  ∀ (data maskData : List Byte) (mem : Memory) (memBuf : Buf) (chunk : List Byte),
    data.length = req.cp.lenData.toNat → chunk.length ≤ 0x40000 → req.offsets chunk = os →
    (req.pass data maskData).Lives .values (candidateWindows (classicServer mem req.v) (req.pass data maskData)
      req.base chunk memBuf) ∧
    scanCountChunk mem req.base (req.pass data maskData) chunk memBuf =
      pointwise mem req.base (req.pass data maskData) ((req.pass data maskData).entries chunk)

/-- The bytes of every candidate are where the handler looks for them. -/
def AllShown (v : Nat) (as : List Nat) : Prop := ∀ x ∈ as.zip (classicHistory v as), Shown v x.1 x.2

instance (v : Nat) (as : List Nat) : Decidable (AllShown v as) :=
  inferInstanceAs (Decidable (∀ x ∈ as.zip (classicHistory v as), Shown v x.1 x.2))

/-- What the handler compares of a chunk whose addresses do not wrap. -/
theorem scanCountChunk_eq (req : CountReq) (data maskData : List Byte) (mem : Memory) (memBuf : Buf)
    {chunk : List Byte} (hwrap : ∀ o ∈ req.offsets chunk, req.base + o + req.v < 2 ^ 64) :
    candidateWindows (classicServer mem req.v) (req.pass data maskData) req.base chunk memBuf =
      ((req.addrs (req.offsets chunk)).zip (classicHistory req.v (req.addrs (req.offsets chunk)))).map fun x =>
        slice (scratchOf (readMem mem 0) memBuf x.2) (x.1 - (lastWindow x.2 fun _ => 0).start) req.v := by
  have hes : (req.pass data maskData).entries chunk = (req.pass [] []).entries chunk := rfl
  have hwrap' : ∀ e ∈ (req.pass [] []).entries chunk, req.base + e.offset + req.v < 2 ^ 64 := fun e he =>
    hwrap _ (List.mem_map.mpr ⟨e, he, rfl⟩)
  have haddrs : ((req.pass data maskData).entries chunk).map (candidateAddr req.base) =
      req.addrs (req.offsets chunk) := by
    rw [hes, map_candidateAddr hwrap', CountReq.addrs, CountReq.offsets, List.map_map]
    rfl
  rw [candidateWindows, haddrs]
  exact classic_serve_eq req.v_le mem memBuf (List.forall_mem_map.mpr hwrap)

/-- If they are all shown, the chunk is answered pointwise. -/
theorem classicPointwise_of_shown (req : CountReq) {os : List Nat}
    (hwrap : ∀ o ∈ os, req.base + o + req.v < 2 ^ 64) (hshown : AllShown req.v (req.addrs os)) :
    ClassicPointwise req os := by
  intro data maskData mem memBuf chunk _ _ hos
  refine ⟨req.lives data maskData _, ?_⟩
  have hwindows := scanCountChunk_eq req data maskData mem memBuf (hos ▸ hwrap)
  rw [hos] at hwindows
  have hes : (req.addrs os).map (fun a => slice (readMem mem 0) a req.v) =
      ((req.pass data maskData).entries chunk).map fun e => freshAt mem req.v (req.base + e.offset) := by
    rw [← hos, CountReq.addrs, CountReq.offsets, List.map_map, List.map_map]
    apply List.map_congr_left
    intro e _
    exact slice_readMem_zero mem _ _
  have hfst : ((req.addrs os).zip (classicHistory req.v (req.addrs os))).map Prod.fst = req.addrs os :=
    List.map_fst_zip (Nat.le_of_eq (Server.length_history _ _ _).symm)
  have hfresh : ((req.addrs os).zip (classicHistory req.v (req.addrs os))).map (fun x =>
      slice (scratchOf (readMem mem 0) memBuf x.2) (x.1 - (lastWindow x.2 fun _ => 0).start) req.v) =
        (req.addrs os).map fun a => slice (readMem mem 0) a req.v := by
    rw [← hfst, List.map_map, hfst]
    apply List.map_congr_left
    intro x hx
    exact Server.slice_of_shown memBuf (hshown x hx)
  rw [scanCountChunk]
  simp only [show (req.pass data maskData).valueLength = req.v from rfl, hwindows, hfresh, hes]
  exact zip_filter_pointwise mem req.base (req.pass data maskData) _ (fun _ _ => rfl) _

/-! ### A candidate that is not shown -/

/-- Memory that is one at one address. -/
def oneAt (x : Nat) : Memory := fun a => if a = x then 1 else 0

theorem freshAt_oneAt {v a j : Nat} (hwrap : a + v < 2 ^ 64) :
    freshAt (oneAt (a + j)) v a = unitBytes v j := by
  apply List.map_congr_left
  intro i hi
  have hi := List.mem_range.mp hi
  rw [readMem, Nat.zero_add, u64_of_lt (by omega), oneAt]
  by_cases h : i = j
  · rw [if_pos (by omega), if_pos h]
  · rw [if_neg (by omega), if_neg h]

/-- A candidate that is not shown its byte `j` is not shown the unit that is there. -/
theorem slice_ne_unit {v a j : Nat} {reads : List (Nat × Nat)} (hj : j < v)
    (hreads : ∀ r ∈ reads, r.1 + r.2 < 2 ^ 64)
    (hnot : readFrom reads (a - (lastWindow reads fun _ => 0).start + j) ≠ some (a + j)) :
    slice (scratchOf (readMem (oneAt (a + j)) 0) (fun _ => 0) reads) (a - (lastWindow reads fun _ => 0).start) v ≠
      unitBytes v j := by
  intro heq
  have hbyte := congrArg (fun l => l.getD j 0) heq
  have hone : (unitBytes v j).getD j 0 = 1 := by simp [unitBytes, hj]
  simp only [getD_slice hj, hone, scratchOf] at hbyte
  cases hfrom : readFrom reads (a - (lastWindow reads fun _ => 0).start + j) with
  | none => rw [hfrom] at hbyte; cases hbyte
  | some x =>
    rw [hfrom] at hbyte hnot
    have hx := readFrom_lt hfrom hreads
    simp only [readMem, Nat.zero_add, u64_of_lt hx, oneAt] at hbyte
    rw [if_neg fun h => hnot (congrArg some h)] at hbyte
    cases hbyte

/-- Of two tests the weaker one counts more, if it passes an element that the other does not. -/
theorem countP_lt {α : Type} {p q : α → Bool} {l : List α} (himp : ∀ x ∈ l, p x = true → q x = true)
    (hone : ∃ x ∈ l, q x = true ∧ p x = false) : l.countP p < l.countP q := by
  obtain ⟨x, hx, hq, hp⟩ := hone
  obtain ⟨before, after, rfl⟩ := List.append_of_mem hx
  have h1 := List.countP_mono_left (l := before) (p := p) (q := q) fun y hy => himp y (by simp [hy])
  have h2 := List.countP_mono_left (l := after) (p := p) (q := q) fun y hy => himp y (by simp [hy])
  rw [List.countP_append, List.countP_append, List.countP_cons_of_pos hq,
    List.countP_cons_of_neg (by rw [hp]; exact Bool.false_ne_true)]
  omega

/-- A record that the reference reports for every candidate at its offset, and the handler not for one of them. -/
theorem records_ne {es : List Entry} {shown fresh : List (List Byte)} {keep : Entry → List Byte → Bool}
    {o : Nat} {w : List Byte} (hshown : shown.length = es.length) (hfresh : fresh.length = es.length)
    (hall : ∀ x ∈ es.zip fresh, x.1.offset = o → x.2 = w ∧ keep x.1 w = true)
    (hone : ∃ x ∈ es.zip shown, x.1.offset = o ∧ x.2 ≠ w) :
    ((es.zip shown).filter fun x => keep x.1 x.2).map (fun x => (⟨x.1.offset, x.2⟩ : ScanRecord)) ≠
      ((es.zip fresh).filter fun x => keep x.1 x.2).map fun x => ⟨x.1.offset, x.2⟩ := by
  intro heq
  have hcount := congrArg (List.countP fun r : ScanRecord => decide (r = ⟨o, w⟩)) heq
  rw [List.countP_map, List.countP_map, List.countP_filter, List.countP_filter] at hcount
  -- the reference has one for each candidate at the offset
  have href : (es.zip fresh).countP (fun x => (decide ((⟨x.1.offset, x.2⟩ : ScanRecord) = ⟨o, w⟩)) && keep x.1 x.2) =
      es.countP fun e => decide (e.offset = o) := by
    have hfst : (es.zip fresh).map Prod.fst = es := List.map_fst_zip (Nat.le_of_eq hfresh.symm)
    conv_rhs => rw [← hfst, List.countP_map]
    refine List.countP_congr fun x hx => ?_
    simp only [Bool.and_eq_true, decide_eq_true_eq, ScanRecord.mk.injEq, Function.comp_apply]
    refine ⟨fun h => h.1.1, fun h => ?_⟩
    obtain ⟨hw, hkeep⟩ := hall x hx h
    exact ⟨⟨h, hw⟩, hw.symm ▸ hkeep⟩
  -- the handler has fewer
  have hcode : (es.zip shown).countP (fun x => (decide ((⟨x.1.offset, x.2⟩ : ScanRecord) = ⟨o, w⟩)) && keep x.1 x.2) <
      es.countP fun e => decide (e.offset = o) := by
    have hfst : (es.zip shown).map Prod.fst = es := List.map_fst_zip (Nat.le_of_eq hshown.symm)
    conv_rhs => rw [← hfst, List.countP_map]
    obtain ⟨x, hx, hoff, hne⟩ := hone
    refine countP_lt (fun y _ hy => ?_) ⟨x, hx, decide_eq_true hoff, by simp [hne]⟩
    simp only [Bool.and_eq_true, decide_eq_true_eq, ScanRecord.mk.injEq] at hy
    exact decide_eq_true hy.1.1
  simp only [Function.comp_def] at hcount
  omega

/-- If one candidate is not shown, some memory makes the answer differ from the reference. -/
theorem not_classicPointwise (req : CountReq) {os : List Nat} (hrep : rescanReports req.ct req.vt = true)
    (hos : ∀ o ∈ os, o < 2 ^ 32) (hfit : os.length * (req.pass [] []).entrySize ≤ 0x40000)
    (hwrap : ∀ o ∈ os, req.base + o + req.v < 2 ^ 64) (hnot : ¬ AllShown req.v (req.addrs os)) :
    ¬ ClassicPointwise req os := by
  intro hpoint
  obtain ⟨⟨a, reads⟩, hx, hx'⟩ :
      ∃ x ∈ (req.addrs os).zip (classicHistory req.v (req.addrs os)), ¬ Shown req.v x.1 x.2 := by
    simpa only [AllShown, not_forall, exists_prop] using hnot
  obtain ⟨j, hj, hfrom⟩ : ∃ j < req.v,
      readFrom reads (a - (lastWindow reads fun _ => 0).start + j) ≠ some (a + j) := by
    simpa only [Shown, not_forall, exists_prop] using hx'
  have hwraps : ∀ a ∈ req.addrs os, a + req.v < 2 ^ 64 := List.forall_mem_map.mpr hwrap
  have ha : a + req.v < 2 ^ 64 := hwraps a (List.of_mem_zip hx).1
  -- memory is one at that byte, and the comparison accepts the value there
  obtain ⟨data, hdata⟩ : ∃ data, data = req.acceptingData j := ⟨_, rfl⟩
  have hown : (acceptingPrev req.ct req.v j).length = (req.pass data []).valueLength := length_acceptingPrev ..
  obtain ⟨hoff, hprev⟩ := (req.pass data []).entries_chunkOf hown os hos
  have hlen := (req.pass data []).length_chunkOf hown os
  generalize hchunk : (req.pass data []).chunkOf (acceptingPrev req.ct req.v j) os = chunk at hoff hprev hlen
  have hoffsets : req.offsets chunk = os := hoff
  obtain ⟨-, heq⟩ := hpoint data [] (oneAt (a + j)) (fun _ => 0) chunk
    (hdata ▸ req.length_acceptingData j) (hlen.trans_le hfit) hoffsets
  have hwindows := @scanCountChunk_eq req data [] (oneAt (a + j)) (fun _ => 0) chunk
    (by rw [hoffsets]; exact hwrap)
  rw [hoffsets] at hwindows
  rw [scanCountChunk, ← zip_filter_pointwise (oneAt (a + j)) req.base (req.pass data []) (req.pass data []).compare
    (fun _ _ => rfl)] at heq
  simp only [show (req.pass data []).valueLength = req.v from rfl, hwindows] at heq
  have haddrs : ((req.pass data []).entries chunk).map (fun e => req.base + e.offset) = req.addrs os := by
    rw [← hoff, CountReq.addrs, List.map_map]
    rfl
  have hcount : ((req.pass data []).entries chunk).length = os.length := by rw [← hoff, List.length_map]
  have hhistory : (classicHistory req.v (req.addrs os)).length = os.length := by
    rw [classicHistory, Server.length_history, CountReq.addrs, List.length_map]
  obtain ⟨o, ho⟩ : ∃ o, a = req.base + o := by
    obtain ⟨o, -, rfl⟩ := List.mem_map.mp (List.of_mem_zip hx).1
    exact ⟨o, rfl⟩
  refine @records_ne _ _ _ (fun e w => (req.pass data []).compare w ((req.pass data []).prevFor e.prev)) o
    (unitBytes req.v j) ?_ (List.length_map _) ?_ ?_ heq
  · rw [List.length_map, List.length_zip, hhistory, hcount, CountReq.addrs, List.length_map, min_self]
  · intro x hx hoffset
    rw [zip_map_self] at hx
    obtain ⟨e, he, rfl⟩ := List.mem_map.mp hx
    have hfresh : freshAt (oneAt (a + j)) req.v (req.base + e.offset) = unitBytes req.v j := by
      change e.offset = o at hoffset
      rw [hoffset, ← ho]
      exact freshAt_oneAt ha
    refine ⟨hfresh, ?_⟩
    rw [hprev e he, hdata]
    exact req.accepts_unit hrep hj
  · -- the candidate that is not shown
    obtain ⟨i, hi, hget⟩ := List.getElem_of_mem hx
    simp only [List.getElem_zip, Prod.mk.injEq] at hget
    obtain ⟨hai, hri⟩ := hget
    rw [List.length_zip, hhistory] at hi
    have hie : i < ((req.pass data []).entries chunk).length := by
      rw [hcount]
      exact Nat.lt_of_lt_of_le hi (min_le_right ..)
    refine ⟨(((req.pass data []).entries chunk)[i], slice (scratchOf (readMem (oneAt (a + j)) 0) (fun _ => 0) reads)
      (a - (lastWindow reads fun _ => 0).start) req.v), ?_, ?_, ?_⟩
    · refine List.mem_iff_getElem.mpr ⟨i, by simp only [List.length_zip, List.length_map]; omega, ?_⟩
      rw [List.getElem_zip, List.getElem_map, List.getElem_zip]
      simp only [hai, hri]
    · have hin : i < (req.addrs os).length := by omega
      have haddr : (req.addrs os)[i] = req.base + (((req.pass data []).entries chunk)[i]).offset := by
        simp only [← haddrs, List.getElem_map]
      simp only
      omega
    · refine slice_ne_unit hj (classicHistory_lt req.v_le hwraps reads ?_) hfrom
      exact (List.of_mem_zip hx).2

/-- The offsets of a chunk are words, and as many as fit. -/
theorem CountReq.offsets_spec (req : CountReq) {chunk : List Byte} (hchunk : chunk.length ≤ 0x40000) :
    (∀ o ∈ req.offsets chunk, o < 2 ^ 32) ∧
      (req.offsets chunk).length * (req.pass [] []).entrySize ≤ 0x40000 := by
  refine ⟨fun o ho => ?_, ?_⟩
  · obtain ⟨e, he, rfl⟩ := List.mem_map.mp ho
    obtain ⟨k, -, rfl⟩ := List.mem_map.mp he
    exact leNat_lt 4 _
  · rw [CountReq.offsets, List.length_map, CountPass.entries, List.length_map, List.length_range]
    exact Nat.le_trans (Nat.div_mul_le_self _ _) hchunk

/-- **A chunk is answered pointwise exactly when** nothing can be reported, or the bytes of every candidate are
in `mem_buf` where the handler looks for them. -/
theorem classic_pointwise_iff (req : CountReq) (chunk : List Byte) (hchunk : chunk.length ≤ 0x40000)
    (hwrap : ∀ o ∈ req.offsets chunk, req.base + o + req.v < 2 ^ 64) :
    ClassicPointwise req (req.offsets chunk) ↔
      rescanReports req.ct req.vt = false ∨ AllShown req.v (req.addrs (req.offsets chunk)) := by
  obtain ⟨hword, hfit⟩ := req.offsets_spec hchunk
  constructor
  · intro hpoint
    cases hrep : rescanReports req.ct req.vt with
    | false => exact .inl rfl
    | true =>
      refine .inr ?_
      by_contra hnot
      exact not_classicPointwise req hrep hword hfit hwrap hnot hpoint
  · rintro (hrep | hshown)
    · intro data maskData mem memBuf chunk' _ _ _
      refine ⟨req.lives data maskData _, ?_⟩
      have hrej := compare_of_not_rescanReports req data maskData
      simp only [scanCountChunk, pointwise, hrej _ _ hrep, List.filter_false, List.map_nil]
    · exact classicPointwise_of_shown req hwrap hshown

/-- A rescan of four-byte values from 0x1000 on. -/
def fourByteCount : CountReq where
  cp := { pid := 1, base_address := 0x1000, valueType := 4, compareType := 0, lenData := 4 }
  ct := .exactValue
  ct_eq := rfl
  v_pos := by decide
  v_le := by decide
  notFloat := rfl
  needs := by decide
  needsBetween := by decide

/-- The candidates 0, 2 and 4: the window of the first reaches to the end of the last. -/
theorem classic_pointwise_three : ClassicPointwise fourByteCount [0, 2, 4] :=
  (classic_pointwise_iff fourByteCount [0, 0, 0, 0, 2, 0, 0, 0, 4, 0, 0, 0] (by decide) (by decide)).mpr
    (.inr (by decide))

/-- Of two candidates two bytes apart, both holding the value, the second is lost. -/
theorem scanCount_loses_overlap :
    scanCountChunk (fun _ => 1) fourByteCount.base (fourByteCount.pass [1, 1, 1, 1] [])
        [0, 0, 0, 0, 2, 0, 0, 0] (fun _ => 0) = [⟨0, [1, 1, 1, 1]⟩] ∧
      pointwise (fun _ => 1) fourByteCount.base (fourByteCount.pass [1, 1, 1, 1] []) [⟨0, []⟩, ⟨2, []⟩] =
        [⟨0, [1, 1, 1, 1]⟩, ⟨2, [1, 1, 1, 1]⟩] ∧
      ¬ ClassicPointwise fourByteCount [0, 2] :=
  ⟨by decide, by decide,
    not_classicPointwise fourByteCount rfl (by decide) (by decide) (by decide) (by decide)⟩

end Ps5Debugger

import Ps5Debugger.Compare
import Ps5Debugger.Debug
import Ps5Debugger.Net
import Ps5Debugger.PageEnum
import Ps5Debugger.Target

/-!
# The legacy scan

`CMD_PROC_SCAN` (`proc_scan_handle`, `scan.c`) walks the readable maps of a process in steps of the
value length and streams the addresses whose value compares. It keeps one buffer of 0x4000 bytes and
refills it at every page, but always from the start of the map, so that every page of a map is
compared with the bytes of its first one; where that page cannot be read, with what an earlier map
left in the buffer, which is never cleared; and the comparator's exact case leaves out the last byte.

`legacy_scan_exact_iff` says for which memories that makes no difference.
-/

namespace Ps5Debugger

open Lib

/-! ## `proc_scan_legacy_compareValues` -/

/-- `_BETWEEN_LEGACY`: the bounds may come in either order and do not match themselves. -/
def betweenLegacy {α : Type} [LT α] [DecidableLT α] (mv sv ev : α) : Bool :=
  if ev > sv then decide (mv > sv) && decide (mv < ev) else decide (mv < sv) && decide (mv > ev)

/-- `case 4` of the legacy comparator. -/
def legacyBetween (vt : ValType) (scan mem extra : List Byte) : Bool :=
  match vt with
  | .u8 => betweenLegacy (leNat 1 mem) (leNat 1 scan) (leNat 1 extra)
  | .i8 => betweenLegacy (leInt 1 mem) (leInt 1 scan) (leInt 1 extra)
  | .u16 => betweenLegacy (leNat 2 mem) (leNat 2 scan) (leNat 2 extra)
  | .i16 => betweenLegacy (leInt 2 mem) (leInt 2 scan) (leInt 2 extra)
  | .u32 => betweenLegacy (leNat 4 mem) (leNat 4 scan) (leNat 4 extra)
  | .i32 => betweenLegacy (leInt 4 mem) (leInt 4 scan) (leInt 4 extra)
  | .u64 => betweenLegacy (leNat 8 mem) (leNat 8 scan) (leNat 8 extra)
  | .i64 => betweenLegacy (leInt 8 mem) (leInt 8 scan) (leInt 8 extra)
  | .f32 => betweenLegacy (leF32 mem) (leF32 scan) (leF32 extra)
  | .f64 => betweenLegacy (leF64 mem) (leF64 scan) (leF64 extra)
  | .arrBytes | .other => false

/-- `proc_scan_legacy_compareValues`; no compare type is a code above 12. The exact case compares
all bytes but the last. -/
def legacyCompareValues (ct : Option CmpType) (vt : ValType) (n : Nat) (scan mem : List Byte)
    (extra : Option (List Byte)) : Bool :=
  match ct, extra with
  | none, _ => false
  | some .exactValue, _ => if n ≤ 1 then false else bytesEqual (n - 1) scan mem
  | some .fuzzyValue, _ => compareFuzzy vt scan mem
  | some .biggerThan, _ => perValTypeBin opGt vt mem scan
  | some .smallerThan, _ => perValTypeBin opLt vt mem scan
  | some .unknownInitialValue, _ | some .unknownInitialLowValue, _ => true
  | some _, none => false
  | some .valueBetween, some e => legacyBetween vt scan mem e
  | some .increasedValue, some e => perValTypeBin opGt vt mem e
  | some .increasedValueBy, some e => perValTypeBy opAdd vt mem e scan
  | some .decreasedValue, some e => perValTypeBin opLt vt mem e
  | some .decreasedValueBy, some e => perValTypeBy opSub vt mem e scan
  | some .changedValue, some e => perValTypeBin opNe vt mem e
  | some .unchangedValue, some e => perValTypeBin opEq vt mem e

/-! ## `proc_scan_handle` -/

/-- An entry of the map list as the code reads it: both ends are 64-bit words, in any order. -/
structure ScanMap extends VmMapEntry where
  start_lt : start < 2 ^ 64
  stop_lt : stop < 2 ^ 64

/-- `section_len`. -/
def ScanMap.len (m : ScanMap) : Nat := subU64 m.stop m.start

/-- `entry->prot & 1`, and the section is not empty. -/
def ScanMap.scanned (m : ScanMap) : Bool := m.prot &&& 1 != 0 && m.len != 0

/-- `proc_read_mem(pid, start, 0x4000, scan_buf)` where it brings the bytes in `got`: each of the others
stays what it was. -/
def readPage (mem : Memory) (got : Nat → Bool) (start : Nat) (scanBuf : Buf) : Buf :=
  fun i => if i < 0x4000 ∧ got i = true then readMem mem start i else scanBuf i

/-- One comparison: the offset into the scan buffer, the address it is taken for, the verdict. -/
structure LegacyProbe where
  off : Nat
  addr : Nat
  hit : Bool
  deriving DecidableEq

/-- The loop over one map from offset `j` on; `read` is the refill, `hit` the comparator on what the
buffer holds. `none` when it goes on after `fuel` rounds. -/
def legacySection (read : Buf → Buf) (hit : List Byte → Bool) (vl start len : Nat) :
    Nat → Nat → Buf → Option (List LegacyProbe × Buf)
  | 0, j, scanBuf => if j < len then none else some ([], scanBuf)
  | fuel + 1, j, scanBuf =>
    if j < len then
      let off := j % 0x4000
      -- the refill reads from `start`, whichever page this is
      let scanBuf := if j = 0 ∨ off = 0 then read scanBuf else scanBuf
      (legacySection read hit vl start len fuel (u64 (j + vl)) scanBuf).map fun r =>
        (⟨off, u64 (start + j), hit (slice scanBuf off vl)⟩ :: r.1, r.2)
    else some ([], scanBuf)

/-- The loop over the maps. `j` has come round to where it was after 2^64 rounds, so a section that
goes on then never ends. -/
def legacyMaps (read : Nat → Buf → Buf) (hit : List Byte → Bool) (vl : Nat) :
    List ScanMap → Buf → Option (List LegacyProbe)
  | [], _ => some []
  | m :: ms, scanBuf =>
    if m.scanned = false then legacyMaps read hit vl ms scanBuf
    else (legacySection (read m.start) hit vl m.start m.len (2 ^ 64) 0 scanBuf).bind fun r =>
      (legacyMaps read hit vl ms r.2).map (r.1 ++ ·)

/-- `cmd_proc_scan_packet` without the pid. -/
structure LegacyReq where
  valueType : UInt8
  compareType : UInt8
  lenData : UInt32

/-- The value type. -/
def LegacyReq.vt (r : LegacyReq) : ValType := .ofByte r.valueType

/-- `value_length`. -/
def LegacyReq.valueLength (r : LegacyReq) : Nat := Ps5Debugger.valueLength r.vt r.lenData.toNat

/-- What the system answers: whether `data` can be allocated and what the heap held there, the maps,
what the heap held at the scan buffer, and which of the 0x4000 bytes at an address can be read. -/
structure LegacyOs where
  alloc : Bool
  raw : Buf
  maps : Option (List ScanMap)
  scanBuf : Option Buf
  got : Nat → Nat → Bool

/-- `data`: what was received over what the heap held. -/
def LegacyReq.data (r : LegacyReq) (stream : List Byte) (os : LegacyOs) : Buf :=
  let got := (netRecvAll stream r.lenData.toInt32.toInt).got
  blit (netAllocBuffer os.raw r.lenData.toNat) 0 (ofList got) got.length

/-- `extra`. -/
def LegacyReq.extra (r : LegacyReq) (data : Buf) : Option (List Byte) :=
  if r.lenData.toNat = r.valueLength then none else some (slice data r.valueLength r.valueLength)

/-- The comparator as the loop calls it. -/
def LegacyReq.compare (r : LegacyReq) (data : Buf) (window : List Byte) : Bool :=
  legacyCompareValues (CmpType.ofByte r.compareType) r.vt r.valueLength (slice data 0 r.valueLength) window
    (r.extra data)

/-- What the handler leaves: the status words, the comparisons, and what it streams. -/
structure LegacyOutcome where
  replies : List UInt32
  probes : List LegacyProbe := []
  stream : List Nat := []

/-- `endflag`. -/
def legacyEndflag : Nat := 2 ^ 64 - 1

/-- The refill over a target. -/
def LegacyOs.read (os : LegacyOs) (mem : Memory) (start : Nat) (scanBuf : Buf) : Buf :=
  readPage mem (os.got start) start scanBuf

/-- `proc_scan_handle`; `none` where it never returns. -/
def procScanHandle (mem : Memory) (data : Option LegacyReq) (stream : List Byte) (os : LegacyOs) :
    Option LegacyOutcome :=
  match data with
  | none => some { replies := [CMD_DATA_NULL] }
  | some sp =>
    if sp.lenData = 0 ∨ os.alloc = false then some { replies := [CMD_DATA_NULL] }
    else if allocEnds sp.lenData = false then none
    else match os.maps with
    | none => some { replies := [CMD_SUCCESS, CMD_ERROR] }
    | some maps =>
      let buf := sp.data stream os
      let probes := match os.scanBuf with
        | none => some []
        | some scanBuf =>
          legacyMaps (os.read mem) (sp.compare buf) sp.valueLength maps (netAllocBuffer scanBuf 0x4000)
      probes.map fun probes =>
        { replies := [CMD_SUCCESS, CMD_SUCCESS], probes
          stream := (probes.filter (·.hit)).map (·.addr) ++ [legacyEndflag] }

/-! ## What is promised -/

/-- The offsets of a map that are looked at. -/
def ScanMap.offsets (m : ScanMap) (vl : Nat) : List Nat :=
  (List.range ((m.len + vl - 1) / vl)).map (· * vl)

/-- What is looked at, in order: map and offset. -/
def legacyCandidates (maps : List ScanMap) (vl : Nat) : List (ScanMap × Nat) :=
  (maps.filter (·.scanned)).flatMap fun m => (m.offsets vl).map (m, ·)

/-- The address of a candidate. -/
def legacyAddr (x : ScanMap × Nat) : Nat := u64 (x.1.start + x.2)

/-- The relation a client asks for: the bytes equal, or the values compare. -/
def CmpType.relation (ct : CmpType) (vt : ValType) (value window : List Byte) : Bool :=
  match ct with
  | .exactValue => window == value
  | .biggerThan => perValTypeBin opGt vt window value
  | .smallerThan => perValTypeBin opLt vt window value
  | _ => false

/-- The value at an address of the target. -/
def valueAt (mem : Memory) (vl addr : Nat) : List Byte := slice (readMem mem addr) 0 vl

/-- A match: an address inside the map whose value has the relation. -/
def LegacyMatch (mem : Memory) (ct : CmpType) (vt : ValType) (vl : Nat) (value : List Byte) (x : ScanMap × Nat) :
    Bool :=
  decide (x.1.start + x.2 < x.1.stop) && ct.relation vt value (valueAt mem vl (x.1.start + x.2))

/-- **The promise** of a scan with compare type `ct` that is not refused: it returns, the stream is
exactly the matches, in order, and no comparison leaves the buffer. -/
structure LegacyExact (answer : Option LegacyOutcome) (maps : List ScanMap) (mem : Memory) (ct : CmpType)
    (vt : ValType) (vl : Nat) (value : List Byte) : Prop where
  stream : answer.map (·.stream) = some
    (((legacyCandidates maps vl).filter (LegacyMatch mem ct vt vl value)).map legacyAddr ++ [legacyEndflag])
  within : ∀ o ∈ answer, ∀ p ∈ o.probes, p.off + vl ≤ 0x4000

/-! ## The loop -/

section Loop

variable {hit : List Byte → Bool} {vl start len : Nat}

/-- The candidate at offset `j` of a map as the loop takes it: the verdict is on the page it holds. -/
def legacyProbe (hit : List Byte → Bool) (vl start : Nat) (page : Buf) (j : Nat) : LegacyProbe :=
  ⟨j % 0x4000, u64 (start + j), hit (slice page (j % 0x4000) vl)⟩

/-- A value length that divides the page never crosses its end. -/
theorem off_within (hdvd : vl ∣ 0x4000) (k : Nat) : k * vl % 0x4000 + vl ≤ 0x4000 := by
  obtain ⟨q, hq⟩ := hdvd
  have hpos : 0 < vl := Nat.pos_of_ne_zero fun h => by simp [h] at hq
  have hmod : k * vl % 0x4000 = k % q * vl := by
    rw [hq, Nat.mul_comm vl q, Nat.mul_mod_mul_right]
  have hqpos : 0 < q := Nat.pos_of_ne_zero fun h => by simp [h] at hq
  have hlt : k % q + 1 ≤ q := Nat.mod_lt k hqpos
  calc k * vl % 0x4000 + vl = (k % q + 1) * vl := by rw [hmod, Nat.add_mul, Nat.one_mul]
    _ ≤ q * vl := Nat.mul_le_mul_right vl hlt
    _ = 0x4000 := by rw [Nat.mul_comm, ← hq]

/-- A candidate is one of the counted ones when its offset is in the section. -/
theorem lt_rounds_iff (hpos : 0 < vl) (k : Nat) : k < (len + vl - 1) / vl ↔ k * vl < len := by
  rw [Nat.lt_iff_add_one_le, Nat.le_div_iff_mul_le hpos, Nat.add_mul]
  omega

/-- **The loop over one map**, from candidate `k` on: once the loop has started the buffer holds the
page that its first read left, so every candidate is judged by the bytes at its offset of that page. -/
theorem legacySection_eq {read : Buf → Buf} (hread : ∀ b, read (read b) = read b) (hpos : 0 < vl)
    (hends : len + vl ≤ 2 ^ 64) :
    ∀ (fuel k : Nat) (scanBuf page : Buf), (k ≠ 0 → scanBuf = page) → read scanBuf = page → k * vl < len →
      (len + vl - 1) / vl - k ≤ fuel →
      legacySection read hit vl start len fuel (k * vl) scanBuf =
        some ((List.range' k ((len + vl - 1) / vl - k)).map fun i => legacyProbe hit vl start page (i * vl), page) := by
  intro fuel
  induction fuel with
  | zero =>
    intro k scanBuf page _ _ hj hfuel
    have hk := (lt_rounds_iff hpos k).mpr hj
    omega
  | succ fuel ih =>
    intro k scanBuf page hbuf hpage hj hfuel
    have hk := (lt_rounds_iff hpos k).mpr hj
    have hheld : (if k * vl = 0 ∨ k * vl % 0x4000 = 0 then read scanBuf else scanBuf) = page := by
      by_cases hrefill : k * vl = 0 ∨ k * vl % 0x4000 = 0
      · rw [if_pos hrefill, hpage]
      · rw [if_neg hrefill]
        exact hbuf fun hk0 => hrefill (.inl (by rw [hk0, Nat.zero_mul]))
    have hstep : u64 (k * vl + vl) = (k + 1) * vl := by
      rw [u64_of_lt (by omega), Nat.add_mul, Nat.one_mul]
    have hrest : legacySection read hit vl start len fuel ((k + 1) * vl) page = some
        ((List.range' (k + 1) ((len + vl - 1) / vl - (k + 1))).map fun i =>
          legacyProbe hit vl start page (i * vl), page) := by
      by_cases hnext : (k + 1) * vl < len
      · have hidem : read page = page := by rw [← hpage, hread]
        exact ih (k + 1) page page (fun _ => rfl) hidem hnext (by omega)
      · have hlast := mt (@lt_rounds_iff vl len hpos (k + 1)).mp hnext
        rw [Nat.sub_eq_zero_of_le (by omega)]
        cases fuel <;> rw [legacySection, if_neg hnext] <;> rfl
    rw [legacySection, if_pos hj]
    dsimp only
    rw [hheld, hstep, hrest, show (len + vl - 1) / vl - k = (len + vl - 1) / vl - (k + 1) + 1 by omega,
      List.range'_succ, List.map_cons]
    rfl

/-- A section so long that the offset wraps past its end never ends. -/
theorem legacySection_endless {read : Buf → Buf} (hdvd : vl ∣ 2 ^ 64) (hlong : 2 ^ 64 < len + vl) :
    ∀ (fuel j : Nat) (scanBuf : Buf), vl ∣ j → j < 2 ^ 64 →
      legacySection read hit vl start len fuel j scanBuf = none := by
  have hin (j : Nat) (hj : vl ∣ j) (hlt : j < 2 ^ 64) : j < len := by
    have hgap := Nat.le_of_dvd (by omega) (Nat.dvd_sub hdvd hj)
    omega
  intro fuel
  induction fuel with
  | zero =>
    intro j scanBuf hj hlt
    rw [legacySection, if_pos (hin j hj hlt)]
  | succ fuel ih =>
    intro j scanBuf hj hlt
    have hnext : vl ∣ u64 (j + vl) := (Nat.dvd_mod_iff hdvd).mpr (Nat.dvd_add hj (Nat.dvd_refl vl))
    rw [legacySection, if_pos (hin j hj hlt)]
    dsimp only
    rw [ih _ _ hnext (u64_lt _)]
    rfl

/-! ## The maps -/

/-- The pages that the scanned maps are compared with: what the read of a map's first page left in the
buffer. -/
def shownPages (read : Nat → Buf → Buf) : List ScanMap → Buf → List (ScanMap × Buf)
  | [], _ => []
  | m :: ms, scanBuf =>
    if m.scanned = false then shownPages read ms scanBuf
    else (m, read m.start scanBuf) :: shownPages read ms (read m.start scanBuf)

theorem shownPages_maps (read : Nat → Buf → Buf) (ms : List ScanMap) (scanBuf : Buf) :
    (shownPages read ms scanBuf).map Prod.fst = ms.filter (·.scanned) := by
  induction ms generalizing scanBuf with
  | nil => rfl
  | cons m ms ih =>
    rw [shownPages]
    cases hm : m.scanned with
    | false => rw [if_pos rfl, ih, List.filter_cons, hm, if_neg (by decide)]
    | true => rw [if_neg (by decide), List.map_cons, ih, List.filter_cons, hm, if_pos rfl]

variable {read : Nat → Buf → Buf}

theorem mem_shownPages {ms : List ScanMap} {scanBuf : Buf} {x : ScanMap × Buf} (hx : x ∈ shownPages read ms scanBuf) :
    x.1 ∈ ms ∧ ∃ b, x.2 = read x.1.start b := by
  induction ms generalizing scanBuf with
  | nil => exact absurd hx List.not_mem_nil
  | cons m ms ih =>
    rw [shownPages] at hx
    by_cases hm : m.scanned = false
    · rw [if_pos hm] at hx
      exact ⟨List.mem_cons_of_mem m (ih hx).1, (ih hx).2⟩
    · rw [if_neg hm] at hx
      rcases List.mem_cons.mp hx with rfl | hx
      · exact ⟨List.mem_cons_self, scanBuf, rfl⟩
      · exact ⟨List.mem_cons_of_mem m (ih hx).1, (ih hx).2⟩

/-- All maps, when each section ends. -/
theorem legacyMaps_eq (hread : ∀ a b, read a (read a b) = read a b) (hpos : 0 < vl) (ms : List ScanMap)
    (scanBuf : Buf) (hends : ∀ m ∈ ms, m.scanned = true → m.len + vl ≤ 2 ^ 64) :
    legacyMaps read hit vl ms scanBuf = some ((shownPages read ms scanBuf).flatMap fun x =>
      (x.1.offsets vl).map (legacyProbe hit vl x.1.start x.2)) := by
  induction ms generalizing scanBuf with
  | nil => rfl
  | cons m ms ih =>
    obtain ⟨hm, hms⟩ := List.forall_mem_cons.mp hends
    rw [legacyMaps, shownPages]
    cases hscan : m.scanned with
    | false => rw [if_pos rfl, if_pos rfl, ih _ hms]
    | true =>
      have hlen : 0 < m.len := by
        rw [ScanMap.scanned, Bool.and_eq_true] at hscan
        exact Nat.pos_of_ne_zero (bne_iff_ne.mp hscan.2)
      have hrounds : (m.len + vl - 1) / vl ≤ 2 ^ 64 := (Nat.div_le_self _ _).trans (by have := hm hscan; omega)
      have hsection := @legacySection_eq hit vl m.start _ _ (hread m.start) hpos (hm hscan) (2 ^ 64) 0
        scanBuf _ (fun h => absurd rfl h) rfl (by rw [Nat.zero_mul]; exact hlen) (by rw [Nat.sub_zero]; exact hrounds)
      rw [Nat.zero_mul, Nat.sub_zero, ← List.range_eq_range'] at hsection
      rw [if_neg (by decide), if_neg (by decide), hsection, Option.bind_some, ih _ hms, Option.map_some,
        List.flatMap_cons, ScanMap.offsets, List.map_map]
      rfl

/-- A section that does not end is never left. -/
theorem legacyMaps_endless (hdvd : vl ∣ 2 ^ 64) (ms : List ScanMap) (scanBuf : Buf)
    (hlong : ¬ ∀ m ∈ ms, m.scanned = true → m.len + vl ≤ 2 ^ 64) :
    legacyMaps read hit vl ms scanBuf = none := by
  induction ms generalizing scanBuf with
  | nil => exact absurd (fun _ h => absurd h List.not_mem_nil) hlong
  | cons m ms ih =>
    rw [List.forall_mem_cons, not_and_or] at hlong
    rw [legacyMaps]
    by_cases hrest : ∀ m ∈ ms, m.scanned = true → m.len + vl ≤ 2 ^ 64
    · have hm := hlong.resolve_right (not_not_intro hrest)
      rw [Classical.not_imp] at hm
      rw [if_neg (by rw [hm.1]; decide),
        legacySection_endless hdvd (by omega) _ 0 scanBuf (Nat.dvd_zero vl) (by decide)]
      rfl
    · cases hscan : m.scanned with
      | false => rw [if_pos rfl, ih _ hrest]
      | true =>
        rw [if_neg (by decide)]
        cases legacySection (read m.start) hit vl m.start m.len (2 ^ 64) 0 scanBuf with
        | none => rfl
        | some r => rw [Option.bind_some, ih _ hrest]; rfl

end Loop

/-! ## What the comparator sees -/

/-- What decides for a candidate instead of the relation: at an exact comparison the last byte is left
out, and nothing is left of a single one. -/
def CmpType.legacySees (ct : CmpType) (vt : ValType) (n : Nat) (value window : List Byte) : Bool :=
  match ct with
  | .exactValue => decide (1 < n) && window.take (n - 1) == value.take (n - 1)
  | _ => ct.relation vt value window

theorem bytesEqual_eq_take {n : Nat} {scan mem : List Byte} (hscan : n ≤ scan.length) (hmem : n ≤ mem.length) :
    bytesEqual n scan mem = (mem.take n == scan.take n) := by
  rw [Bool.eq_iff_iff, bytesEqual_iff, beq_iff_eq]
  constructor
  · intro h
    refine List.ext_getElem (by rw [List.length_take, List.length_take]; omega) fun j hj _ => ?_
    have hlt : j < n := by
      rw [List.length_take] at hj
      omega
    have hj' := h j hlt
    rw [List.getD_eq_getElem _ _ (by omega), List.getD_eq_getElem _ _ (by omega)] at hj'
    rw [List.getElem_take, List.getElem_take, hj']
  · intro h j hj
    have hj' : (mem.take n).getD j 0 = (scan.take n).getD j 0 := by rw [h]
    rw [List.getD_eq_getElem _ _ (by rw [List.length_take]; omega),
      List.getD_eq_getElem _ _ (by rw [List.length_take]; omega), List.getElem_take, List.getElem_take] at hj'
    rw [List.getD_eq_getElem _ _ (by omega), List.getD_eq_getElem _ _ (by omega), hj']

/-- The comparator, at the three compare types that need no second value. -/
theorem legacyCompareValues_eq {ct : CmpType} (hct : ct = .exactValue ∨ ct = .biggerThan ∨ ct = .smallerThan)
    {vt : ValType} {n : Nat} {value window : List Byte} (hvalue : value.length = n)
    (hwindow : window.length = n) (extra : Option (List Byte)) :
    legacyCompareValues (some ct) vt n value window extra = ct.legacySees vt n value window := by
  rcases hct with rfl | rfl | rfl
  · rw [legacyCompareValues, CmpType.legacySees]
    by_cases hn : n ≤ 1
    · rw [if_pos hn, decide_eq_false (by omega), Bool.false_and]
    · rw [if_neg hn, decide_eq_true (by omega), Bool.true_and, bytesEqual_eq_take (by omega) (by omega)]
  · cases extra <;> rfl
  · cases extra <;> rfl

/-! ## When the promise is kept -/

/-- A list whose images are filtered by a test on the image alone is filtered alike by another only when
the tests agree: an image that passes must pass each time it occurs. -/
theorem filter_map_eq_iff {α : Type} {f : α → Nat} {p q : α → Bool} {l : List α}
    (hq : ∀ x ∈ l, ∀ y ∈ l, f x = f y → q x = q y) :
    (l.filter p).map f = (l.filter q).map f ↔ ∀ x ∈ l, p x = q x := by
  constructor
  · intro heq x hx
    have hcount : (l.filter p).countP (fun y => f y == f x) = (l.filter q).countP fun y => f y == f x := by
      have hc := congrArg (List.countP (· == f x)) heq
      rwa [List.countP_map, List.countP_map] at hc
    cases hqx : q x with
    | false =>
      have hnone : (l.filter q).countP (fun y => f y == f x) = 0 := by
        refine List.countP_eq_zero.mpr fun y hy hyx => ?_
        obtain ⟨hyl, hqy⟩ := List.mem_filter.mp hy
        rw [hq y hyl x hx (beq_iff_eq.mp hyx), hqx] at hqy
        exact Bool.false_ne_true hqy
      rw [hnone] at hcount
      refine Bool.eq_false_iff.mpr fun hpx => ?_
      exact List.countP_eq_zero.mp hcount x (List.mem_filter.mpr ⟨hx, hpx⟩) (beq_self_eq_true _)
    | true =>
      have hrest : (l.filter fun y => !q y).countP (fun y => f y == f x) = 0 := by
        refine List.countP_eq_zero.mpr fun y hy hyx => ?_
        obtain ⟨hyl, hqy⟩ := List.mem_filter.mp hy
        rw [hq y hyl x hx (beq_iff_eq.mp hyx), hqx] at hqy
        exact Bool.false_ne_true hqy
      have hp := List.countP_eq_countP_filter_add l (fun y => f y == f x) p
      have hall := List.countP_eq_countP_filter_add l (fun y => f y == f x) q
      have hmissed : (l.filter fun y => !p y).countP (fun y => f y == f x) = 0 := by
        omega
      refine Bool.not_eq_false _ |>.mp fun hpx => ?_
      exact List.countP_eq_zero.mp hmissed x (List.mem_filter.mpr ⟨hx, by rw [hpx]; rfl⟩) (beq_self_eq_true _)
  · intro h
    rw [List.filter_congr h]

/-- A request that gets as far as the maps. -/
structure LegacyReq.Started (sp : LegacyReq) (os : LegacyOs) (maps : List ScanMap) : Prop where
  sized : sp.lenData ≠ 0
  alloc : os.alloc = true
  maps : os.maps = some maps

/-- The candidates with the page each is compared with. -/
def shownCandidates (read : Nat → Buf → Buf) (maps : List ScanMap) (scanBuf : Buf) (vl : Nat) :
    List ((ScanMap × Nat) × Buf) :=
  (shownPages read maps scanBuf).flatMap fun x => (x.1.offsets vl).map fun j => ((x.1, j), x.2)

theorem shownCandidates_eq (read : Nat → Buf → Buf) (maps : List ScanMap) (scanBuf : Buf) (vl : Nat) :
    (shownCandidates read maps scanBuf vl).map Prod.fst = legacyCandidates maps vl := by
  rw [legacyCandidates, ← shownPages_maps read maps scanBuf, List.flatMap_map, shownCandidates, List.map_flatMap]
  simp only [List.map_map, Function.comp_def]

/-- Of a map whose ends are in order every candidate lies inside. -/
theorem ScanMap.offset_inside {m : ScanMap} (horder : m.start ≤ m.stop) {vl j : Nat} (hpos : 0 < vl)
    (hj : j ∈ m.offsets vl) : m.start + j < m.stop := by
  obtain ⟨k, hk, rfl⟩ := List.mem_map.mp hj
  have hin := (lt_rounds_iff hpos k).mp (List.mem_range.mp hk)
  rw [ScanMap.len, subU64] at hin
  have := m.start_lt
  have := m.stop_lt
  omega

theorem mem_shownCandidates {read : Nat → Buf → Buf} {maps : List ScanMap} {scanBuf : Buf} {vl : Nat}
    {x : (ScanMap × Nat) × Buf} (hx : x ∈ shownCandidates read maps scanBuf vl) :
    x.1.1 ∈ maps ∧ x.1.2 ∈ x.1.1.offsets vl ∧ ∃ b, x.2 = read x.1.1.start b := by
  obtain ⟨y, hy, hxy⟩ := List.mem_flatMap.mp hx
  obtain ⟨j, hj, rfl⟩ := List.mem_map.mp hxy
  obtain ⟨hm, hb⟩ := mem_shownPages hy
  exact ⟨hm, hj, hb⟩

/-- Of maps whose ends are in order, whether a candidate is a match is a matter of its address. -/
theorem legacyMatch_of_addr {mem : Memory} {ct : CmpType} {vt : ValType} {vl : Nat} (value : List Byte)
    {x y : ScanMap × Nat} (hx : x.1.start + x.2 < x.1.stop) (hy : y.1.start + y.2 < y.1.stop)
    (haddr : legacyAddr x = legacyAddr y) :
    LegacyMatch mem ct vt vl value x = LegacyMatch mem ct vt vl value y := by
  have := x.1.stop_lt
  have := y.1.stop_lt
  have hsame : x.1.start + x.2 = y.1.start + y.2 := by
    rwa [legacyAddr, legacyAddr, u64_of_lt (by omega), u64_of_lt (by omega)] at haddr
  rw [LegacyMatch, LegacyMatch, decide_eq_true hx, decide_eq_true hy, hsame]

/-- Of such maps a test that streams the matches is the matches' own. -/
theorem hits_eq_matches {read : Nat → Buf → Buf} {maps : List ScanMap} {scanBuf : Buf} {vl : Nat}
    {hit : (ScanMap × Nat) × Buf → Bool} {mem : Memory} {ct : CmpType} {vt : ValType} {value : List Byte}
    (horder : ∀ m ∈ maps, m.start ≤ m.stop) (hpos : 0 < vl)
    (heq : ((shownCandidates read maps scanBuf vl).filter hit).map (fun x => legacyAddr x.1) =
      ((shownCandidates read maps scanBuf vl).filter fun x => LegacyMatch mem ct vt vl value x.1).map
        fun x => legacyAddr x.1) :
    ∀ x ∈ shownCandidates read maps scanBuf vl, hit x = LegacyMatch mem ct vt vl value x.1 := by
  refine (filter_map_eq_iff fun x hx y hy haddr => ?_).mp heq
  obtain ⟨hxm, hxj, _⟩ := mem_shownCandidates hx
  obtain ⟨hym, hyj, _⟩ := mem_shownCandidates hy
  exact legacyMatch_of_addr value (ScanMap.offset_inside (horder _ hxm) hpos hxj)
    (ScanMap.offset_inside (horder _ hym) hpos hyj) haddr

/-- Every section ends, and at each candidate the page that it is compared with tells what the target's
memory would have told; with no buffer, nothing may be a match. -/
def LegacyReq.PagesTell (sp : LegacyReq) (os : LegacyOs) (maps : List ScanMap) (mem : Memory) (ct : CmpType)
    (value : List Byte) : Prop :=
  match os.scanBuf with
  | none => ∀ x ∈ legacyCandidates maps sp.valueLength, LegacyMatch mem ct sp.vt sp.valueLength value x = false
  | some scanBuf => (∀ m ∈ maps, m.scanned = true → m.len + sp.valueLength ≤ 2 ^ 64) ∧
      ∀ x ∈ shownCandidates (os.read mem) maps (netAllocBuffer scanBuf 0x4000) sp.valueLength,
        ct.legacySees sp.vt sp.valueLength value (slice x.2 (x.1.2 % 0x4000) sp.valueLength) =
          LegacyMatch mem ct sp.vt sp.valueLength value x.1

/-- What the buffer holds of a value that was sent whole is that value. -/
theorem LegacyReq.data_value (sp : LegacyReq) (stream : List Byte) (os : LegacyOs)
    (hlen : sp.lenData.toNat < 2 ^ 31) (hwhole : sp.valueLength ≤ sp.lenData.toNat)
    (hsent : sp.lenData.toNat ≤ stream.length) :
    slice (sp.data stream os) 0 sp.valueLength = stream.take sp.valueLength := by
  have hgot : (netRecvAll stream sp.lenData.toInt32.toInt).got = stream.take sp.lenData.toNat := by
    rw [netRecvAll_eq]
    dsimp only
    rw [toNat_int, if_pos hlen]
  have hgotlen : (stream.take sp.lenData.toNat).length = sp.lenData.toNat := by
    rw [List.length_take, Nat.min_eq_left hsent]
  rw [LegacyReq.data, hgot, hgotlen]
  refine List.ext_getElem (by rw [length_slice, List.length_take]; omega) fun i hi _ => ?_
  rw [length_slice] at hi
  rw [← List.getD_eq_getElem _ 0, getD_slice hi, Nat.zero_add, blit_zero_of_lt (by omega), ofList,
    List.getD_eq_getElem _ _ (by omega), List.getElem_take, List.getElem_take]

/-- An integer value is one, two, four or eight bytes. -/
theorem LegacyReq.valueLength_dvd (sp : LegacyReq) (hvt : sp.vt.isInteger = true) :
    sp.valueLength ∣ 0x4000 ∧ 0 < sp.valueLength := by
  have hsize (vt : ValType) (hvt : vt.isInteger = true) :
      sizeOfValueType vt ≠ 0 ∧ sizeOfValueType vt ∣ 0x4000 ∧ 0 < sizeOfValueType vt := by
    cases vt <;> first | decide | cases hvt
  obtain ⟨hne, h⟩ := hsize sp.vt hvt
  rw [LegacyReq.valueLength, Ps5Debugger.valueLength, if_neg hne]
  exact h

/-- A read twice over brings nothing new. -/
theorem LegacyOs.read_read (os : LegacyOs) (mem : Memory) (start : Nat) (scanBuf : Buf) :
    os.read mem start (os.read mem start scanBuf) = os.read mem start scanBuf := by
  funext i
  simp only [LegacyOs.read, readPage]
  split <;> rfl

section Answer

variable {mem : Memory} {sp : LegacyReq} {stream : List Byte} {os : LegacyOs} {maps : List ScanMap}
  (hstart : sp.Started os maps)

include hstart

/-- A value too long to be allocated. -/
theorem procScanHandle_endless (hends : allocEnds sp.lenData = false) :
    procScanHandle mem (some sp) stream os = none := by
  rw [procScanHandle, if_neg (by simp [hstart.sized, hstart.alloc]), if_pos hends]

variable (hends : allocEnds sp.lenData = true)

include hends

theorem procScanHandle_none (hbuf : os.scanBuf = none) :
    procScanHandle mem (some sp) stream os =
      some { replies := [CMD_SUCCESS, CMD_SUCCESS], probes := [], stream := [legacyEndflag] } := by
  rw [procScanHandle, if_neg (by simp [hstart.sized, hstart.alloc]), if_neg (by simp [hends]), hstart.maps,
    hbuf]
  rfl

theorem procScanHandle_some {scanBuf : Buf} (hbuf : os.scanBuf = some scanBuf) :
    procScanHandle mem (some sp) stream os =
      (legacyMaps (os.read mem) (sp.compare (sp.data stream os)) sp.valueLength maps
        (netAllocBuffer scanBuf 0x4000)).map fun probes =>
          { replies := [CMD_SUCCESS, CMD_SUCCESS], probes
            stream := (probes.filter (·.hit)).map (·.addr) ++ [legacyEndflag] } := by
  rw [procScanHandle, if_neg (by simp [hstart.sized, hstart.alloc]), if_neg (by simp [hends]), hstart.maps,
    hbuf]

/-- What a scan whose sections end does: one probe a candidate. -/
theorem procScanHandle_shown {scanBuf : Buf} (hbuf : os.scanBuf = some scanBuf) (hpos : 0 < sp.valueLength)
    (hlen : ∀ m ∈ maps, m.scanned = true → m.len + sp.valueLength ≤ 2 ^ 64) :
    procScanHandle mem (some sp) stream os =
      let probe (x : (ScanMap × Nat) × Buf) :=
        legacyProbe (sp.compare (sp.data stream os)) sp.valueLength x.1.1.start x.2 x.1.2
      let all := shownCandidates (os.read mem) maps (netAllocBuffer scanBuf 0x4000) sp.valueLength
      some { replies := [CMD_SUCCESS, CMD_SUCCESS]
             probes := all.map probe
             stream := (all.filter fun x => (probe x).hit).map (fun x => legacyAddr x.1) ++ [legacyEndflag] } := by
  have hprobes : legacyMaps (os.read mem) (sp.compare (sp.data stream os)) sp.valueLength maps
      (netAllocBuffer scanBuf 0x4000) = some ((shownCandidates (os.read mem) maps (netAllocBuffer scanBuf 0x4000)
        sp.valueLength).map fun x =>
          legacyProbe (sp.compare (sp.data stream os)) sp.valueLength x.1.1.start x.2 x.1.2) := by
    rw [legacyMaps_eq (os.read_read mem) hpos maps _ hlen, shownCandidates, List.map_flatMap]
    simp only [List.map_map, Function.comp_def]
  rw [procScanHandle_some hstart hends hbuf, hprobes, Option.map_some, List.filter_map, List.map_map]
  rfl

end Answer

/-- The verdict on a candidate. -/
theorem LegacyReq.compare_eq (sp : LegacyReq) {ct : CmpType} (hct : CmpType.ofByte sp.compareType = some ct)
    (hkind : ct = .exactValue ∨ ct = .biggerThan ∨ ct = .smallerThan) (data page : Buf) (off : Nat) :
    sp.compare data (slice page off sp.valueLength) =
      ct.legacySees sp.vt sp.valueLength (slice data 0 sp.valueLength) (slice page off sp.valueLength) := by
  rw [LegacyReq.compare, hct]
  exact legacyCompareValues_eq hkind (length_slice ..) (length_slice ..) _

section Exact

variable {mem : Memory} {sp : LegacyReq} {stream : List Byte} {os : LegacyOs} {maps : List ScanMap} {ct : CmpType}

/-- Without a buffer nothing is streamed. -/
theorem exact_none_iff (hstart : sp.Started os maps) (hends : allocEnds sp.lenData = true)
    (hbuf : os.scanBuf = none) (value : List Byte) :
    LegacyExact (procScanHandle mem (some sp) stream os) maps mem ct sp.vt sp.valueLength value ↔
      sp.PagesTell os maps mem ct value := by
  have hanswer : procScanHandle mem (some sp) stream os = _ := procScanHandle_none hstart hends hbuf
  rw [LegacyReq.PagesTell, hbuf, hanswer]
  constructor
  · intro h
    have hnone := List.append_left_eq_self.mp (Option.some.inj h.stream).symm
    exact fun x hx => Bool.eq_false_iff.mpr (List.filter_eq_nil_iff.mp (List.map_eq_nil_iff.mp hnone) x hx)
  · intro h
    refine ⟨?_, fun o ho p hp => ?_⟩
    · rw [List.filter_eq_nil_iff.mpr fun x hx => Bool.eq_false_iff.mp (h x hx)]
      rfl
    · rw [← Option.some.inj ho] at hp
      exact absurd hp List.not_mem_nil

variable (hct : CmpType.ofByte sp.compareType = some ct)
  (hkind : ct = .exactValue ∨ ct = .biggerThan ∨ ct = .smallerThan)

include hct hkind

/-- With a buffer and sections that end, the promise is about the two ways to filter the candidates. -/
theorem exact_some_iff (hstart : sp.Started os maps) (hends : allocEnds sp.lenData = true) {scanBuf : Buf}
    (hbuf : os.scanBuf = some scanBuf) (hvt : sp.vt.isInteger = true)
    (hlen : ∀ m ∈ maps, m.scanned = true → m.len + sp.valueLength ≤ 2 ^ 64) :
    let value := slice (sp.data stream os) 0 sp.valueLength
    let all := shownCandidates (os.read mem) maps (netAllocBuffer scanBuf 0x4000) sp.valueLength
    LegacyExact (procScanHandle mem (some sp) stream os) maps mem ct sp.vt sp.valueLength value ↔
      (all.filter fun x => ct.legacySees sp.vt sp.valueLength value
        (slice x.2 (x.1.2 % 0x4000) sp.valueLength)).map (fun x => legacyAddr x.1) =
      (all.filter fun x => LegacyMatch mem ct sp.vt sp.valueLength value x.1).map (fun x => legacyAddr x.1) := by
  dsimp only
  obtain ⟨hdvd, hpos⟩ := sp.valueLength_dvd hvt
  have hanswer : procScanHandle mem (some sp) stream os = _ := procScanHandle_shown hstart hends hbuf hpos hlen
  have hwanted := shownCandidates_eq (os.read mem) maps (netAllocBuffer scanBuf 0x4000) sp.valueLength
  rw [hanswer]
  dsimp only [legacyProbe]
  simp only [sp.compare_eq hct hkind]
  constructor
  · intro h
    have hstream := List.append_cancel_right (Option.some.inj h.stream)
    rw [hstream, ← hwanted, List.filter_map, List.map_map]
    rfl
  · intro h
    refine ⟨?_, fun o ho p hp => ?_⟩
    · rw [Option.map_some, h, ← hwanted, List.filter_map, List.map_map]
      rfl
    · rw [← Option.some.inj ho] at hp
      obtain ⟨x, hx, rfl⟩ := List.mem_map.mp hp
      obtain ⟨m, _, hxm⟩ := List.mem_flatMap.mp hx
      obtain ⟨j, hj, rfl⟩ := List.mem_map.mp hxm
      obtain ⟨k, _, rfl⟩ := List.mem_map.mp hj
      exact off_within hdvd k

end Exact

/-- What a page that can be read shows. -/
theorem LegacyOs.slice_read {os : LegacyOs} {mem : Memory} {start off vl : Nat} {b : Buf}
    (hgot : ∀ i, os.got start i = true) (hoff : off + vl ≤ 0x4000) :
    slice (os.read mem start b) off vl = valueAt mem vl (start + off) := by
  refine List.map_congr_left fun i hi => ?_
  have hlt := List.mem_range.mp hi
  rw [LegacyOs.read, readPage, if_pos ⟨by omega, hgot _⟩, readMem, readMem, Nat.zero_add, Nat.add_assoc]

/-- Bigger and smaller scans are exact of maps of at most a page that can be read. -/
theorem LegacyReq.pagesTell_of_onePage (sp : LegacyReq) {os : LegacyOs} {maps : List ScanMap} (mem : Memory)
    {ct : CmpType} (value : List Byte) (hct : ct = .biggerThan ∨ ct = .smallerThan)
    (hvt : sp.vt.isInteger = true) {scanBuf : Buf} (hbuf : os.scanBuf = some scanBuf)
    (hpage : ∀ m ∈ maps, m.start ≤ m.stop ∧ m.len ≤ 0x4000) (hgot : ∀ m ∈ maps, ∀ i, os.got m.start i = true) :
    sp.PagesTell os maps mem ct value := by
  obtain ⟨hdvd, hpos⟩ := sp.valueLength_dvd hvt
  rw [LegacyReq.PagesTell, hbuf]
  constructor
  · intro m hm _
    have hvl := Nat.le_of_dvd (by decide) hdvd
    have hlen := (hpage m hm).2
    omega
  · intro x hx
    obtain ⟨hm, hj, b, hb⟩ := mem_shownCandidates hx
    obtain ⟨horder, hlen⟩ := hpage x.1.1 hm
    have hinside := ScanMap.offset_inside horder hpos hj
    obtain ⟨k, hk, hoffset⟩ := List.mem_map.mp hj
    have hwithin := off_within hdvd k
    have hin := (lt_rounds_iff hpos k).mp (List.mem_range.mp hk)
    have hoff : x.1.2 % 0x4000 = x.1.2 := Nat.mod_eq_of_lt (by omega)
    rw [hoffset, hoff] at hwithin
    rw [hoff, hb, LegacyOs.slice_read (hgot x.1.1 hm) hwithin, LegacyMatch, decide_eq_true hinside,
      Bool.true_and]
    rcases hct with rfl | rfl <;> rfl

/-- A page of readable memory. -/
def onePage : ScanMap := ⟨⟨"", 0x400000, 0x404000, 0, 1⟩, by decide, by decide⟩

/-- The words of this memory are `0x01000001`. -/
def edgeMemory : Memory := fun i => if i % 4 = 0 ∨ i % 4 = 3 then 1 else 0

def onePageOs : LegacyOs := ⟨true, fun _ => 0, some [onePage], some fun _ => 0, fun _ _ => true⟩

/-- The first word is a candidate. -/
theorem onePage_first : ((onePage, 0), onePageOs.read edgeMemory 0x400000 (netAllocBuffer (fun _ => 0) 0x4000)) ∈
    shownCandidates (onePageOs.read edgeMemory) [onePage] (netAllocBuffer (fun _ => 0) 0x4000) 4 :=
  List.mem_flatMap.mpr ⟨_, List.mem_cons_self,
    List.mem_map.mpr ⟨0, List.mem_map.mpr ⟨0, List.mem_range.mpr (by decide), rfl⟩, rfl⟩⟩

end Ps5Debugger

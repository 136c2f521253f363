import Ps5Debugger.RescanLoop
import Ps5Debugger.StartScans

/-!
# What the comparators read of the pattern

A scan value travels as a *pattern* of `lenData` bytes. Whether there is one depends on the compare
type, how long it is on the client, and how much of it a comparator reads on the value type; nothing
compares the three. SCAN_START and turbo START reject a `lenData` of zero but no other short one, and
take the upper bound of a between from behind the first value whatever was sent; the COUNT handlers look
at `lenData` before they use such a bound, but at nothing else, and leave the pattern a null pointer if
`lenData` is zero. `find_scalar` loads the value at every width before it looks at the type.

The comparators of `PatternLoads` say which bytes they load through the pattern pointer, for one
candidate; a `ValueRun` is what a handler compares, in whatever session and with whatever memory.
`value_reads_received` says how much of a value a client has to send (`ValueRequest.Enough`) so that
only bytes that were received are read.
-/

namespace Ps5Debugger

open Lib

/-- What a handler compares, and with what. -/
structure ValueRun where
  comparing : Comparing
  /-- how many bytes of the pattern were received -/
  received : Nat
  /-- the calls of the comparators: of the first so many passes, where the handler loops for as long as
  its client likes -/
  calls : Nat → List CompareCall
  null : comparing.pattern = none → received = 0

/-- Every byte that is read of the pattern was received, and the pointer is not null when it is
dereferenced. -/
def ValueRun.ReadsReceived (r : ValueRun) : Prop :=
  ∀ passes, ∀ call ∈ r.calls passes, ∀ x ∈ call.reads r.comparing, 0 < x.2 →
    r.comparing.pattern.isSome = true ∧ x.1 + x.2 ≤ r.received

/-- The bytes received, if there is a pattern. -/
def receivedOf (pattern : Option (List Byte)) (got : Nat) : Nat := if pattern.isSome then got else 0

theorem receivedOf_none {pattern : Option (List Byte)} (got : Nat) (h : pattern = none) :
    receivedOf pattern got = 0 := by
  rw [receivedOf, h]
  rfl

/-! ## START -/

/-- What a START compares with. -/
def Pass.comparing (p : Pass) (lenData : UInt32) : Comparing :=
  ⟨p.ct, p.vt, lenData.toNat, p.pattern, p.mask, p.prevForBetween.isNone⟩

/-- The calls on a chunk. -/
def ChunkScan.calls : ChunkScan → List CompareCall
  | .find r => [.find r.len]
  | .compare _ probes => probes.map fun q => .values q.window

/-- What a START compares. -/
def StartRun.valueRun (r : StartRun) (data : List Byte) : ValueRun where
  comparing := r.pass.comparing r.lenData
  received := receivedOf r.pass.pattern (netRecvAll data r.lenData.toInt32.toInt).got.length
  calls := fun _ => r.scans.flatMap ChunkScan.calls
  null := receivedOf_none _

/-- What `proc_scan_start_handle` compares. -/
def scanStartRun (mem : Memory) (auth buffersOk : Bool) (sp : ScanStartPacket) (data maskData : List Byte)
    (raw : Buf) : Option ValueRun :=
  (procScanStart mem auth buffersOk sp data maskData raw).map fun r => r.valueRun data

/-- What `proc_turboscan_start_handle` compares; a snapshot compares nothing. -/
def turboStartRun (auth : Bool) (c : TurboStart) : Option ValueRun :=
  (procTurboscanStart auth c).map fun r => r.valueRun c.data

/-! ## COUNT -/

/-- The chunk that a pass of the loop serves, empty if it serves none. -/
def ChunkState.chunk (st : ChunkState) : List Byte :=
  let word := netRecvAll st.stream 4
  let chunkLen := leNat 4 word.got
  if chunkLen = 0xFFFFFFFF ∨ chunkLen = 0 ∨ chunkLen > 0x40000 then []
  else slice (recvInto st.chunkBuf (netRecvAll word.rest chunkLen)) 0 chunkLen

/-- The calls of the first so many passes; `calls` is those for the `k`-th chunk. -/
def passCalls (calls : Nat → List Byte → List CompareCall) : Nat → ChunkState → List CompareCall
  | 0, _ => []
  | passes + 1, st =>
    calls st.served st.chunk ++
      match chunkPass (fun _ _ => some []) st with
      | .inl st' => passCalls calls passes st'
      | .inr _ => []

/-- A COUNT run, from the prologue that both handlers share. -/
def countRun (env : RescanEnv) (cp : ScanCountPacket) (stream : List Byte)
    (calls : CountPass → ChunkState → Nat → List CompareCall) : Option ValueRun :=
  if countRefused env (some cp) || patternStalls (CmpType.ofByte cp.compareType) cp.lenData then none
  else
    (countStart env cp stream).map fun x =>
      { comparing := x.1.comparing
        received := receivedOf x.1.pattern (recvPattern cp stream).got.length
        calls := calls x.1 x.2
        null := receivedOf_none _ }

/-- What `proc_scan_count_handle` compares. -/
def scanCountRun (env : RescanEnv) (cp : ScanCountPacket) (stream : List Byte) : Option ValueRun :=
  countRun env cp stream fun p st passes =>
    passCalls (fun k chunk => (candidateWindows (classicServer (env.mem k) p.valueLength) p
      cp.base_address.toNat chunk (env.memBuf k)).map .values) passes st

/-! ### The resident COUNT -/

/-- The windows of `snapGroup`. -/
def groupWindows (s : SnapSession) (cmp : List Byte → List Byte → Bool) (win : Buf) (windowStart i last : Nat) :
    Nat → Nat → GroupState → List (List Byte)
  | 0, _, _ => []
  | fuel + 1, k, st =>
    if k ≤ last then
      let st := snapCompare s cmp win windowStart i st k
      slice (view win (subU64 (s.addr k) windowStart)) 0 s.valueLength ::
        groupWindows s cmp win windowStart i last fuel (nextSet st.bitmap (k + 1) s.slotCount) st
    else []

/-- The windows of `snapWindow`, which starts from the same state. -/
def windowWindows {mem : Memory} (actx : Option (AliasEngine mem)) (cmp : List Byte → List Byte → Bool)
    (sc : SnapScan) (i : Nat) : List (List Byte) :=
  let s := sc.sess
  let windowStart := s.addr i
  let g := s.windowAt i
  let win := rescanWindowRead actx windowStart (subU64 g.1 windowStart) sc.memBuf
  let blOff := i * s.valueLength
  let blLen := (g.2 - i + 1) * s.valueLength
  let bl :=
    if blOff + blLen > s.store.ramBytes then s.store.read sc.blBuf blOff blLen else view s.store.ram blOff
  groupWindows s cmp win.1 windowStart i g.2 (s.slotCount + 1) i ⟨s.bitmap, bl, false, sc.survivors⟩

/-- The windows of `snapLoop`. -/
def loopWindows {mem : Memory} (actx : Option (AliasEngine mem)) (cmp : List Byte → List Byte → Bool) :
    Nat → Nat → SnapScan → List (List Byte)
  | 0, _, _ => []
  | fuel + 1, i, sc =>
    if i < sc.sess.slotCount then
      let last := (sc.sess.windowAt i).2
      let sc' := snapWindow actx cmp sc i
      windowWindows actx cmp sc i ++
        loopWindows actx cmp fuel (nextSet sc'.sess.bitmap (last + 1) sc.sess.slotCount) sc'
    else []

/-- The windows of `snapRescan`. -/
def snapWindows {mem : Memory} (actx : Option (AliasEngine mem)) (cmp : List Byte → List Byte → Bool)
    (s : SnapSession) (memBuf blBuf : Buf) : List (List Byte) :=
  loopWindows actx cmp (s.slotCount + 1) (nextSet s.bitmap 0 s.slotCount) ⟨s, memBuf, blBuf, 0, []⟩

/-- What a turbo COUNT meets in addition: an alias context for each chunk, the session of its connection,
and `bl_buf`, if it can be had. -/
structure TurboCountEnv extends RescanEnv where
  actx : ∀ k, Option (AliasEngine (mem k))
  session : Option Session
  blBuf : Option Buf

/-- The alias context that is used for the `k`-th chunk. -/
def TurboCountEnv.rescanActx (env : TurboCountEnv) (flags : UInt32) (k : Nat) :
    Option (AliasEngine (env.mem k)) :=
  if hasFlag flags TS_RESCAN_ALIASING then env.actx k else none

/-- The windows of a resident COUNT; a session of another value length is left alone. -/
def residentWindows (env : TurboCountEnv) (flags : UInt32) (p : CountPass) : List (List Byte) :=
  match env.session with
  | none => []
  | some (.list s) =>
    if s.layout.valueLength = p.valueLength then
      listWindows (env.rescanActx flags 0) p.residentCompare s (env.memBuf 0)
    else []
  | some (.snapshot s) =>
    match env.blBuf with
    | none => []
    | some blBuf =>
      if s.valueLength = p.valueLength ∧ s.slotCount ≠ 0 then
        snapWindows (env.rescanActx flags 0) p.residentCompare s (env.memBuf 0) blBuf
      else []

/-- What `proc_turboscan_count_handle` compares. -/
def turboCountRun (env : TurboCountEnv) (cp : ScanCountPacket) (flags : UInt32) (stream : List Byte) :
    Option ValueRun :=
  countRun env.toRescanEnv cp stream fun p st passes =>
    if hasFlag flags TS_SERVER_RESIDENT then (residentWindows env flags p).map p.turboCall
    else
      passCalls (fun k chunk => (candidateWindows (turboServer (env.rescanActx flags k) p.valueLength) p
        cp.base_address.toNat chunk (env.memBuf k)).map p.turboCall) passes st

/-! ## What the comparators need -/

namespace Comparing

/-- How much of the pattern `proc_scan_compareValues` and `scan_point_compare` may look at. -/
def needs (c : Comparing) : Nat :=
  match c.ct with
  | .exactValue => c.n
  | .fuzzyValue => if c.vt.isFloat then c.size else 0
  | .biggerThan | .smallerThan | .unknownInitialLowValue => c.size
  | .valueBetween => if c.prevNull then 0 else 2 * c.size
  | .increasedValueBy | .decreasedValueBy => if c.prevNull then 0 else c.deltaSize
  | .increasedValue | .decreasedValue | .changedValue | .unchangedValue | .unknownInitialValue => 0

end Comparing

/-- How much `scan_simd_find_exact` may load: `find_scalar` loads all of a `uint64_t`, whatever the type. -/
def findNeeds (vt : ValType) : Nat :=
  if vt = .u32 ∨ vt = .i32 then 4
  else if sizeOfValueType vt = 0 then 0
  else 8

/-- The loop stays within the first `got` bytes if there are no more, or if it leaves at one of them. -/
theorem loopReads_le_iff {n got : Nat} {leaves : Nat → Bool} :
    loopReads n leaves ≤ got ↔ n ≤ got ∨ ∃ j < got, leaves j = true := by
  rw [loopReads]
  cases hfind : (List.range n).find? leaves with
  | none =>
    rw [List.find?_range_eq_none] at hfind
    refine ⟨.inl, ?_⟩
    rintro (h | ⟨j, hj, hleaves⟩)
    · exact h
    · have hstay := hfind j
      rw [hleaves] at hstay
      by_cases hjn : j < n
      · exact absurd (hstay hjn) Bool.false_ne_true
      · exact Nat.le_trans (Nat.not_lt.mp hjn) (Nat.le_of_lt hj)
  | some first =>
    rw [List.find?_range_eq_some] at hfind
    obtain ⟨hfirst, hmem, hbefore⟩ := hfind
    have hlt := List.mem_range.mp hmem
    refine ⟨fun h => .inr ⟨first, h, hfirst⟩, ?_⟩
    rintro (h | ⟨j, hj, hleaves⟩)
    · exact Nat.le_trans hlt h
    · have hstay := hbefore j
      rw [hleaves] at hstay
      by_cases hjn : j < first
      · exact absurd (hstay hjn) Bool.false_ne_true
      · exact Nat.le_trans (Nat.succ_le_succ (Nat.not_lt.mp hjn)) hj

/-- The length of a value of a type with a size is that size. -/
theorem Comparing.n_eq (c : Comparing) (h : c.size ≠ 0) : c.n = c.size := by
  rw [Comparing.n, valueLength]
  exact if_neg h

theorem Comparing.size_le_n (c : Comparing) : c.size ≤ c.n := by
  by_cases h : c.size = 0
  · omega
  · exact (c.n_eq h).ge

/-- A list of loads at the pattern that stay within `got` bytes. -/
def Within (got : Nat) (loads : List (Nat × Nat)) : Prop := ∀ x ∈ loads, 0 < x.2 → x.1 + x.2 ≤ got

section Within

variable {got : Nat}

theorem within_nil : Within got [] := fun _ hx => by cases hx

theorem within_one {len : Nat} (h : len ≤ got) : Within got [(0, len)] := by
  rw [Within, List.forall_mem_singleton, Nat.zero_add]
  exact fun _ => h

/-- The value and, behind it, the upper bound. -/
theorem within_between (c : Comparing) (h : 2 * c.size ≤ got) : Within got [(0, c.size), (c.n, c.size)] := by
  rw [Within, List.forall_mem_cons, List.forall_mem_singleton, Nat.zero_add]
  refine ⟨fun _ => by omega, fun hpos => ?_⟩
  have hn := c.n_eq (Nat.ne_of_gt hpos)
  dsimp only
  omega

/-- **What `proc_scan_compareValues` needs.** -/
theorem within_valueReads (c : Comparing) (mem : List Byte) (h : c.needs ≤ got) : Within got (c.valueReads mem) := by
  have hle := c.size_le_n
  rw [Comparing.needs] at h
  rw [Comparing.valueReads]
  cases hct : c.ct with
  | exactValue =>
    simp only [hct] at h
    cases hvt : c.vt with
    | f32 | f64 =>
      rw [Comparing.size, hvt] at hle
      exact within_one (hle.trans h)
    | _ => exact within_one ((loopReads_le_iff.mpr (.inl (le_refl _))).trans h)
  | fuzzyValue =>
    cases hvt : c.vt with
    | f32 | f64 =>
      simp only [hct, hvt, Comparing.size] at h
      exact within_one h
    | _ => exact within_nil
  | valueBetween =>
    simp only [hct] at h
    dsimp only
    split
    · exact within_nil
    · next hprev =>
      rw [if_neg hprev] at h
      exact within_between c h
  | unknownInitialLowValue =>
    simp only [hct] at h
    dsimp only
    split
    · exact within_one h
    · exact within_nil
  | increasedValueBy | decreasedValueBy =>
    simp only [hct] at h
    dsimp only
    split
    · exact within_nil
    · next hprev =>
      rw [if_neg hprev] at h
      exact within_one h
  | biggerThan | smallerThan =>
    simp only [hct] at h
    exact within_one h
  | increasedValue | decreasedValue | changedValue | unchangedValue | unknownInitialValue => exact within_nil

/-- `scan_point_compare` needs no more, where there are previous values. -/
theorem within_pointReads (c : Comparing) (hprev : c.ct.needsPrevious = true → c.prevNull = false)
    (h : c.needs ≤ got) : Within got c.pointReads := by
  rw [Comparing.needs] at h
  rw [Comparing.pointReads]
  cases hct : c.ct with
  | exactValue =>
    simp only [hct] at h
    exact within_one (c.size_le_n.trans h)
  | increasedValueBy | decreasedValueBy =>
    simp only [hct, hprev (by rw [hct]; rfl), Bool.false_eq_true, if_false] at h
    exact within_one h
  | _ => exact within_nil

/-- The widest of the six loads of `find_scalar` decides. -/
theorem within_findReads (c : Comparing) (len : Nat) (h : findNeeds c.vt ≤ got) : Within got (c.findReads len) := by
  rw [findNeeds] at h
  rw [Comparing.findReads]
  by_cases hword : c.vt = .u32 ∨ c.vt = .i32
  · have hfour : c.size = 4 := by
      rw [Comparing.size]
      rcases hword with h | h <;> rw [h] <;> rfl
    rw [if_pos ⟨hword, (c.n_eq (by omega)).trans hfour⟩]
    rw [if_pos hword] at h
    exact within_one h
  · rw [if_neg fun h => hword h.1]
    rw [if_neg hword] at h
    split
    · exact within_nil
    · next hsome =>
      have hsize : c.size ≠ 0 := fun h0 => hsome (.inl h0)
      rw [if_neg (show sizeOfValueType c.vt ≠ 0 from hsize)] at h
      intro x hx _
      simp only [List.mem_cons, List.not_mem_nil, or_false] at hx
      rcases hx with rfl | rfl | rfl | rfl | rfl | rfl <;> simp only <;> omega

end Within

/-- A pattern of which something was received is not null. -/
theorem ValueRun.readsReceived (r : ValueRun)
    (h : ∀ passes, ∀ call ∈ r.calls passes, Within r.received (call.reads r.comparing)) : r.ReadsReceived := by
  intro passes call hcall x hx hpos
  have hle := h passes call hcall x hx hpos
  refine ⟨?_, hle⟩
  cases hpat : r.comparing.pattern with
  | none =>
    have hzero := r.null hpat
    omega
  | some data => rfl

/-! ## The four handlers -/

/-- A request for a scan value to be compared, with all that the handler meets. -/
inductive ValueRequest where
  | scanStart (mem : Memory) (auth buffersOk : Bool) (sp : ScanStartPacket) (data maskData : List Byte) (raw : Buf)
  | turboStart (auth : Bool) (c : TurboStart)
  | scanCount (env : RescanEnv) (cp : ScanCountPacket) (stream : List Byte)
  | turboCount (env : TurboCountEnv) (cp : ScanCountPacket) (flags : UInt32) (stream : List Byte)

/-- What is compared, if the request is accepted. -/
def ValueRequest.run : ValueRequest → Option ValueRun
  | scanStart mem auth buffersOk sp data maskData raw => scanStartRun mem auth buffersOk sp data maskData raw
  | turboStart auth c => turboStartRun auth c
  | scanCount env cp stream => scanCountRun env cp stream
  | turboCount env cp flags stream => turboCountRun env cp flags stream

/-- The bytes of a pattern that can be received of what the client sends: `lenData` is an `int` to
`net_recv_all`, which receives nothing if it is negative. -/
def patternBytes (lenData : UInt32) (sent : List Byte) : Nat :=
  min (if lenData.toNat < 2 ^ 31 then lenData.toNat else 0) sent.length

/-- A comparison of these types: `upper` is whether a between has its upper bound, and `delta` whether there are
previous values. -/
def wireComparing (ct : CmpType) (valueType : UInt8) (lenData : UInt32) (upper delta : Bool) : Comparing :=
  ⟨ct, .ofByte valueType, lenData.toNat, none, none, if ct = .valueBetween then !upper else !delta⟩

/-- The client sends enough: as many bytes as the comparator of these types needs, twice as many for a between at
a START, which takes the upper bound whatever `lenData` is. A turbo START that uses the finder, for an exact value on
the grid of its elements, needs the eight bytes of `find_scalar`. -/
def ValueRequest.Enough : ValueRequest → Prop
  | scanStart _ _ _ sp data _ _ => ∀ ct, CmpType.ofByte sp.compareType = some ct →
      (wireComparing ct sp.valueType sp.lenData true false).needs ≤ patternBytes sp.lenData data
  | turboStart _ c => c.wantSnapshot = true ∨ ∀ ct, CmpType.ofByte c.sp.compareType = some ct →
      let w := wireComparing ct c.sp.valueType c.sp.lenData true false
      w.needs ≤ patternBytes c.sp.lenData c.data ∧
        (ct = .exactValue → w.vt ≠ .arrBytes → stepFor c.sp.alignment w.n = w.n →
          findNeeds w.vt ≤ patternBytes c.sp.lenData c.data)
  | scanCount _ cp stream | turboCount _ cp _ stream => ∀ ct, CmpType.ofByte cp.compareType = some ct →
      (wireComparing ct cp.valueType cp.lenData (2 * cp.valueLength ≤ cp.lenData.toNat) true).needs ≤
        patternBytes cp.lenData stream

theorem length_netRecvAll (lenData : UInt32) (sent : List Byte) :
    (netRecvAll sent lenData.toInt32.toInt).got.length = patternBytes lenData sent := by
  rw [netRecvAll_eq, toNat_int, List.length_take, patternBytes]

/-- Where there is no pattern nothing may be needed. -/
theorem le_receivedOf {pattern : Option (List Byte)} {n got : Nat} (h : n ≤ got) (hnone : pattern = none → n = 0) :
    n ≤ receivedOf pattern got := by
  cases pattern with
  | none => exact (hnone rfl).le.trans (Nat.zero_le _)
  | some data => exact h

theorem Comparing.needs_eq_zero {c : Comparing} (h : c.ct.needsValue = false) : c.needs = 0 := by
  rw [Comparing.needs]
  cases hct : c.ct <;> simp_all [CmpType.needsValue]

/-- The types of a START, from its packet. -/
structure Pass.FromWire (p : Pass) (compareType valueType alignment : UInt8) (lenData : UInt32) : Prop where
  ct : CmpType.ofByte compareType = some p.ct
  vt : p.vt = .ofByte valueType
  step : p.step = stepFor alignment p.valueLength
  prev : p.prevForBetween.isNone = decide (p.ct ≠ .valueBetween)
  pattern : p.pattern = none → lenData = 0 ∨ p.ct.needsValue = false

theorem fromWire_preparePass {sp : ScanStartPacket} {data maskData : List Byte} {p : Pass}
    (h : preparePass sp data maskData = some p) : p.FromWire sp.compareType sp.valueType sp.alignment sp.lenData := by
  rw [preparePass] at h
  split at h
  · cases h
  next ct hct =>
  split at h
  · cases h
  dsimp only at h
  split at h
  · cases h
  obtain rfl := Option.some.inj h
  refine ⟨hct, rfl, rfl, ?_, fun hnone => .inr ?_⟩
  · by_cases hb : ct = .valueBetween <;> simp [hb]
  · cases hn : ct.needsValue with
    | true => simp [hn] at hnone
    | false => rfl

theorem fromWire_prepare {c : TurboStart} {p : Pass} (h : c.prepare = some p) :
    p.FromWire c.sp.compareType c.sp.valueType c.sp.alignment c.sp.lenData := by
  rw [TurboStart.prepare] at h
  split at h
  · cases h
  next ct hct =>
  split at h
  · cases h
  dsimp only at h
  split at h
  · cases h
  split at h
  · cases h
  obtain rfl := Option.some.inj h
  refine ⟨hct, rfl, rfl, ?_, fun hnone => ?_⟩
  · by_cases hb : ct = .valueBetween <;> simp [hb]
  · cases hn : ct.needsValue with
    | true => exact .inl (by simpa [hn] using hnone)
    | false => exact .inr rfl

section Start

variable {p : Pass} {compareType valueType alignment : UInt8} {lenData : UInt32} {data : List Byte}

/-- What a START needs was received, if the client sent it. -/
theorem Pass.FromWire.received (h : p.FromWire compareType valueType alignment lenData)
    (hsent : (wireComparing p.ct valueType lenData true false).needs ≤ patternBytes lenData data) :
    (p.comparing lenData).needs ≤ receivedOf p.pattern (netRecvAll data lenData.toInt32.toInt).got.length := by
  have hneeds : (p.comparing lenData).needs = (wireComparing p.ct valueType lenData true false).needs := by
    simp only [Comparing.needs, wireComparing, Pass.comparing, h.prev, h.vt]
    cases p.ct <;> rfl
  rw [length_netRecvAll]
  refine le_receivedOf (hneeds ▸ hsent) fun hnone => ?_
  rcases h.pattern hnone with rfl | hno
  · have hzero : patternBytes 0 data = 0 := Nat.zero_min _
    omega
  · exact Comparing.needs_eq_zero hno

/-- So was what its scans read. -/
theorem Pass.FromWire.reads (h : p.FromWire compareType valueType alignment lenData)
    (hsent : (wireComparing p.ct valueType lenData true false).needs ≤ patternBytes lenData data) {simd : Bool}
    (hfind : simd = true → findNeeds p.vt ≤
      receivedOf p.pattern (netRecvAll data lenData.toInt32.toInt).got.length)
    {s : ChunkScan} (hs : p.Scans simd s) {call : CompareCall} (hcall : call ∈ s.calls) :
    Within (receivedOf p.pattern (netRecvAll data lenData.toInt32.toInt).got.length)
      (call.reads (p.comparing lenData)) := by
  cases s with
  | find r =>
    obtain rfl := List.mem_singleton.mp hcall
    exact within_findReads _ _ (hfind (hs.finds r rfl))
  | compare r probes =>
    obtain ⟨q, -, rfl⟩ := List.mem_map.mp hcall
    exact within_valueReads _ _ (h.received hsent)

end Start

/-- The types of a COUNT, from its packet. -/
theorem prepareCount_wire {cp : ScanCountPacket} {data maskData : List Byte} {p : CountPass}
    (h : prepareCount cp data maskData = some p) :
    CmpType.ofByte cp.compareType = some p.ct ∧
      p.comparing.needs =
        (wireComparing p.ct cp.valueType cp.lenData (2 * cp.valueLength ≤ cp.lenData.toNat) true).needs ∧
      p.pattern.isSome = (p.ct.needsValue && cp.lenData != 0) := by
  rw [prepareCount] at h
  split at h
  · cases h
  next ct hct =>
  dsimp only at h
  split at h
  · cases h
  next hlen =>
  obtain rfl := Option.some.inj h
  have hpos : 2 * cp.valueLength ≤ cp.lenData.toNat → (cp.lenData != 0) = true := fun hle => bne_iff_ne.mpr fun h0 => by
    rw [h0] at hle
    exact hlen (.inl (Nat.eq_zero_of_not_pos fun hv => absurd hle (by simp; omega)))
  refine ⟨hct, ?_, ?_⟩
  · have hn : valueLength (.ofByte cp.valueType) cp.valueLength =
        valueLength (.ofByte cp.valueType) cp.lenData.toNat := by
      rw [ScanCountPacket.valueLength, valueLength, valueLength]
      split <;> rfl
    cases ct with
    | exactValue => exact hn
    | valueBetween =>
      by_cases hle : 2 * cp.valueLength ≤ cp.lenData.toNat
      · simp [Comparing.needs, wireComparing, CountPass.comparing, CmpType.needsValue, CmpType.needsPrevious, hle,
          hpos hle, Comparing.size]
      · simp [Comparing.needs, wireComparing, CountPass.comparing, CmpType.needsPrevious, hle]
    | _ => rfl
  · dsimp only
    split
    · next hn => rw [hn]; rfl
    · next hn => rw [Bool.not_eq_true] at hn; rw [hn]; rfl

/-- A COUNT reads what it received, if the client sent enough. -/
theorem countRun_reads {env : RescanEnv} {cp : ScanCountPacket} {stream : List Byte}
    {calls : CountPass → ChunkState → Nat → List CompareCall} {r : ValueRun}
    (hsent : ∀ ct, CmpType.ofByte cp.compareType = some ct →
      (wireComparing ct cp.valueType cp.lenData (2 * cp.valueLength ≤ cp.lenData.toNat) true).needs ≤
        patternBytes cp.lenData stream)
    (hcalls : ∀ p st passes, ∀ call ∈ calls p st passes, ∃ w, call = .values w ∨ call = .point w)
    (h : countRun env cp stream calls = some r) : r.ReadsReceived := by
  rw [countRun] at h
  split at h
  · cases h
  obtain ⟨⟨p, st⟩, hstart, rfl⟩ := Option.map_eq_some_iff.mp h
  obtain ⟨p', hp, heq⟩ := Option.map_eq_some_iff.mp hstart
  obtain ⟨rfl, -⟩ := Prod.mk.inj heq
  obtain ⟨hct, hneeds, hsome⟩ := prepareCount_wire hp
  have hle := hsent _ hct
  have hreceived : p'.comparing.needs ≤ receivedOf p'.pattern (recvPattern cp stream).got.length := by
    rw [hneeds, receivedOf]
    split
    · next hpat =>
      have hneeded : cp.needsPattern = true := by
        rw [ScanCountPacket.needsPattern, hct]
        exact hsome.symm.trans hpat
      rw [recvPattern, if_pos hneeded, length_netRecvAll]
      exact hle
    · next hpat =>
      rw [hsome, Bool.and_eq_true, not_and_or] at hpat
      rcases hpat with hno | hzero
      · exact (hneeds ▸ Comparing.needs_eq_zero (Bool.eq_false_of_not_eq_true hno)).le
      · rw [bne_iff_ne, not_not] at hzero
        rw [hzero] at hle ⊢
        exact hle.trans (Nat.min_le_left _ _)
  refine ValueRun.readsReceived _ fun passes call hcall => ?_
  obtain ⟨w, rfl | rfl⟩ := hcalls _ _ passes call hcall
  · exact within_valueReads _ _ hreceived
  · refine within_pointReads _ (fun hprev => ?_) hreceived
    change p'.ct.needsPrevious = true at hprev
    change (!p'.ct.needsPrevious && _) = false
    rw [hprev]
    rfl

theorem mem_passCalls {calls : Nat → List Byte → List CompareCall} {call : CompareCall} :
    ∀ {passes : Nat} {st : ChunkState}, call ∈ passCalls calls passes st → ∃ k chunk, call ∈ calls k chunk := by
  intro passes
  induction passes with
  | zero => exact fun h => by cases h
  | succ passes ih =>
    intro st h
    rw [passCalls] at h
    rcases List.mem_append.mp h with h | h
    · exact ⟨_, _, h⟩
    · split at h
      · exact ih h
      · cases h

theorem turboCall_cases (p : CountPass) (w : List Byte) : p.turboCall w = .values w ∨ p.turboCall w = .point w := by
  rw [CountPass.turboCall]
  split
  · exact .inr rfl
  · exact .inl rfl

/-- A session of one record of four bytes, and no allocation fails. -/
def oneRecordEnv : TurboCountEnv where
  auth := true
  patternAlloc := true
  maskAlloc := true
  bufsAlloc := true
  pattern := fun _ => 0
  mask := fun _ => 0
  chunkBuf := fun _ => 0
  mem := fun _ _ => 0
  memBuf := fun _ _ => 0
  actx := fun _ => none
  session := some (.list ⟨⟨4, false, false⟩, fun _ => 0, 1⟩)
  blBuf := none

end Ps5Debugger

import Ps5Debugger.SnapshotRuns
import Ps5Debugger.FirstScan

/-!
# Buffers of a snapshot

Four buffers are sized by constants — the read and the pack buffer of START by its chunk,
`bl_buf` of COUNT by a megabyte, the bitmap by the slot count — while what is written to them
follows from the alignment, the value length and the live slots. The slot numbers are always
within bounds. The byte counts are when the largest window of each segment fits the chunk and
no window of a rescan bridges more slots than `bl_buf` holds (`ChunkFits`, `WindowsFit`): the
handler checks neither, and an alignment below the value length breaks the first.
-/

namespace Ps5Debugger

open Lib

/-! ## The handler -/

/-- `TS_SNAP_MAX_SEGS`. -/
def snapMaxSegs : Nat := 2 ^ 20

/-- The segments of a snapshot: those received, or the packet's own region; none is
`seg_ok = 0`. -/
def snapSegments (sp : TurboStartPacket) (received : List SnapSegment) (segsAlloc : Bool) :
    List SnapSegment :=
  if hasFlag sp.flags TS_SNAPSHOT_SEGMENTS then
    if received.length ≥ 1 ∧ received.length ≤ snapMaxSegs ∧ segsAlloc then received else []
  else [⟨sp.address, sp.length⟩]

/-- The snapshot branch of `proc_turboscan_start_handle`: what it asks `fs_snapshot_create`
for, `none` where it rejects or declines. -/
def snapRequest (sp : TurboStartPacket) (received : List SnapSegment) (segsAlloc : Bool) : Option SnapReq :=
  let v := sp.valueLength
  let segs := snapSegments sp received segsAlloc
  if CmpType.ofByte sp.compareType = none ∨ segs = [] ∨ v > 8 ∨ v = 0 then none
  else
    some
      { valueLength := v
        step := stepFor sp.alignment v
        segs
        includeZeros := hasFlag sp.flags TS_SNAPSHOT_INCLUDE_ZEROS
        keepFirst := hasFlag sp.flags TS_SNAPSHOT_KEEP_FIRST
        keepPrev := hasFlag sp.flags TS_SNAPSHOT_KEEP_PREVIOUS }

/-- A snapshot START that is admitted. -/
structure SnapStart where
  v : Nat
  alignment : UInt8
  segs : List SnapSegment
  includeZeros : Bool
  keepFirst : Bool
  keepPrev : Bool
  v_pos : 0 < v
  v_le : v ≤ 8
  nseg_pos : 0 < segs.length
  nseg_le : segs.length ≤ snapMaxSegs

namespace SnapStart

variable (q : SnapStart)

/-- `step`. -/
def step : Nat := stepFor q.alignment q.v

/-- `io_chunk`: `TS_SNAP_IO_CHUNK`, cut down to a multiple of the value length. -/
def ioChunk : Nat := if 0x1000000 % q.v ≠ 0 then 0x1000000 / q.v * q.v else 0x1000000

/-- What `fs_snapshot_create` is asked for. -/
def req : SnapReq := ⟨q.v, q.step, q.segs, q.includeZeros, q.keepFirst, q.keepPrev⟩

/-- What it is given: the mapped buffers of `io_chunk` bytes where both could be mapped, else
`read_buf` and a `pack_buf` that may be missing. -/
def env (mapped : Bool) (env : SnapEnv) : SnapEnv :=
  { env with
    chunkSize := if mapped then q.ioChunk else chunkSizeFor q.v
    packBuf := mapped || env.packBuf }

/-- The number of slots, in whole numbers. -/
def slots : Nat := (q.segs.map fun g => segSlots q.v q.step g.length.toNat).sum

end SnapStart

theorem length_snapSegments_le (sp : TurboStartPacket) (received : List SnapSegment) (segsAlloc : Bool) :
    (snapSegments sp received segsAlloc).length ≤ snapMaxSegs := by
  rw [snapSegments]
  split
  · split
    · next h => exact h.2.1
    · exact Nat.zero_le _
  · exact Nat.one_le_two_pow

/-- What the handler admits is a `SnapStart`. -/
theorem exists_snapStart {sp : TurboStartPacket} {received : List SnapSegment} {segsAlloc : Bool}
    {r : SnapReq} (h : snapRequest sp received segsAlloc = some r) : ∃ q : SnapStart, q.req = r := by
  by_cases hno : CmpType.ofByte sp.compareType = none ∨ snapSegments sp received segsAlloc = [] ∨
      sp.valueLength > 8 ∨ sp.valueLength = 0
  · rw [snapRequest, if_pos hno] at h
    cases h
  · rw [snapRequest, if_neg hno] at h
    obtain rfl := Option.some.inj h
    rw [not_or, not_or, not_or] at hno
    obtain ⟨-, hsegs, hle, hpos⟩ := hno
    exact ⟨⟨sp.valueLength, sp.alignment, snapSegments sp received segsAlloc, _, _, _,
      Nat.pos_of_ne_zero hpos, Nat.not_lt.mp hle, List.length_pos_iff.mpr hsegs,
      length_snapSegments_le ..⟩, rfl⟩

/-- The pack buffer is used. -/
def SnapPlan.packs (plan : SnapPlan) (q : SnapStart) : Bool :=
  (plan.useFile || plan.keepFirst || plan.keepPrev) && q.step != q.v

/-- What a START keeps within its buffers. -/
structure FillBounds (q : SnapStart) (env : SnapEnv) (plan : SnapPlan) : Prop where
  total : slotTotal q.v q.step 0 q.segs = q.slots
  reads : ∀ w ∈ fillWindows env.chunkSize q.step (buildSegments q.v q.step 0 q.segs),
    w.wbytes q.v q.step ≤ env.chunkSize
  packs : plan.packs q = true →
    ∀ w ∈ fillWindows env.chunkSize q.step (buildSegments q.v q.step 0 q.segs),
      w.winSlots * q.v ≤ env.chunkSize
  slots : ∀ w ∈ fillWindows env.chunkSize q.step (buildSegments q.v q.step 0 q.segs),
    w.gslot + w.winSlots ≤ q.slots

/-- What a COUNT keeps within its buffers: the slots it touches, and `bl_buf`. -/
structure RescanBounds (q : SnapStart) (t : SnapSession) (windows : List RescanWindow) : Prop where
  slots : ∀ w ∈ windows, w.i ≤ w.last ∧ w.last < q.slots
  buffer : ∀ w ∈ windows, w.buffered = true → w.blLen ≤ blBufSize
  live : ∀ i ∈ t.live, i < q.slots

/-- The most slots one window of a segment takes. -/
def largestWindow (chunkSize step ns : Nat) : Nat := min ns (max (chunkSize / step) 1)

/-- The largest window of every segment fits the read buffer and, where windows are packed,
the pack buffer. -/
structure ChunkFits (q : SnapStart) (env : SnapEnv) (plan : SnapPlan) : Prop where
  reads : ∀ g ∈ q.segs, 0 < segSlots q.v q.step g.length.toNat →
    (largestWindow env.chunkSize q.step (segSlots q.v q.step g.length.toNat) - 1) * q.step + q.v ≤
      env.chunkSize
  packs : plan.packs q = true → ∀ g ∈ q.segs, 0 < segSlots q.v q.step g.length.toNat →
    largestWindow env.chunkSize q.step (segSlots q.v q.step g.length.toNat) * q.v ≤ env.chunkSize

/-- No window of a rescan that is not all in RAM bridges more slots than `bl_buf` holds. -/
def WindowsFit (q : SnapStart) (plan : SnapPlan) : Prop :=
  ∀ i j, Reach (slotAddr (buildSegments q.v q.step 0 q.segs) q.step) q.v q.slots i j →
    (j + 1) * q.v > plan.ramBytes → (j - i + 1) * q.v ≤ blBufSize

/-! ## START -/

/-- The windows of a tiling lie between its ends. -/
theorem tiles_mem {a : Nat → Nat} {step : Nat} {ws : List FillWindow} : ∀ {lo hi : Nat},
    Tiles a step lo ws hi → ∀ w ∈ ws, w.gslot + w.winSlots ≤ hi := by
  induction ws with
  | nil => intro lo hi _ w hw; cases hw
  | cons w₀ ws ih =>
    rintro lo hi ⟨hslot, -, -, h⟩ w hw
    rcases List.mem_cons.mp hw with rfl | hw
    · rw [hslot]
      exact tiles_le h
    · exact ih h w hw

theorem length_slotAddrs (v step : Nat) (segs : List SnapSegment) :
    (slotAddrs v step segs).length = (segs.map fun g => segSlots v step g.length.toNat).sum := by
  induction segs with
  | nil => rfl
  | cons g gs ih => rw [length_slotAddrs_cons, ih, List.map_cons, List.sum_cons]

/-- The windows of a segment. -/
theorem mem_segWindows {chunkSize step ns : Nat} : ∀ (fuel s0 : Nat) {w : Nat × Nat},
    w ∈ segWindows chunkSize step ns fuel s0 → 0 < w.2 ∧ w.2 ≤ largestWindow chunkSize step ns := by
  intro fuel
  induction fuel with
  | zero => intro s0 w hw; cases hw
  | succ fuel ih =>
    intro s0 w hw
    rcases Nat.lt_or_ge s0 ns with hlt | hge
    · obtain ⟨m, hpos, hle, hmax, heq⟩ := @segWindows_succ step chunkSize ns fuel s0 hlt
      rw [heq] at hw
      rcases List.mem_cons.mp hw with rfl | hw
      · exact ⟨hpos, Nat.le_min.mpr ⟨Nat.le_trans (Nat.le_add_left _ _) hle, hmax⟩⟩
      · exact ih _ hw
    · rw [segWindows, if_neg (Nat.not_lt.mpr hge)] at hw
      cases hw

/-- The first window of a segment is as large as one can be. -/
theorem mem_segWindows_first {chunkSize step ns : Nat} (hpos : 0 < ns) :
    (0, largestWindow chunkSize step ns) ∈ segWindows chunkSize step ns ns 0 := by
  obtain ⟨n, rfl⟩ : ∃ n, ns = n + 1 := ⟨ns - 1, by omega⟩
  rw [segWindows, if_pos hpos]
  refine List.mem_cons.mpr (.inl (Prod.ext rfl ?_))
  simp only [largestWindow]
  generalize chunkSize / step = w
  split <;> split <;> omega

/-- Every window belongs to a segment. -/
theorem mem_fillWindows {v chunkSize step : Nat} {w : FillWindow} (segs : List SnapSegment) :
    ∀ {start : Nat}, w ∈ fillWindows chunkSize step (buildSegments v step start segs) →
    ∃ g ∈ segs, 0 < w.winSlots ∧
      w.winSlots ≤ largestWindow chunkSize step (segSlots v step g.length.toNat) := by
  induction segs with
  | nil => intro start hw; cases hw
  | cons g gs ih =>
    intro start hw
    rw [buildSegments, fillWindows, List.flatMap_cons] at hw
    rcases List.mem_append.mp hw with hw | hw
    · obtain ⟨x, hx, rfl⟩ := List.mem_map.mp hw
      obtain ⟨hpos, hle⟩ := mem_segWindows _ _ hx
      exact ⟨g, List.mem_cons_self .., hpos, hle⟩
    · obtain ⟨g', hg', h⟩ := ih hw
      exact ⟨g', List.mem_cons_of_mem _ hg', h⟩

/-- The first window of a segment is its largest. -/
theorem exists_mem_fillWindows {v chunkSize step : Nat} {g : SnapSegment} (segs : List SnapSegment)
    (hg : g ∈ segs) (hpos : 0 < segSlots v step g.length.toNat) : ∀ (start : Nat),
    ∃ w ∈ fillWindows chunkSize step (buildSegments v step start segs),
      w.winSlots = largestWindow chunkSize step (segSlots v step g.length.toNat) := by
  induction segs with
  | nil => cases hg
  | cons g₀ gs ih =>
    intro start
    simp only [buildSegments, fillWindows, List.flatMap_cons]
    rcases List.mem_cons.mp hg with rfl | hg
    · exact ⟨_, List.mem_append_left _ (List.mem_map.mpr
        ⟨_, mem_segWindows_first hpos, rfl⟩), rfl⟩
    · obtain ⟨w, hw, heq⟩ := ih hg _
      exact ⟨w, List.mem_append_right _ hw, heq⟩

theorem SnapStart.slots_lt (q : SnapStart) : q.slots < 2 ^ 53 := by
  have h1 := @length_slotAddrs_le q.v q.step q.segs
  have h2 := q.nseg_le
  rw [length_slotAddrs] at h1
  rw [snapMaxSegs] at h2
  rw [SnapStart.slots]
  omega

theorem SnapStart.slotTotal_eq (q : SnapStart) : slotTotal q.v q.step 0 q.segs = q.slots := by
  have hlt : q.slots < 2 ^ 53 := q.slots_lt
  rw [SnapStart.slots, ← length_slotAddrs] at hlt ⊢
  rw [Ps5Debugger.slotTotal_eq q.segs 0 (by omega), Nat.zero_add]

/-- START stays within its buffers exactly when the largest windows fit. -/
theorem fillBounds_iff {q : SnapStart} {env : SnapEnv} {plan : SnapPlan} :
    FillBounds q env plan ↔ ChunkFits q env plan := by
  constructor
  · intro h
    refine ⟨fun g hg hpos => ?_, fun hpacks g hg hpos => ?_⟩
    all_goals
      obtain ⟨w, hw, heq⟩ := @exists_mem_fillWindows q.v env.chunkSize q.step g q.segs hg hpos 0
      rw [← heq]
    · exact h.reads w hw
    · exact h.packs hpacks w hw
  · intro hfits
    have hlt : q.slots < 2 ^ 53 := q.slots_lt
    have hlen : (slotAddrs q.v q.step q.segs).length = q.slots := length_slotAddrs ..
    have hslots : ∀ {g : SnapSegment} {w : FillWindow}, 0 < w.winSlots →
        w.winSlots ≤ largestWindow env.chunkSize q.step (segSlots q.v q.step g.length.toNat) →
        0 < segSlots q.v q.step g.length.toNat := by
      intro g w hpos hle
      exact Nat.lt_of_lt_of_le hpos (Nat.le_trans hle (Nat.min_le_left ..))
    refine ⟨q.slotTotal_eq, fun w hw => ?_, fun hpacks w hw => ?_, fun w hw => ?_⟩
    · obtain ⟨g, hg, hpos, hle⟩ := mem_fillWindows q.segs hw
      have hmul : (w.winSlots - 1) * q.step ≤
          (largestWindow env.chunkSize q.step (segSlots q.v q.step g.length.toNat) - 1) * q.step :=
        Nat.mul_le_mul_right _ (Nat.sub_le_sub_right hle 1)
      exact Nat.le_trans (Nat.add_le_add_right hmul _) (hfits.reads g hg (hslots hpos hle))
    · obtain ⟨g, hg, hpos, hle⟩ := mem_fillWindows q.segs hw
      exact Nat.le_trans (Nat.mul_le_mul_right _ hle) (hfits.packs hpacks g hg (hslots hpos hle))
    · have htiles := @fillWindows_tiles (fun k => u64 ((slotAddrs q.v q.step q.segs).getD k 0)) q.step
        q.v env.chunkSize q.segs 0 (by omega) (fun k _ => by rw [Nat.zero_add])
      rw [Nat.zero_add, hlen] at htiles
      exact tiles_mem htiles w hw

/-! ## COUNT -/

/-- What every window of a rescan of `s₀` is, whatever its slots. -/
structure WindowTrace (s₀ : SnapSession) (w : RescanWindow) : Prop where
  reach : Reach s₀.addr s₀.valueLength s₀.slotCount w.i w.last
  blLen : w.blLen = (w.last - w.i + 1) * s₀.valueLength
  buffered : w.buffered = decide (w.i * s₀.valueLength + w.blLen > s₀.store.ramBytes)

section Trace

variable {mem : Memory} (actx : Option (AliasEngine mem)) (cmp : List Byte → List Byte → Bool)
  {s₀ : SnapSession}

/-- One window. -/
theorem snapWindow_trace {sc : SnapScan} {i : Nat} (hsame : sc.sess.Same s₀)
    (hwin : ∀ w ∈ sc.windows, WindowTrace s₀ w) (hi : i < sc.sess.slotCount) :
    ∀ w ∈ (snapWindow actx cmp sc i).windows, WindowTrace s₀ w := by
  intro w hw
  rcases List.mem_append.mp hw with hw | hw
  · exact hwin w hw
  · have hlast : (sc.sess.windowAt i).2 = (groupAfter s₀.addr s₀.valueLength i
        (setFrom sc.sess.bitmap (i + 1) sc.sess.slotCount)).getLastD i := by
      rw [windowAt_eq sc.sess rfl, hsame.addr, hsame.valueLength]
    rw [List.mem_singleton.mp hw]
    refine ⟨?_, ?_, ?_⟩
    · simp only [hlast]
      refine takeGroup_reach _ (.start (hsame.slotCount ▸ hi)) ?_ fun x hx => ?_
      · refine List.pairwise_cons.mpr ⟨fun x hx => ?_, setFrom_pairwise ..⟩
        exact (mem_setFrom.mp hx).1
      · rw [← hsame.slotCount]
        exact (mem_setFrom.mp hx).2.1
    · simp only
      rw [hsame.valueLength]
    · simp only
      rw [hsame.valueLength, hsame.ramBytes]

/-- All windows. -/
theorem snapLoop_trace : ∀ (fuel i : Nat) {sc : SnapScan}, sc.sess.Same s₀ →
    (∀ w ∈ sc.windows, WindowTrace s₀ w) →
    (snapLoop actx cmp fuel i sc).sess.Same s₀ ∧
      ∀ w ∈ (snapLoop actx cmp fuel i sc).windows, WindowTrace s₀ w := by
  intro fuel
  induction fuel with
  | zero => intro i sc hsame hwin; exact ⟨hsame, hwin⟩
  | succ fuel ih =>
    intro i sc hsame hwin
    rw [snapLoop]
    split
    · next hi =>
      exact ih _ ((snapWindow_same actx sc i).trans hsame) (snapWindow_trace actx cmp hsame hwin hi)
    · exact ⟨hsame, hwin⟩

theorem snapScan_trace (s₀ : SnapSession) (memBuf blBuf : Buf) :
    (snapScan actx cmp s₀ memBuf blBuf).sess.Same s₀ ∧
      ∀ w ∈ (snapScan actx cmp s₀ memBuf blBuf).windows, WindowTrace s₀ w :=
  snapLoop_trace actx cmp _ _ (.refl s₀) fun w hw => by cases hw

end Trace

/-- No command changes the slots of a session. -/
theorem step_same (s : SnapSession) (c : Cmd) : (s.step c).1.Same s := by
  cases c with
  | get start count => exact .refl s
  | count c =>
    simp only [SnapSession.step, snapCount]
    cases c.env.blBuf with
    | none => exact .refl s
    | some blBuf =>
      dsimp only
      split
      · rw [snapRescan]
        split
        · exact ⟨rfl, rfl, rfl, rfl, rfl, rfl, rfl, rfl⟩
        · obtain ⟨h, -⟩ := snapScan_trace c.env.actx c.pass.residentCompare s c.env.memBuf blBuf
          exact ⟨h.seg, h.slotCount, h.stride, h.valueLength, h.hasPrev, h.hasFirst, h.firstFile, h.ramBytes⟩
      · exact .refl s

theorem run_same (cmds : List Cmd) : ∀ s : SnapSession, (run SnapSession.step s cmds).1.Same s := by
  induction cmds with
  | nil => intro s; exact .refl s
  | cons c cmds ih => intro s; exact (ih _).trans (step_same s c)

theorem fillWindow_ramBytes (mem : Memory) (r : SnapReq) (plan : SnapPlan) (st : FillState) (w : FillWindow) :
    (fillWindow mem r plan st w).store.ramBytes = st.store.ramBytes := by
  simp only [fillWindow]
  split
  · exact SplitStore.write_ramBytes ..
  · split <;> rfl

theorem foldl_ramBytes (mem : Memory) (r : SnapReq) (plan : SnapPlan) (ws : List FillWindow) :
    ∀ st : FillState, (ws.foldl (fillWindow mem r plan) st).store.ramBytes = st.store.ramBytes := by
  induction ws with
  | nil => intro st; rfl
  | cons w ws ih => intro st; rw [List.foldl_cons, ih, fillWindow_ramBytes]

/-- COUNT stays within its buffers, in any state of the session. -/
theorem rescanBounds_of_fits {q : SnapStart} {plan : SnapPlan} {s : SnapSession}
    (hfits : WindowsFit q plan) (hseg : s.seg = buildSegments q.v q.step 0 q.segs)
    (hstride : s.stride = q.step) (hv : s.valueLength = q.v) (hslots : s.slotCount = q.slots)
    (hram : s.store.ramBytes = plan.ramBytes) {mem : Memory} (actx : Option (AliasEngine mem))
    (cmp : List Byte → List Byte → Bool) (memBuf blBuf : Buf) :
    RescanBounds q s (snapScan actx cmp s memBuf blBuf).windows := by
  obtain ⟨-, htrace⟩ := snapScan_trace actx cmp s memBuf blBuf
  have haddr : s.addr = slotAddr (buildSegments q.v q.step 0 q.segs) q.step := by
    funext i
    rw [SnapSession.addr, hseg, hstride]
  refine ⟨fun w hw => ?_, fun w hw hbuf => ?_, fun i hi => ?_⟩
  · rw [← hslots]
    exact (htrace w hw).reach.lt
  · obtain ⟨hreach, hlen, hcut⟩ := htrace w hw
    rw [hbuf] at hcut
    have hcut := of_decide_eq_true hcut.symm
    have hle := hreach.lt.1
    rw [haddr, hv, hslots] at hreach
    rw [hv] at hlen hcut
    rw [hlen, hram, ← Nat.add_mul, show w.i + (w.last - w.i + 1) = w.last + 1 by omega] at hcut
    rw [hlen]
    exact hfits w.i w.last hreach hcut
  · rw [← hslots]
    exact (mem_setFrom.mp hi).2.1

/-- **A snapshot stays within its buffers**: START exactly when its largest windows fit the
chunk, and every COUNT after it, whatever the run in between, when no window bridges more
than `bl_buf` holds. -/
theorem snapshot_storage_bounded {q : SnapStart} {mapped : Bool} {env : SnapEnv} {plan : SnapPlan}
    {mem : Memory} {s : SnapSession} (hs : snapCreate mem q.req (q.env mapped env) = some s)
    (hplan : snapPlan q.req (q.env mapped env) (slotTotal q.v q.step 0 q.segs) = some plan) :
    (FillBounds q (q.env mapped env) plan ↔ ChunkFits q (q.env mapped env) plan) ∧
      (WindowsFit q plan → ∀ (cmds : List Cmd) (c : CountCmd) (blBuf : Buf),
        RescanBounds q (run SnapSession.step s cmds).1 (snapScan c.env.actx c.pass.residentCompare
          (run SnapSession.step s cmds).1 c.env.memBuf blBuf).windows) := by
  obtain ⟨plan', st, hplan', hst, rfl⟩ := snapCreate_cases hs
  obtain rfl : plan' = plan := Option.some.inj (hplan'.symm.trans hplan)
  have hram : st.store.ramBytes = plan'.ramBytes := by rw [← hst, foldl_ramBytes]
  refine ⟨fillBounds_iff, fun hfits cmds c blBuf => ?_⟩
  have hsame := run_same cmds ⟨st.bitmap, slotTotal q.req.valueLength q.req.step 0 q.req.segs, st.survivors,
    q.req.step, st.store, st.first, plan'.keepFirst, st.prev, plan'.keepPrev,
    buildSegments q.req.valueLength q.req.step 0 q.req.segs, q.req.valueLength⟩
  exact rescanBounds_of_fits hfits hsame.seg hsame.stride hsame.valueLength
    (hsame.slotCount.trans q.slotTotal_eq) (hsame.ramBytes.trans hram) _ _ _ _

/-! ## Requests that fit -/

theorem SnapStart.le_chunk (q : SnapStart) (mapped : Bool) (env : SnapEnv) :
    0x80000 ≤ (q.env mapped env).chunkSize := by
  have hpos := q.v_pos
  have hle := q.v_le
  have hcut : ∀ n, 0x100000 ≤ n → 0x80000 ≤ if n % q.v ≠ 0 then n / q.v * q.v else n := by
    intro n hn
    split
    · have hmod := Nat.mod_lt n hpos
      have hdiv := Nat.div_add_mod n q.v
      rw [Nat.mul_comm] at hdiv
      omega
    · omega
  simp only [SnapStart.env]
  split
  · exact hcut 0x1000000 (by omega)
  · exact hcut 0x100000 (by omega)

/-- A request over ascending disjoint segments with an alignment of at least the value length
stays within its buffers. -/
theorem fits_of_ascending {q : SnapStart} {L : SnapLayout} (hasc : L.Ascending) (hv : q.v = L.v)
    (hstep : q.step = L.step) (hsegs : q.segs = L.segs) (mapped : Bool) (env : SnapEnv)
    (plan : SnapPlan) : ChunkFits q (q.env mapped env) plan ∧ WindowsFit q plan := by
  have hchunk := q.le_chunk mapped env
  have hvs : q.v ≤ q.step := by rw [hv, hstep]; exact L.v_le_step
  have hpos : 0 < q.step := Nat.lt_of_lt_of_le q.v_pos hvs
  have hbyte : q.step ≤ 255 := by
    have hle := q.v_le
    have hlt := q.alignment.toNat_lt
    rw [SnapStart.step, stepFor]
    split <;> omega
  -- a full window takes at most a chunk
  have hwindow : ∀ ns, largestWindow (q.env mapped env).chunkSize q.step ns * q.step ≤
      (q.env mapped env).chunkSize := by
    intro ns
    have hfull : 1 ≤ (q.env mapped env).chunkSize / q.step :=
      (Nat.le_div_iff_mul_le hpos).mpr (by omega)
    have hle : largestWindow (q.env mapped env).chunkSize q.step ns ≤
        (q.env mapped env).chunkSize / q.step := by
      rw [largestWindow, Nat.max_eq_left hfull]
      exact Nat.min_le_right ..
    exact Nat.le_trans (Nat.mul_le_mul_right _ hle) (Nat.div_mul_le_self ..)
  refine ⟨⟨fun g _ hslots => ?_, fun _ g _ _ => ?_⟩, fun i j hreach _ => ?_⟩
  · have hw := hwindow (segSlots q.v q.step g.length.toNat)
    have hone : 1 ≤ largestWindow (q.env mapped env).chunkSize q.step (segSlots q.v q.step g.length.toNat) := by
      rw [largestWindow]
      omega
    obtain ⟨m, hm⟩ := Nat.exists_eq_add_of_le hone
    rw [hm, Nat.add_mul, Nat.one_mul] at hw
    rw [hm, Nat.add_sub_cancel_left]
    omega
  · exact Nat.le_trans (Nat.mul_le_mul_left _ hvs) (hwindow _)
  · have hslots : q.slots = L.slotCount := by
      rw [SnapStart.slots, hv, hstep, hsegs, SnapLayout.slotCount, length_slotAddrs]
    have hover := L.session_over []
    rw [hv, hstep, hsegs, hslots] at hreach
    rw [hv]
    refine (SnapLayout.windowOrder_of_ascending hasc).fits i j (hreach.congr fun k hk => ?_)
    exact hover.addr_eq (by rw [hover.slotCount_eq]; exact hk)

/-- A START over two segments, its slots as wide as its values. -/
def pairStart : SnapStart where
  v := ascendingPair.v
  alignment := 0
  segs := ascendingPair.segs
  includeZeros := false
  keepFirst := true
  keepPrev := true
  v_pos := ascendingPair.v_pos
  v_le := ascendingPair.v_le
  nseg_pos := by decide
  nseg_le := ascendingPair.nseg_le

theorem snapshot_storage_bounded_pair : ∃ plan s,
    snapPlan pairStart.req (pairStart.env true roomyEnv) 3 = some plan ∧
      snapCreate (fun _ => 1) pairStart.req (pairStart.env true roomyEnv) = some s ∧
      FillBounds pairStart (pairStart.env true roomyEnv) plan ∧
      RescanBounds pairStart (run SnapSession.step s [.count (unchangedCmd 1)]).1
        (snapScan (unchangedCmd 2).env.actx (unchangedCmd 2).pass.residentCompare
          (run SnapSession.step s [.count (unchangedCmd 1)]).1 (unchangedCmd 2).env.memBuf
          fun _ => 0).windows := by
  refine ⟨_, _, rfl, rfl, ?_⟩
  obtain ⟨hchunk, hwindows⟩ := fits_of_ascending ascendingPair_ascending (q := pairStart) rfl rfl rfl
    true roomyEnv _
  obtain ⟨hfill, hrescan⟩ := @snapshot_storage_bounded pairStart true roomyEnv _ (fun _ => 1) _ rfl rfl
  exact ⟨hfill.mpr hchunk, hrescan hwindows _ _ _⟩

/-- A START of eight byte values at every byte of 32 MiB. -/
def byteStepStart : SnapStart where
  v := 8
  alignment := 1
  segs := [⟨0x10000000, 0x2000000⟩]
  includeZeros := true
  keepFirst := false
  keepPrev := false
  v_pos := by decide
  v_le := by decide
  nseg_pos := by decide
  nseg_le := by decide

/-- The chunk holds sixteen million slots of one byte, but not the seven bytes by which the
value of the last one sticks out: the read overruns `read_buf`. -/
theorem byte_step_overruns_chunk :
    (snapCreate (fun _ => 0) byteStepStart.req (byteStepStart.env true roomyEnv)).isSome = true ∧
      ∃ w ∈ fillWindows (byteStepStart.env true roomyEnv).chunkSize byteStepStart.step
          (buildSegments byteStepStart.v byteStepStart.step 0 byteStepStart.segs),
        (byteStepStart.env true roomyEnv).chunkSize = 0x1000000 ∧
          w.wbytes byteStepStart.v byteStepStart.step = 0x1000007 := by
  refine ⟨rfl, ?_⟩
  obtain ⟨w, hw, heq⟩ := @exists_mem_fillWindows byteStepStart.v
    (byteStepStart.env true roomyEnv).chunkSize byteStepStart.step ⟨0x10000000, 0x2000000⟩
    byteStepStart.segs (List.mem_singleton.mpr rfl) (by decide) 0
  refine ⟨w, hw, by decide, ?_⟩
  rw [FillWindow.wbytes, heq]
  decide

end Ps5Debugger

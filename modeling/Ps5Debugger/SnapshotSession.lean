import Ps5Debugger.SnapshotCreate
import Ps5Debugger.SnapshotOrder

/-!
# Snapshot and LIST sessions

Two representations of one thing: a list of survivors (`Session.records`). A GET is the same
function of that list in both (`getReply`), a COUNT filters it in both, and
`fs_snapshot_materialize` goes from one to the other without changing it
(`snapMaterialize_spec`).
-/

namespace Ps5Debugger

open Lib

/-! ## GET -/

/-- The entry of a survivor in a GET reply. -/
def Rec.entry (hasPrev : Bool) (r : Rec) : List Byte :=
  leBytes 8 r.addr ++ r.cur ++ (if hasPrev then r.prev else r.cur) ++ r.first

/-- The reply of a GET, as a function of the survivors. -/
def getReply (hasPrev hasFirst : Bool) (recs : List Rec) (start count : Nat) : List (List Byte) :=
  let sel := (recs.drop start).take count
  getHeader sel.length hasFirst :: packEntries getOutCap (sel.map (Rec.entry hasPrev))

/-- An entry of a LIST session is its record. -/
theorem Layout.entryAt_eq (l : Layout) (recs : Buf) (i : Nat) :
    l.entryAt recs i = (l.recAt recs i).entry l.hasPrev := by
  have haddr : leBytes 8 (l.addrAt recs i) = slice recs (i * l.recSize) 8 :=
    leBytes_leNat 8 _ (length_slice ..)
  rw [Layout.entryAt, Rec.entry, Layout.recAt]
  simp only [haddr]
  cases l.hasPrev <;> rfl

theorem ListSession.length_records (s : ListSession) : s.records.length = s.count := by
  rw [ListSession.records, List.length_map, List.length_range]

/-- A range of the records of a LIST session. -/
theorem ListSession.entries_range (s : ListSession) {a b count : Nat} (ha : a ≤ s.count)
    (hb : b = min (a + count) s.count) :
    ((s.records.drop a).take count).map (Rec.entry s.layout.hasPrev) =
      (List.range' a (b - a)).map (s.layout.entryAt s.buf) := by
  have hlist : ((List.range s.count).drop a).take count = List.range' a (b - a) := by
    rw [List.range_eq_range', List.drop_range', Nat.mul_one, Nat.zero_add]
    rcases Nat.le_total (s.count - a) count with h | h
    · rw [List.take_range'_of_length_le h, show b - a = s.count - a by omega]
    · rw [List.take_range'_of_length_ge h, show b - a = count by omega]
  rw [ListSession.records, ← List.map_drop, ← List.map_take, hlist, List.map_map]
  apply List.map_congr_left
  intro i _
  exact (s.layout.entryAt_eq s.buf i).symm

/-- A GET on a LIST session. -/
theorem listGet_eq (s : ListSession) (start count : Nat) :
    listGet s start count = getReply s.layout.hasPrev s.layout.hasFirst s.records start count := by
  -- a start past the end is the end
  obtain ⟨a, ha, hle, hdrop⟩ : ∃ a, (if start > s.count then s.count else start) = a ∧ a ≤ s.count ∧
      s.records.drop start = s.records.drop a := by
    by_cases h : start > s.count
    · refine ⟨s.count, if_pos h, Nat.le_refl _, ?_⟩
      rw [List.drop_of_length_le (by rw [s.length_records]; omega),
        List.drop_of_length_le (by rw [s.length_records])]
    · exact ⟨start, if_neg h, by omega, rfl⟩
  have hstop : (if a + count > s.count then s.count else a + count) = min (a + count) s.count := by
    split <;> omega
  rw [listGet, getReply]
  simp only [ha, hstop, hdrop, s.entries_range hle rfl, List.length_take, List.length_drop,
    s.length_records]
  rw [show min count (s.count - a) = min (a + count) s.count - a by omega]

/-- An entry of a snapshot session is its record. -/
theorem SnapSession.entryAt_eq (s : SnapSession) (i : Nat) :
    s.entryAt i = (s.recAt i).entry s.hasPrev := by
  have hcur : slice (s.store.read (fun _ => 0) (i * s.valueLength) s.valueLength) 0 s.valueLength =
      s.cur i := slice_eq_iff.mpr fun x hx => by rw [Nat.zero_add, SplitStore.read_apply _ _ hx]
  rw [SnapSession.entryAt, Rec.entry, SnapSession.recAt]
  simp only [hcur]
  cases s.hasPrev <;> rfl

/-- The loop of a GET over the live slots: skip up to `start`, then emit up to `actual`. -/
theorem snapGetLoop_eq (s : SnapSession) (start actual : Nat) : ∀ (fuel pos seen emitted : Nat),
    (setFrom s.bitmap pos s.slotCount).length ≤ fuel → emitted ≤ actual →
    snapGetLoop s start actual fuel (nextSet s.bitmap pos s.slotCount) seen emitted =
      (((setFrom s.bitmap pos s.slotCount).drop (start - seen)).take (actual - emitted)).map
        s.entryAt := by
  intro fuel
  induction fuel with
  | zero =>
    intro pos seen emitted hlen _
    rw [List.eq_nil_of_length_eq_zero (Nat.le_zero.mp hlen)]
    simp [snapGetLoop]
  | succ fuel ih =>
    intro pos seen emitted hlen hemit
    cases hset : setFrom s.bitmap pos s.slotCount with
    | nil =>
      rw [nextSet_of_nil hset, snapGetLoop, if_neg (fun h => Nat.lt_irrefl _ h.1)]
      simp
    | cons i rest =>
      obtain ⟨hnext, hin, hrest⟩ := nextSet_of_cons hset
      rw [hset, List.length_cons] at hlen
      rw [hnext, snapGetLoop]
      rcases Nat.lt_or_ge emitted actual with hlt | hge
      · rw [if_pos ⟨hin, hlt⟩]
        simp only
        have hlen' : (setFrom s.bitmap (i + 1) s.slotCount).length ≤ fuel := by rw [hrest]; omega
        by_cases hseen : seen < start
        · rw [if_pos hseen, ih (i + 1) (seen + 1) emitted hlen' hemit, hrest,
            show start - seen = start - (seen + 1) + 1 by omega, List.drop_succ_cons]
        · rw [if_neg hseen, ih (i + 1) (seen + 1) (emitted + 1) hlen' hlt, hrest,
            show start - seen = 0 by omega, show start - (seen + 1) = 0 by omega,
            show actual - emitted = actual - (emitted + 1) + 1 by omega, List.drop_zero, List.drop_zero,
            List.take_succ_cons, List.map_cons]
      · rw [if_neg (fun h => absurd h.2 (Nat.not_lt.mpr hge)), show actual - emitted = 0 by omega]
        simp

/-- A GET on a snapshot session whose survivors are counted right. -/
theorem snapGet_eq_of_counted {s : SnapSession} (hlen : s.survivorCount = s.live.length)
    (hlt : s.survivorCount < 2 ^ 32) (start count : Nat) :
    snapGet s start count = getReply s.hasPrev s.hasFirst s.records start count := by
  have hactual : (if start < s.survivorCount then
      if count < s.survivorCount - start then count else (s.survivorCount - start) % 2 ^ 32
      else 0) = min count (s.survivorCount - start) := by
    split
    · split <;> omega
    · omega
  have hsel : ((s.records.drop start).take count).map (Rec.entry s.hasPrev) =
      ((s.live.drop start).take (min count (s.survivorCount - start))).map s.entryAt := by
    rw [SnapSession.records, ← List.map_drop, ← List.map_take, List.map_map, List.take_eq_take_min,
      List.length_drop, hlen]
    apply List.map_congr_left
    intro i _
    exact (s.entryAt_eq i).symm
  have hcount : ((s.records.drop start).take count).length = min count (s.survivorCount - start) := by
    rw [List.length_take, List.length_drop, SnapSession.records, List.length_map, hlen]
  have hloop := snapGetLoop_eq s start (min count (s.survivorCount - start)) (s.slotCount + 1) 0 0 0
    (Nat.le_succ_of_le (length_setFrom_le ..)) (Nat.zero_le _)
  rw [Nat.sub_zero, Nat.sub_zero, ← SnapSession.live] at hloop
  rw [snapGet, getReply]
  simp only [hactual, hcount, hsel, hloop]
  split
  · next hzero => simp [hzero, packEntries]
  · rfl

/-- A GET on a snapshot session. -/
theorem snapGet_eq {L : SnapLayout} {s : SnapSession} (h : s.Good L) (start count : Nat) :
    snapGet s start count = getReply s.hasPrev s.hasFirst s.records start count := by
  have hlen : s.survivorCount = s.live.length := by rw [h.counted, SnapSession.records, List.length_map]
  have hlt : s.survivorCount < 2 ^ 32 := by
    have hle := length_setFrom_le s.bitmap 0 s.slotCount
    have hn := h.lt
    rw [hlen, SnapSession.live]
    omega
  exact snapGet_eq_of_counted hlen hlt start count

/-! ## Materialisation -/

/-- Where `fs_snapshot_materialize` takes the value of slot `i` from. -/
def SnapSession.valuePtr (s : SnapSession) (i : Nat) : Buf :=
  if i * s.valueLength ≥ s.store.ramBytes then view s.store.file (i * s.valueLength - s.store.ramBytes)
  else view s.store.ram (i * s.valueLength)

theorem SnapSession.writeRec_eq (s : SnapSession) (recs : Buf) (i out : Nat) :
    s.writeRec recs i out = s.layout.fields recs out (s.addr i) (s.valuePtr i)
      (view s.prevFile (i * s.valueLength)) (view s.firstFile (i * s.valueLength)) := rfl

/-- The split of the baseline does not cut a slot. -/
theorem SnapSession.Good.slice_valuePtr {L : SnapLayout} {s : SnapSession} (h : s.Good L) (i : Nat) :
    slice (s.valuePtr i) 0 s.valueLength = s.cur i := by
  have hv := h.isOver.valueLength
  rw [SnapSession.valuePtr]
  split
  · next hge =>
    refine slice_eq_iff.mpr fun x _ => ?_
    rw [view_apply, SplitStore.flat, if_neg (by omega)]
    congr 1
    omega
  · next hlt =>
    have hwhole := h.whole
    obtain ⟨m, hm⟩ := Nat.dvd_of_mod_eq_zero hwhole
    rw [← hv, Nat.mul_comm] at hm
    rw [Nat.not_le, hm] at hlt
    have hmul : (i + 1) * s.valueLength ≤ m * s.valueLength :=
      Nat.mul_le_mul_right _ (Nat.lt_of_mul_lt_mul_right hlt)
    rw [Nat.succ_mul] at hmul
    rw [slice_view_zero, SnapSession.cur, slice_flat_ram _ (by omega)]

theorem SnapSession.Good.recAt_writeRec {L : SnapLayout} {s : SnapSession} (h : s.Good L)
    (recs : Buf) (i out : Nat) : s.layout.recAt (s.writeRec recs i out) out = s.recAt i := by
  have hcur : slice (s.valuePtr i) 0 s.layout.valueLength = s.cur i := h.slice_valuePtr i
  rw [s.writeRec_eq, Layout.recAt_fields _ _ _ _ _ (s.addr_lt i), hcur, slice_view_zero, slice_view_zero]
  rfl

/-- The loop of a materialisation: each live slot becomes a record behind those before it. -/
theorem SnapSession.Good.materializeLoop {L : SnapLayout} {s : SnapSession} (h : s.Good L)
    (readOk : Nat → Bool) (records : Nat) : ∀ (fuel pos out : Nat) (recs : Buf) {res : Buf × Nat},
    (setFrom s.bitmap pos s.slotCount).length ≤ fuel →
    out + (setFrom s.bitmap pos s.slotCount).length ≤ records →
    Ps5Debugger.materializeLoop s readOk records fuel (nextSet s.bitmap pos s.slotCount) out recs =
      some res →
    (List.range res.2).map (s.layout.recAt res.1) =
      (List.range out).map (s.layout.recAt recs) ++ (setFrom s.bitmap pos s.slotCount).map s.recAt := by
  intro fuel
  induction fuel with
  | zero =>
    intro pos out recs res hlen _ hres
    obtain rfl := Option.some.inj hres
    rw [List.eq_nil_of_length_eq_zero (Nat.le_zero.mp hlen), List.map_nil, List.append_nil]
  | succ fuel ih =>
    intro pos out recs res hlen hle hres
    cases hset : setFrom s.bitmap pos s.slotCount with
    | nil =>
      rw [nextSet_of_nil hset, Ps5Debugger.materializeLoop, if_neg (fun hc => Nat.lt_irrefl _ hc.1)] at hres
      obtain rfl := Option.some.inj hres
      rw [List.map_nil, List.append_nil]
    | cons i rest =>
      obtain ⟨hnext, hin, hrest⟩ := nextSet_of_cons hset
      rw [hset, List.length_cons] at hlen hle
      rw [hnext, Ps5Debugger.materializeLoop, if_pos ⟨hin, by omega⟩] at hres
      simp only at hres
      split at hres
      · cases hres
      · have hstep := ih (i + 1) (out + 1) (s.writeRec recs i out) (by rw [hrest]; omega)
          (by rw [hrest]; omega) hres
        have hfront : (List.range out).map (s.layout.recAt (s.writeRec recs i out)) =
            (List.range out).map (s.layout.recAt recs) := by
          apply List.map_congr_left
          intro o ho
          rw [s.writeRec_eq]
          exact s.layout.recAt_fields_before (List.mem_range.mp ho)
        rw [hstep, hrest, List.range_succ, List.map_append, List.map_singleton, hfront, h.recAt_writeRec,
          List.map_cons, List.append_assoc, List.singleton_append]

/-- **Materialisation keeps the survivors.** -/
theorem snapMaterialize_spec {L : SnapLayout} {s : SnapSession} (h : s.Good L) {mmapOk : Bool}
    {readOk : Nat → Bool} {l : ListSession} (hm : snapMaterialize s mmapOk readOk = some l) :
    l.layout = s.layout ∧ l.records = s.records := by
  rw [snapMaterialize] at hm
  split at hm
  · cases hm
  · obtain ⟨res, hres, rfl⟩ := Option.map_eq_some_iff.mp hm
    have hlen : s.survivorCount = (setFrom s.bitmap 0 s.slotCount).length := by
      rw [h.counted, SnapSession.records, List.length_map, SnapSession.live]
    refine ⟨rfl, ?_⟩
    have hloop := h.materializeLoop readOk s.survivorCount (s.slotCount + 1) 0 0 (fun _ => 0)
      (Nat.le_succ_of_le (length_setFrom_le ..)) (by omega) hres
    rw [List.range_zero, List.map_nil, List.nil_append] at hloop
    exact hloop

/-- `fs_snapshot_materialize` on a client's session: the session it leaves, and what it
returns. -/
def SnapSession.materialize (s : SnapSession) (mmapOk : Bool) (readOk : Nat → Bool) : Session × Bool :=
  match snapMaterialize s mmapOk readOk with
  | some l => (.list l, true)
  | none => (.snapshot s, false)

/-- A resident COUNT on a snapshot is the rescan and then, if wanted, the materialisation. -/
theorem residentCount_snapshot {mem : Memory} (env : CountEnv mem) (p : CountPass) (s : SnapSession) :
    (residentCount env p (.snapshot s)).1 =
      if (s.valueLength = p.valueLength ∧ env.blBuf.isSome) ∧
          wantsMaterialize env (snapCount env p s) (snapCount env p s).survivorCount then
        ((snapCount env p s).materialize env.mmapOk env.readOk).1
      else .snapshot (snapCount env p s) := by
  simp only [residentCount, SnapSession.materialize]
  cases snapMaterialize (snapCount env p s) env.mmapOk env.readOk <;> rfl

end Ps5Debugger

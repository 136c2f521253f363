import Ps5Debugger.Debug
import Ps5Debugger.Net
import Ps5Debugger.ResidentAgree
import Ps5Debugger.SnapshotBounds
import Ps5Debugger.TurboSession

/-!
# Pages of survivors

`CMD_PROC_TURBOSCAN_GET` shows a window of the survivors of the client's session. A LIST session is
indexed, a snapshot walks its bitmap; both put the entries through one buffer of 0x40000 bytes.

Whatever the two do, a GET is `getReply` of the list of survivors as soon as the survivors of a snapshot
are counted right. They are, on every connection and for every layout of the segments, in order or not:
a rescan visits each live slot once (`counted_snapRescan`). From there pages are a matter of lists
(`get_pages_tile`).
-/

namespace Ps5Debugger

open Lib

/-! ## `proc_turboscan_get_handle` -/

/-- `cmd_proc_turboscan_get_packet` but for the flags, which nothing reads. -/
structure GetPacket where
  start_index : UInt32
  count : UInt32

/-- `proc_turboscan_get_handle`: everything it sends. -/
def procTurboscanGetHandle (auth : Bool) (data : Option GetPacket) (sess : Option Session) (outAlloc : Bool) :
    List (List Byte) :=
  if auth = false then [statusBytes CMD_DATA_NULL]
  else
    match data, sess with
    | none, _ => [statusBytes CMD_DATA_NULL]
    | some _, none => [statusBytes CMD_SUCCESS, leBytes 4 0, statusBytes CMD_SUCCESS]
    | some gp, some s =>
      if outAlloc = false then [statusBytes CMD_DATA_NULL]
      else
        statusBytes CMD_SUCCESS :: s.get gp.start_index.toNat gp.count.toNat ++ [statusBytes CMD_SUCCESS]

/-! ## What is promised -/

/-- The survivors as a client receives them. -/
def Session.entries (sess : Session) : List (List Byte) := sess.records.map (Rec.entry sess.layout.hasPrev)

/-- The sends of a GET of `count` survivors from `start` on: between two status words a header, whose low
31 bits announce how many come and whose bit 31 says that each has its first value, and exactly their
bytes, no send longer than the buffer. -/
def ShowsPage (sends : List (List Byte)) (sess : Session) (start count : Nat) : Prop :=
  ∃ header blocks, sends = statusBytes CMD_SUCCESS :: (header :: blocks) ++ [statusBytes CMD_SUCCESS] ∧
    header.length = 4 ∧ leNat 4 header % 2 ^ 31 = min count (sess.records.length - start) ∧
    (2 ^ 31 ≤ leNat 4 header ↔ sess.layout.hasFirst = true) ∧
    blocks.flatten = ((sess.entries.drop start).take count).flatten ∧ ∀ b ∈ blocks, b.length ≤ 0x40000

/-- The bytes of a page: what lies between the header and the last status word. -/
def pageBytes (sends : List (List Byte)) : List Byte := (sends.drop 2).dropLast.flatten

/-- Requests for pages of these sizes, one behind the other. -/
def consecutive : Nat → List UInt32 → List GetPacket
  | _, [] => []
  | start, size :: sizes => ⟨UInt32.ofNat start, size⟩ :: consecutive (start + size.toNat) sizes

/-! ## Counting survivors -/

/-- What a rescan has done to the slots `P`: it has touched no other bit, and counted those of them that
are still set. -/
structure Tally (bm₀ : Buf) (P : List Nat) (bm : Buf) (survivors : Nat) : Prop where
  frame : ∀ x, x ∉ P → bit bm x = bit bm₀ x
  count : survivors = (P.filter (bit bm)).length

section Rescan

variable {mem : Memory} {actx : Option (AliasEngine mem)} {cmp : List Byte → List Byte → Bool} {bm₀ : Buf}

/-- One comparison. -/
theorem Tally.compare {s : SnapSession} {win : Buf} {ws i k : Nat} {P : List Nat} {st : GroupState}
    (h : Tally bm₀ P st.bitmap st.survivors) (hk : k ∉ P) (hlive : bit bm₀ k = true) :
    Tally bm₀ (P ++ [k]) (snapCompare s cmp win ws i st k).bitmap (snapCompare s cmp win ws i st k).survivors := by
  have hframe : ∀ x, x ≠ k → bit (snapCompare s cmp win ws i st k).bitmap x = bit st.bitmap x := fun x hx =>
    bit_snapCompare s cmp win ws i k x st hx
  have hold : P.filter (bit (snapCompare s cmp win ws i st k).bitmap) = P.filter (bit st.bitmap) :=
    List.filter_congr fun x hx => hframe x fun hxk => hk (hxk ▸ hx)
  have hbit : bit st.bitmap k = true := (h.frame k hk).trans hlive
  refine ⟨fun x hx => ?_, ?_⟩
  · rw [List.mem_append, List.mem_singleton, not_or] at hx
    rw [hframe x hx.2, h.frame x hx.1]
  · rw [List.filter_append, List.length_append, hold, ← h.count, List.filter_singleton]
    simp only [snapCompare]
    split
    · rw [hbit]
      rfl
    · rw [bit_clearBit, bne_self_eq_false, Bool.and_false]
      rfl

/-- The comparisons of a window. -/
theorem Tally.group {s : SnapSession} {win : Buf} {ws i : Nat} (group : List Nat) : ∀ {P : List Nat}
    {st : GroupState}, Tally bm₀ P st.bitmap st.survivors → (P ++ group).Nodup →
    (∀ k ∈ group, bit bm₀ k = true) →
    Tally bm₀ (P ++ group) (group.foldl (snapCompare s cmp win ws i) st).bitmap
      (group.foldl (snapCompare s cmp win ws i) st).survivors := by
  induction group with
  | nil =>
    intro P st h _ _
    rw [List.append_nil]
    exact h
  | cons k group ih =>
    intro P st h hnd hlive
    have hk : k ∉ P := fun hmem => (List.nodup_append.mp hnd).2.2 k hmem k List.mem_cons_self rfl
    have hstep : Tally bm₀ (P ++ [k]) (snapCompare s cmp win ws i st k).bitmap
        (snapCompare s cmp win ws i st k).survivors := h.compare hk (hlive k List.mem_cons_self)
    rw [List.foldl_cons, List.append_cons]
    exact ih hstep (by rw [← List.append_cons]; exact hnd) fun x hx => hlive x (List.mem_cons_of_mem _ hx)

variable (actx cmp) in
/-- **One window** counts the live slots of its group. -/
theorem Tally.window {P rest : List Nat} {i pos : Nat} {sc : SnapScan}
    (h : Tally bm₀ P sc.sess.bitmap sc.survivors) (hset : setFrom bm₀ pos sc.sess.slotCount = i :: rest)
    (hpos : ∀ x ∈ P, x < pos) (hP : P.Nodup) :
    Tally bm₀ (P ++ i :: groupAfter sc.sess.addr sc.sess.valueLength i rest)
        (snapWindow actx cmp sc i).sess.bitmap (snapWindow actx cmp sc i).survivors ∧
      (sc.sess.windowAt i).2 = (groupAfter sc.sess.addr sc.sess.valueLength i rest).getLastD i := by
  have hahead : setFrom sc.sess.bitmap pos sc.sess.slotCount = i :: rest := by
    rw [← hset]
    exact setFrom_congr fun x hx => h.frame x fun hmem => absurd (hpos x hmem) (Nat.not_lt.mpr hx)
  obtain ⟨hnext, -, hrest⟩ := nextSet_of_cons hahead
  obtain ⟨back, hback, -, hlast, hgroup, hbeyond⟩ :=
    @group_split sc.sess.addr sc.sess.valueLength _ _ _ _ _ hahead
  have hwin := windowAt_eq sc.sess hrest
  generalize groupAfter sc.sess.addr sc.sess.valueLength i rest = group at hback hlast hgroup hbeyond hwin ⊢
  generalize group.getLastD i = last at hlast hgroup hbeyond hwin ⊢
  refine ⟨?_, by rw [hwin]⟩
  have hge : pos ≤ i := (mem_setFrom.mp (hset ▸ List.mem_cons_self ..)).1
  have hlen : (i :: group).length < sc.sess.slotCount + 1 := by
    have hle := length_setFrom_le sc.sess.bitmap pos sc.sess.slotCount
    rw [hahead, hback, ← List.cons_append, List.length_append] at hle
    omega
  rw [hback, ← List.cons_append] at hahead hset
  have hsorted := setFrom_pairwise bm₀ pos sc.sess.slotCount
  rw [hset] at hsorted
  have hrun := fun win bl => snapGroup_eq sc.sess cmp win (sc.sess.addr i) i hlast hbeyond (i :: group)
    (sc.sess.slotCount + 1) pos ⟨sc.sess.bitmap, bl, false, sc.survivors⟩ hahead
    (fun x hx => (hgroup x hx).2) hlen
  simp only [hnext] at hrun
  simp only [snapWindow, hwin, hrun]
  refine Tally.group (i :: group) h ?_ fun k hk => ?_
  · refine List.nodup_append.mpr ⟨hP, (List.pairwise_append.mp hsorted).1.imp Nat.ne_of_lt, ?_⟩
    intro x hx y hy hxy
    have hlt := hpos x hx
    have hle := (hgroup y hy).1
    omega
  · exact (mem_setFrom.mp (hset ▸ List.mem_append_left _ hk)).2.2

/-- **The loop over the windows**, from position `pos` on: each live slot is counted once. -/
theorem Tally.loop {n : Nat} : ∀ (fuel : Nat) {P rest : List Nat} {pos : Nat} {sc : SnapScan},
    Tally bm₀ P sc.sess.bitmap sc.survivors → sc.sess.slotCount = n → setFrom bm₀ pos n = rest →
    (∀ x ∈ P, x < pos) → P.Nodup → rest.length < fuel →
    Tally bm₀ (P ++ rest) (snapLoop actx cmp fuel (nextSet sc.sess.bitmap pos n) sc).sess.bitmap
        (snapLoop actx cmp fuel (nextSet sc.sess.bitmap pos n) sc).survivors := by
  intro fuel
  induction fuel with
  | zero => intro P rest pos sc _ _ _ _ _ hfuel; exact absurd hfuel (Nat.not_lt_zero _)
  | succ fuel ih =>
    intro P rest pos sc h hn hset hpos hP hfuel
    have hahead : setFrom sc.sess.bitmap pos n = rest := by
      rw [← hset]
      exact setFrom_congr fun x hx => h.frame x fun hmem => absurd (hpos x hmem) (Nat.not_lt.mpr hx)
    cases rest with
    | nil =>
      rw [nextSet_of_nil hahead, snapLoop, if_neg (by rw [hn]; exact Nat.lt_irrefl _), List.append_nil]
      exact h
    | cons i back =>
      obtain ⟨hnext, hin, -⟩ := nextSet_of_cons hahead
      obtain ⟨hwin, hlast⟩ := h.window actx cmp (by rw [hn]; exact hset) hpos hP
      obtain ⟨rest', hback, hafter, -, hgroup, -⟩ :=
        @group_split sc.sess.addr sc.sess.valueLength _ _ _ _ _ hset
      have hsame := @snapWindow_same mem actx cmp sc i
      rw [hnext, snapLoop, if_pos (by rw [hn]; exact hin)]
      simp only [hlast, hn]
      generalize groupAfter sc.sess.addr sc.sess.valueLength i back = group at *
      have hlen : back.length = group.length + rest'.length := by rw [hback, List.length_append]
      have hsorted := setFrom_pairwise bm₀ pos n
      rw [hset, hback, ← List.cons_append] at hsorted
      have hipos : pos ≤ i := (mem_setFrom.mp (hset ▸ List.mem_cons_self ..)).1
      have hnext' : ∀ x ∈ P ++ i :: group, x < group.getLastD i + 1 := fun x hx => by
        have hile := (hgroup i List.mem_cons_self).2
        rcases List.mem_append.mp hx with hx | hx
        · have := hpos x hx
          omega
        · exact Nat.lt_succ_of_le (hgroup x hx).2
      have hP' : (P ++ i :: group).Nodup := by
        refine List.nodup_append.mpr ⟨hP, (List.pairwise_append.mp hsorted).1.imp Nat.ne_of_lt, ?_⟩
        intro x hx y hy hxy
        have hlt := hpos x hx
        have hle := (hgroup y hy).1
        omega
      have hrun := ih hwin (hsame.slotCount.trans hn) hafter hnext' hP' (by
        rw [List.length_cons] at hfuel
        omega)
      rw [List.append_assoc, List.cons_append, ← hback] at hrun
      exact hrun

/-- **After a rescan the survivors are counted**, whatever the order of the segments. -/
theorem counted_snapRescan (s : SnapSession) (memBuf blBuf : Buf) :
    (snapRescan actx cmp s memBuf blBuf).survivorCount = (snapRescan actx cmp s memBuf blBuf).live.length ∧
      (snapRescan actx cmp s memBuf blBuf).valueLength = s.valueLength := by
  rw [snapRescan]
  split
  · next hzero =>
    refine ⟨?_, rfl⟩
    show 0 = s.live.length
    rw [SnapSession.live, setFrom_of_le (Nat.le_of_eq hzero)]
    rfl
  · have hstart : Tally s.bitmap [] s.bitmap 0 := ⟨fun _ _ => rfl, rfl⟩
    have hrun : Tally s.bitmap ([] ++ s.live) (snapScan actx cmp s memBuf blBuf).sess.bitmap
        (snapScan actx cmp s memBuf blBuf).survivors :=
      @Tally.loop mem actx cmp s.bitmap s.slotCount (s.slotCount + 1) [] s.live 0 ⟨s, memBuf, blBuf, 0, []⟩
        hstart rfl rfl (fun x hx => absurd hx List.not_mem_nil) List.nodup_nil
        (Nat.lt_succ_of_le (length_setFrom_le ..))
    obtain ⟨hsame, -⟩ := snapScan_trace actx cmp s memBuf blBuf
    generalize snapScan actx cmp s memBuf blBuf = sc at hrun hsame ⊢
    refine ⟨?_, hsame.valueLength⟩
    show sc.survivors = (setFrom sc.sess.bitmap 0 sc.sess.slotCount).length
    rw [hrun.count, List.nil_append, SnapSession.live, setFrom, setFrom, hsame.slotCount, List.filter_filter]
    congr 1
    refine List.filter_congr fun x hx => ?_
    cases hbit : bit s.bitmap x with
    | true => rw [Bool.and_true]
    | false =>
      -- a slot that was not live is not touched
      have hdead : x ∉ [] ++ s.live := fun hmem => by
        have hset := (mem_setFrom.mp (show x ∈ setFrom s.bitmap 0 s.slotCount from hmem)).2.2
        rw [hbit] at hset
        cases hset
      rw [Bool.and_false, hrun.frame x hdead, hbit]

end Rescan

/-- **After a START the survivors are counted**, whatever its segments. -/
theorem counted_snapCreate {mem : Memory} {r : SnapReq} {env : SnapEnv} {s : SnapSession}
    (hv : r.valueLength ≤ 8) (hsegs : r.segs.length ≤ snapMaxSegs) (h : snapCreate mem r env = some s) :
    s.survivorCount = s.live.length ∧ s.valueLength = r.valueLength := by
  have hlen : (slotAddrs r.valueLength r.step r.segs).length < 2 ^ 53 := by
    have hle := @length_slotAddrs_le r.valueLength r.step r.segs
    rw [snapMaxSegs] at hsegs
    omega
  have htotal : slotTotal r.valueLength r.step 0 r.segs = (slotAddrs r.valueLength r.step r.segs).length := by
    rw [slotTotal_eq r.segs 0 (by omega), Nat.zero_add]
  obtain ⟨plan, st, hplan, hst, rfl⟩ := snapCreate_cases h
  rw [htotal] at hplan hst ⊢
  generalize hn : (slotAddrs r.valueLength r.step r.segs).length = n at hlen hplan hst ⊢
  have hbytes : n * r.valueLength < 2 ^ 64 := by
    have hmul : n * r.valueLength ≤ n * 8 := Nat.mul_le_mul_left _ hv
    omega
  obtain ⟨hram, -, -⟩ := snapPlan_spec hbytes hplan
  -- each slot has the address its window reads it at
  have htiles := @fillWindows_tiles (fun i => u64 ((slotAddrs r.valueLength r.step r.segs).getD i 0)) r.step
    r.valueLength env.chunkSize r.segs 0 (by omega) fun k _ => by rw [Nat.zero_add]
  rw [Nat.zero_add, hn] at htiles
  have hfill := @fillInv_foldl mem r plan _ _ _ n (fun _ => rfl) (fun _ => rfl) hram _ _ _
    (fillInv_zero r plan _ _ n env.readBuf env.packInit env.ramInit env.fileInit env.firstInit env.prevInit)
    htiles
  rw [hst] at hfill
  obtain ⟨hlive, hcount⟩ := hfill.live.done
  refine ⟨?_, rfl⟩
  show st.survivors = (setFrom st.bitmap 0 n).length
  rw [hlive]
  exact hcount

/-! ## Every session of a connection -/

/-- What holds of every session a client can have. -/
def Session.Sound : Session → Prop
  | .snapshot s => s.survivorCount = s.live.length ∧ s.valueLength ≤ 0x1000
  | .list s => s.layout.valueLength ≤ 0x1000

/-- A START gets no more segments than the handler receives. -/
def TurboCmd.Received : TurboCmd → Prop
  | .start c => ∀ segs ∈ c.segs, segs.length ≤ snapMaxSegs
  | _ => True

/-- What is known of a START that makes a snapshot. -/
theorem branch_create {c : TurboStart} {p : Pass} {segs : List SnapSegment} (h : c.branch = .create p segs) :
    c.segs = some segs ∧ p.valueLength ≤ 8 := by
  rw [TurboStart.branch] at h
  cases hp : c.prepare with
  | none => simp [hp] at h
  | some q =>
    cases hw : c.wantSnapshot with
    | true =>
      cases hs : c.segs with
      | none => simp [hp, hw, hs] at h
      | some segs' =>
        by_cases hlong : q.valueLength > 8
        · simp [hp, hw, hs, hlong] at h
        · simp only [hp, hw, hs, hlong, if_true, if_false, StartBranch.create.injEq] at h
          obtain ⟨rfl, rfl⟩ := h
          exact ⟨rfl, Nat.not_lt.mp hlong⟩
    | false =>
      generalize hres : c.residentResult q = res
      cases res with
      | none => simp [hp, hw, hres] at h
      | some r => simp [hp, hw, hres] at h

/-- What is known of a START that makes a list. -/
theorem branch_resident {c : TurboStart} {p : Pass} {stored : Bool} {recs : List Stored}
    (h : c.branch = .resident p stored recs) : ∃ buf, c.residentResult p = some (stored, recs, buf) := by
  rw [TurboStart.branch] at h
  cases hp : c.prepare with
  | none => simp [hp] at h
  | some q =>
    cases hw : c.wantSnapshot with
    | true =>
      cases hs : c.segs with
      | none => simp [hp, hw, hs] at h
      | some segs' => by_cases hlong : q.valueLength > 8 <;> simp [hp, hw, hs, hlong] at h
    | false =>
      generalize hres : c.residentResult q = res
      cases res with
      | none => simp [hp, hw, hres] at h
      | some r =>
        simp only [hp, hw, hres, Bool.false_eq_true, if_false, StartBranch.resident.injEq] at h
        obtain ⟨rfl, rfl, rfl⟩ := h
        exact ⟨r.2.2, hres⟩

/-- What a START leaves. -/
theorem Session.sound_start {sess : Option Session} {c : TurboStart} (hc : (TurboCmd.start c).Received)
    (h : ∀ s ∈ sess, s.Sound) : ∀ s ∈ (turboscanStart sess c).1, s.Sound := by
  rw [turboscanStart]
  cases hb : c.branch with
  | rejected => exact h
  | stream => exact h
  | refused => exact h
  | create p segs =>
    dsimp only
    cases hmade : c.create p segs with
    | none =>
      rintro s ⟨⟩
    | some made =>
      rintro s ⟨⟩
      obtain ⟨hsegs, hv⟩ := branch_create hb
      rw [TurboStart.create] at hmade
      split at hmade
      · cases hmade
      · obtain ⟨hcount, hlen⟩ := counted_snapCreate (show (c.snapReq p segs).valueLength ≤ 8 from hv)
          (hc segs hsegs) hmade
        exact ⟨hcount, hlen ▸ Nat.le_trans hv (by decide)⟩
  | resident p stored recs =>
    intro s hs
    obtain ⟨buf, hres⟩ := branch_resident hb
    obtain ⟨l, hl, rfl⟩ := Option.map_eq_some_iff.mp hs
    have hv : stored = true → p.valueLength ≤ 0x1000 := by
      rintro rfl
      rw [TurboStart.residentResult, residentPass] at hres
      dsimp only at hres
      split at hres
      · cases hres
      split at hres
      · next hfits => exact hfits.1
      · cases hres
    rw [startSession] at hl
    split at hl
    · next hstored =>
      obtain rfl := Option.some.inj hl
      show (residentSession p.valueLength _ recs).layout.valueLength ≤ 0x1000
      rw [residentSession_layout]
      exact hv hstored
    · cases hl

/-- What a COUNT leaves. -/
theorem Session.sound_count {sess : Session} (c : CountCmd) (h : sess.Sound) :
    (residentCount c.env c.pass sess).1.Sound := by
  cases sess with
  | list s =>
    show (listCount c.env.actx c.pass s c.env.memBuf).layout.valueLength ≤ 0x1000
    rw [listCount]
    split
    · exact h
    · exact h
  | snapshot s =>
    have hs : (snapCount c.env c.pass s).survivorCount = (snapCount c.env c.pass s).live.length ∧
        (snapCount c.env c.pass s).valueLength ≤ 0x1000 := by
      rw [snapCount]
      cases c.env.blBuf with
      | none => exact h
      | some blBuf =>
        dsimp only
        split
        · obtain ⟨hcount, hlen⟩ := @counted_snapRescan _ c.env.actx c.pass.residentCompare s c.env.memBuf blBuf
          exact ⟨hcount, hlen ▸ h.2⟩
        · exact h
    rw [residentCount]
    dsimp only
    generalize snapCount c.env c.pass s = t at hs ⊢
    split
    · split
      · next l hl =>
        -- a session that materialises keeps its layout
        rw [snapMaterialize] at hl
        split at hl
        · cases hl
        · obtain ⟨r, -, rfl⟩ := Option.map_eq_some_iff.mp hl
          exact hs.2
      · exact hs
    · exact hs

/-- **Every session of a connection is sound.** -/
theorem Session.sound_run (cmds : List TurboCmd) (hcmds : ∀ c ∈ cmds, c.Received) :
    ∀ {sess : Option Session}, (∀ s ∈ sess, s.Sound) → ∀ s ∈ (run turboStep sess cmds).1, s.Sound := by
  induction cmds with
  | nil => intro sess h; exact h
  | cons cmd cmds ih =>
    intro sess h
    refine ih (fun c hc => hcmds c (List.mem_cons_of_mem _ hc)) ?_
    have hcmd := hcmds cmd List.mem_cons_self
    cases cmd with
    | start c => exact Session.sound_start hcmd h
    | count c =>
      cases sess with
      | none => exact nofun
      | some s =>
        rintro s' ⟨⟩
        exact Session.sound_count c (h s rfl)
    | get start count => cases sess <;> exact h
    | finish => exact nofun
    | other => exact h

/-! ## One page -/

/-- The header of a GET that has no more records than 31 bits count. -/
theorem getHeader_spec {actual : Nat} (hactual : actual < 2 ^ 31) (hasFirst : Bool) :
    (getHeader actual hasFirst).length = 4 ∧ leNat 4 (getHeader actual hasFirst) % 2 ^ 31 = actual ∧
      (2 ^ 31 ≤ leNat 4 (getHeader actual hasFirst) ↔ hasFirst = true) := by
  have hword : actual % 2 ^ 32 = actual := Nat.mod_eq_of_lt (by omega)
  refine ⟨length_leBytes .., ?_⟩
  rw [getHeader, leNat_leBytes, hword]
  cases hasFirst with
  | false =>
    have hsmall : (actual ||| if false = true then 0x80000000 else 0) = actual := Nat.or_zero actual
    rw [hsmall]
    exact ⟨by omega, iff_of_false (by omega) (by decide)⟩
  | true =>
    have hor : (actual ||| if true = true then 0x80000000 else 0) = 2 ^ 31 + actual := by
      rw [if_pos rfl, Nat.or_comm]
      exact (Nat.two_pow_add_eq_or_of_lt hactual 1).symm
    rw [hor]
    exact ⟨by omega, iff_of_true (by omega) rfl⟩

/-- No block of entries that each fit the buffer is longer than it. -/
theorem length_packEntries_le {cap : Nat} {es : List (List Byte)} (hes : ∀ e ∈ es, e.length ≤ cap) :
    ∀ b ∈ packEntries cap es, b.length ≤ cap := by
  have hfold : ∀ (es : List (List Byte)) (st : List (List Byte) × List Byte), (∀ e ∈ es, e.length ≤ cap) →
      (∀ b ∈ st.1, b.length ≤ cap) → st.2.length ≤ cap →
      (∀ b ∈ (es.foldl (packEntry cap) st).1, b.length ≤ cap) ∧
        (es.foldl (packEntry cap) st).2.length ≤ cap := by
    intro es
    induction es with
    | nil => exact fun st _ h1 h2 => ⟨h1, h2⟩
    | cons e es ih =>
      intro st hes h1 h2
      have he := hes e List.mem_cons_self
      rw [List.foldl_cons, packEntry]
      by_cases hfull : st.2.length + e.length > cap
      · rw [if_pos hfull]
        refine ih _ (fun x hx => hes x (List.mem_cons_of_mem _ hx)) (fun b hb => ?_) he
        rcases List.mem_append.mp hb with hb | hb
        · exact h1 b hb
        · rw [List.mem_singleton.mp hb]
          exact h2
      · rw [if_neg hfull]
        refine ih _ (fun x hx => hes x (List.mem_cons_of_mem _ hx)) h1 ?_
        rw [List.length_append]
        exact Nat.not_lt.mp hfull
  obtain ⟨hsent, hlast⟩ := hfold es ([], []) hes (fun b hb => absurd hb List.not_mem_nil) (Nat.zero_le _)
  intro b hb
  rw [packEntries] at hb
  split at hb
  · rcases List.mem_append.mp hb with hb | hb
    · exact hsent b hb
    · rw [List.mem_singleton.mp hb]
      exact hlast
  · exact hsent b hb

/-- A survivor takes its address and at most three values. -/
theorem Session.Sound.length_entry_le {sess : Session} (h : sess.Sound) :
    ∀ e ∈ sess.entries, e.length ≤ getOutCap := by
  have hwidth : ∀ r ∈ sess.records, r.cur.length ≤ 0x1000 ∧ r.prev.length ≤ 0x1000 ∧ r.first.length ≤ 0x1000 := by
    cases sess with
    | list s =>
      have hv : s.layout.valueLength ≤ 0x1000 := h
      intro r hr
      obtain ⟨i, -, rfl⟩ := List.mem_map.mp hr
      rw [Layout.recAt]
      refine ⟨by rw [length_slice]; exact hv, ?_, ?_⟩
      · dsimp only
        split <;> simp [hv]
      · dsimp only
        split <;> simp [hv]
    | snapshot s =>
      have hv : s.valueLength ≤ 0x1000 := h.2
      intro r hr
      obtain ⟨i, -, rfl⟩ := List.mem_map.mp hr
      rw [SnapSession.recAt]
      refine ⟨by rw [SnapSession.cur, length_slice]; exact hv, ?_, ?_⟩
      · dsimp only
        split <;> simp [hv]
      · dsimp only
        split <;> simp [hv]
  intro e he
  obtain ⟨r, hr, rfl⟩ := List.mem_map.mp he
  obtain ⟨hcur, hprev, hfirst⟩ := hwidth r hr
  rw [Rec.entry, getOutCap]
  simp only [List.length_append, length_leBytes]
  split <;> omega

/-- A GET is a function of the survivors. -/
theorem Session.Sound.get_eq {sess : Session} (h : sess.Sound) (hN : sess.records.length < 2 ^ 31)
    (start count : Nat) : sess.get start count =
      getReply sess.layout.hasPrev sess.layout.hasFirst sess.records start count := by
  cases sess with
  | list s => exact listGet_eq s start count
  | snapshot s =>
    refine snapGet_eq_of_counted h.1 ?_ start count
    have hlen : s.records.length = s.live.length := List.length_map ..
    have hlt : s.records.length < 2 ^ 31 := hN
    rw [h.1, ← hlen]
    omega

/-- **One page**: what is announced and what follows. -/
theorem Session.Sound.showsPage {sess : Session} (h : sess.Sound) (hN : sess.records.length < 2 ^ 31)
    (gp : GetPacket) : ShowsPage (procTurboscanGetHandle true (some gp) (some sess) true) sess
      gp.start_index.toNat gp.count.toNat := by
  have hlen : ((sess.records.drop gp.start_index.toNat).take gp.count.toNat).length =
      min gp.count.toNat (sess.records.length - gp.start_index.toNat) := by
    rw [List.length_take, List.length_drop]
  obtain ⟨hfour, hlow, hhigh⟩ := getHeader_spec (show
    ((sess.records.drop gp.start_index.toNat).take gp.count.toNat).length < 2 ^ 31 by omega) sess.layout.hasFirst
  have hsel : ((sess.records.drop gp.start_index.toNat).take gp.count.toNat).map (Rec.entry sess.layout.hasPrev) =
      (sess.entries.drop gp.start_index.toNat).take gp.count.toNat := by
    rw [Session.entries, List.map_take, List.map_drop]
  refine ⟨_, packEntries getOutCap ((sess.entries.drop gp.start_index.toNat).take gp.count.toNat), ?_, hfour,
    hlow.trans hlen, hhigh, ?_, ?_⟩
  · rw [procTurboscanGetHandle, if_neg (by decide), if_neg (by decide), h.get_eq hN, getReply, hsel]
  · exact flatten_packEntries ..
  · exact length_packEntries_le fun e he => h.length_entry_le e (List.mem_of_mem_drop (List.mem_of_mem_take he))

/-! ## All pages -/

theorem pageBytes_eq {header : List Byte} {blocks : List (List Byte)} (a b : List Byte) :
    pageBytes (a :: (header :: blocks) ++ [b]) = blocks.flatten := by
  rw [pageBytes, List.cons_append, List.cons_append, List.drop_succ_cons, List.drop_succ_cons, List.drop_zero,
    List.dropLast_concat]

/-- Consecutive pages hold the survivors from the first one's start on, each once. -/
theorem Session.Sound.pages {sess : Session} (h : sess.Sound) (hN : sess.records.length < 2 ^ 31)
    (sizes : List UInt32) : ∀ {start : Nat}, start + (sizes.dropLast.map (·.toNat)).sum < 2 ^ 32 →
    ((consecutive start sizes).map fun gp =>
      pageBytes (procTurboscanGetHandle true (some gp) (some sess) true)).flatten =
        ((sess.entries.drop start).take (sizes.map (·.toNat)).sum).flatten := by
  induction sizes with
  | nil => intro start _; rfl
  | cons size sizes ih =>
    intro start hstart
    have hword : (UInt32.ofNat start).toNat = start := by
      rw [UInt32.toNat_ofNat', Nat.mod_eq_of_lt (by omega)]
    obtain ⟨header, blocks, hsends, -, -, -, hbytes, -⟩ := h.showsPage hN ⟨UInt32.ofNat start, size⟩
    rw [consecutive, List.map_cons, List.flatten_cons, hsends, pageBytes_eq, hbytes, hword, List.map_cons,
      List.sum_cons, List.take_add, List.flatten_append, List.drop_drop]
    congr 1
    cases sizes with
    | nil => rfl
    | cons size' sizes =>
      refine ih ?_
      rw [List.dropLast_cons_cons, List.map_cons, List.sum_cons] at hstart
      omega

/-- **GET pages tile the survivors.** On every connection, whatever was sent on it before: if the session
has fewer than `2^31` survivors, every GET announces as many records as there are from its start on, at most
as many as it asks for, and sends exactly their bytes in pieces no longer than the buffer; and consecutive
pages that cover the survivors hold each of them once, in order. -/
theorem get_pages_tile (cmds : List TurboCmd) (hcmds : ∀ c ∈ cmds, c.Received) {sess : Session}
    (hsess : (run turboStep none cmds).1 = some sess) (hN : sess.records.length < 2 ^ 31) :
    (∀ gp : GetPacket, ShowsPage (procTurboscanGetHandle true (some gp) (some sess) true) sess
      gp.start_index.toNat gp.count.toNat) ∧
    ∀ sizes : List UInt32, (sizes.dropLast.map (·.toNat)).sum < 2 ^ 32 →
      sess.records.length ≤ (sizes.map (·.toNat)).sum →
      ((consecutive 0 sizes).map fun gp =>
        pageBytes (procTurboscanGetHandle true (some gp) (some sess) true)).flatten = sess.entries.flatten := by
  have hnone : ∀ s ∈ (none : Option Session), s.Sound := fun s hs => by cases hs
  have h : sess.Sound := Session.sound_run cmds hcmds hnone sess hsess
  refine ⟨h.showsPage hN, fun sizes hsizes hall => ?_⟩
  rw [h.pages hN sizes (by rw [Nat.zero_add]; exact hsizes), List.drop_zero, List.take_of_length_le]
  rw [Session.entries, List.length_map]
  exact hall

/-- The pages of a snapshot of one word. -/
theorem get_pages_tile_word : ∃ sess, (run turboStep none [.start (fourByteStart 4 4)]).1 = some sess ∧
    ∀ gp : GetPacket, ShowsPage (procTurboscanGetHandle true (some gp) (some sess) true) sess
      gp.start_index.toNat gp.count.toNat := by
  refine ⟨_, rfl, (get_pages_tile [.start (fourByteStart 4 4)] (fun c hc => ?_) rfl (by decide)).1⟩
  obtain rfl := List.mem_singleton.mp hc
  rintro segs ⟨⟩
  decide

end Ps5Debugger

import Ps5Debugger.SnapshotSession
import Ps5Debugger.Lib.Machine

/-!
# Whole sessions

A client starts a snapshot and then sends COUNT and GET commands, each with its own memory.
The reference is a machine over the list of survivors. Both representations simulate it, so
they answer alike whatever the commands (`run_simulates_told`): the session refines the reference
from START on (`snapshot_session_refines`), and a session that materialised answers as the
snapshot it was would have (`materialize_transparent`).

A COUNT on a snapshot needs a buffer for the baseline. Without one it answers with the count it has,
and that is what the reference is told; a LIST session needs none.
-/

namespace Ps5Debugger

open Lib

/-! ## Commands -/

/-- A resident COUNT: memory as it is while the command runs, what the handler finds, and the
request. -/
structure CountCmd where
  mem : Memory
  env : CountEnv mem
  pass : CountPass

/-- A command on a resident session. -/
inductive Cmd : Type where
  | count (c : CountCmd)
  | get (start count : Nat)

/-- Its reply: the survivor count, or everything a GET sends. -/
inductive Reply : Type where
  | count (n : Nat)
  | get (sends : List (List Byte))

/-- The number that a COUNT is answered with. -/
def Reply.counted : Reply → Nat
  | .count n => n
  | .get _ => 0

/-- A command on a session that may materialise. -/
def Session.step (sess : Session) : Cmd → Session × Reply
  | .count c =>
    let r := residentCount c.env c.pass sess
    (r.1, .count r.2)
  | .get start count => (sess, .get (sess.get start count))

/-- A command on a session that stays a snapshot. -/
def SnapSession.step (s : SnapSession) : Cmd → SnapSession × Reply
  | .count c =>
    let s' := snapCount c.env c.pass s
    (s', .count s'.survivorCount)
  | .get start count => (s, .get (snapGet s start count))

/-- The reference for a COUNT. -/
def countRecords (l : Layout) (c : CountCmd) (recs : List Rec) : List Rec :=
  if l.valueLength = c.pass.valueLength then
    recs.filterMap (Rec.recount c.mem l.valueLength l.hasPrev c.pass.residentCompare)
  else recs

/-- The reference for a command; `none` is a COUNT that only asks how many survivors there are. -/
def refStep (l : Layout) (recs : List Rec) : Option Cmd → List Rec × Reply
  | some (.count c) => (countRecords l c recs, .count (countRecords l c recs).length)
  | some (.get start count) => (recs, .get (getReply l.hasPrev l.hasFirst recs start count))
  | none => (recs, .count recs.length)

/-- Whether a command on a snapshot finds the buffer it needs. -/
def Cmd.buffered : Cmd → Bool
  | .count c => c.env.blBuf.isSome
  | .get _ _ => true

/-- What the reference is told of a command on a snapshot. -/
def SnapSession.tell (_s : SnapSession) (c : Cmd) : Option Cmd := if c.buffered then some c else none

/-- What the reference is told of a command on a session. -/
def Session.tell : Session → Cmd → Option Cmd
  | .snapshot s, c => s.tell c
  | .list _, c => some c

/-! ## Both representations -/

/-- The survivors of a session. -/
def Session.records : Session → List Rec
  | .snapshot s => s.records
  | .list s => s.records

/-- What the records of a session keep. -/
def Session.layout : Session → Layout
  | .snapshot s => s.layout
  | .list s => s.layout

/-- What holds of every session over a layout. -/
def Session.Good (L : SnapLayout) : Session → Prop
  | .snapshot s => s.Good L
  | .list s => s.layout.valueLength = L.v ∧ ∀ r ∈ s.records, r.addr + L.v < 2 ^ 64

theorem Session.get_eq {L : SnapLayout} {sess : Session} (h : sess.Good L) (start count : Nat) :
    sess.get start count = getReply sess.layout.hasPrev sess.layout.hasFirst sess.records start count := by
  cases sess with
  | snapshot s => exact snapGet_eq h start count
  | list s => exact listGet_eq s start count

/-- A COUNT does not move survivors. -/
theorem Rec.recount_addr {mem : Memory} {v : Nat} {hasPrev : Bool} {cmp : List Byte → List Byte → Bool}
    {r r' : Rec} (h : r.recount mem v hasPrev cmp = some r') : r'.addr = r.addr := by
  rw [Rec.recount] at h
  split at h
  · obtain rfl := Option.some.inj h
    rfl
  · cases h

/-- The slots of a snapshot end inside the address space. -/
theorem SnapSession.Good.addr_lt {L : SnapLayout} {s : SnapSession} (h : s.Good L) :
    ∀ r ∈ s.records, r.addr + L.v < 2 ^ 64 := by
  intro r hr
  obtain ⟨i, hi, rfl⟩ := List.mem_map.mp hr
  have hlt := (mem_setFrom.mp hi).2.1
  have haddr : (s.recAt i).addr = L.addr i := h.isOver.addr_eq hlt
  rw [haddr]
  exact SnapLayout.addr_lt (h.isOver.slotCount_eq ▸ hlt)

/-- A snapshot that materialises leaves a good LIST session. -/
theorem SnapSession.Good.materialized {L : SnapLayout} {s : SnapSession} (h : s.Good L) {mmapOk : Bool}
    {readOk : Nat → Bool} {l : ListSession} (hm : snapMaterialize s mmapOk readOk = some l) :
    (Session.list l).Good L := by
  obtain ⟨hlayout, hrec⟩ := snapMaterialize_spec h hm
  refine ⟨?_, ?_⟩
  · rw [hlayout]
    exact h.isOver.valueLength
  · rw [hrec]
    exact h.addr_lt

section Counts

variable {L : SnapLayout} (horder : WindowOrder L)

include horder in
/-- A COUNT on a snapshot session that finds its buffer. -/
theorem snapCount_spec {s : SnapSession} (h : s.Good L) (c : CountCmd) {blBuf : Buf}
    (hbl : c.env.blBuf = some blBuf) :
    (snapCount c.env c.pass s).Good L ∧ (snapCount c.env c.pass s).layout = s.layout ∧
      (snapCount c.env c.pass s).records = countRecords s.layout c s.records := by
  rw [snapCount, hbl, countRecords]
  dsimp only
  by_cases hlen : s.valueLength = c.pass.valueLength
  · have hlen' : s.layout.valueLength = c.pass.valueLength := hlen
    rw [if_pos hlen, if_pos hlen']
    obtain ⟨hrec, hcount, hsame⟩ := records_snapRescan c.env.actx c.pass.residentCompare s c.env.memBuf
      blBuf (h.isOver.serves horder)
    refine ⟨⟨hsame.isOver h.isOver, ?_, ?_, hcount⟩, ?_, hrec⟩
    · rw [hsame.slotCount]
      exact h.lt
    · rw [hsame.ramBytes]
      exact h.whole
    · rw [SnapSession.layout, hsame.valueLength, hsame.hasPrev, hsame.hasFirst]
      rfl
  · have hlen' : ¬s.layout.valueLength = c.pass.valueLength := hlen
    rw [if_neg hlen, if_neg hlen']
    exact ⟨h, rfl, rfl⟩

/-- One that does not find it leaves the session, and does not materialise it. -/
theorem residentCount_unbuffered (s : SnapSession) {c : CountCmd} (hbl : c.env.blBuf = none) :
    snapCount c.env c.pass s = s ∧
      residentCount c.env c.pass (.snapshot s) = (.snapshot s, s.survivorCount) := by
  have hs : snapCount c.env c.pass s = s := by rw [snapCount, hbl]
  refine ⟨hs, ?_⟩
  rw [residentCount, hs]
  simp [hbl]

/-- A COUNT on a LIST session. -/
theorem listCount_spec {s : ListSession} (h : (Session.list s).Good L) (c : CountCmd) :
    (Session.list (listCount c.env.actx c.pass s c.env.memBuf)).Good L ∧
      (listCount c.env.actx c.pass s c.env.memBuf).layout = s.layout ∧
      (listCount c.env.actx c.pass s c.env.memBuf).records = countRecords s.layout c s.records := by
  obtain ⟨hv, hwrap⟩ := h
  have hle := L.v_le
  rw [listCount, countRecords]
  by_cases hlen : s.layout.valueLength = c.pass.valueLength
  · rw [if_pos hlen, if_pos hlen]
    have hrec := records_listRescan c.env.actx c.pass.residentCompare c.env.memBuf
      (by rw [hv]; omega) (by rw [hv]; exact hwrap)
    refine ⟨⟨hv, fun r hr => ?_⟩, rfl, hrec⟩
    rw [hrec] at hr
    obtain ⟨r₀, hr₀, hsome⟩ := List.mem_filterMap.mp hr
    rw [Rec.recount_addr hsome]
    exact hwrap r₀ hr₀
  · rw [if_neg hlen, if_neg hlen]
    exact ⟨⟨hv, hwrap⟩, rfl, rfl⟩

include horder in
/-- A resident COUNT that rescans, with the materialisation it may try. -/
theorem residentCount_spec {sess : Session} (h : sess.Good L) (c : CountCmd)
    (htell : sess.tell (.count c) = some (.count c)) :
    (residentCount c.env c.pass sess).1.Good L ∧
      (residentCount c.env c.pass sess).1.layout = sess.layout ∧
      (residentCount c.env c.pass sess).1.records = countRecords sess.layout c sess.records ∧
      (residentCount c.env c.pass sess).2 = (countRecords sess.layout c sess.records).length := by
  cases sess with
  | list s =>
    obtain ⟨hgood, hlayout, hrec⟩ := listCount_spec h c
    refine ⟨hgood, hlayout, hrec, ?_⟩
    show (listCount c.env.actx c.pass s c.env.memBuf).count = (countRecords s.layout c s.records).length
    rw [← hrec, ListSession.length_records]
  | snapshot s =>
    obtain ⟨blBuf, hbl⟩ : ∃ blBuf, c.env.blBuf = some blBuf := by
      rw [Session.tell, SnapSession.tell, Cmd.buffered] at htell
      refine Option.isSome_iff_exists.mp ?_
      by_contra hnone
      rw [if_neg hnone] at htell
      cases htell
    obtain ⟨hgood, hlayout, hrec⟩ := snapCount_spec horder h c hbl
    have hcount : (snapCount c.env c.pass s).survivorCount = (countRecords s.layout c s.records).length := by
      rw [hgood.counted, hrec]
    simp only [residentCount]
    split
    · cases hm : snapMaterialize (snapCount c.env c.pass s) c.env.mmapOk c.env.readOk with
      | none => exact ⟨hgood, hlayout, hrec, hcount⟩
      | some l =>
        obtain ⟨hl, hr⟩ := snapMaterialize_spec hgood hm
        exact ⟨hgood.materialized hm, hl.trans hlayout, hr.trans hrec, hcount⟩
    · exact ⟨hgood, hlayout, hrec, hcount⟩

/-- What is told of a COUNT is itself, or nothing where a snapshot has no buffer. -/
theorem tell_count (sess : Session) (c : CountCmd) : sess.tell (.count c) = some (.count c) ∨
    sess.tell (.count c) = none ∧ ∃ s, sess = .snapshot s ∧ c.env.blBuf = none := by
  cases sess with
  | list s => exact .inl rfl
  | snapshot s =>
    rw [Session.tell, SnapSession.tell, Cmd.buffered]
    cases hbl : c.env.blBuf with
    | some blBuf => exact .inl rfl
    | none => exact .inr ⟨rfl, s, rfl, rfl⟩

/-- A command that finds its buffer is told as it is. -/
theorem tell_of_buffered {c : Cmd} (h : c.buffered = true) (sess : Session) : sess.tell c = some c := by
  cases sess with
  | list s => rfl
  | snapshot s => rw [Session.tell, SnapSession.tell, if_pos h]

include horder in
/-- **A session answers every command as the reference does.** -/
theorem session_simulates (sess : Session) (h : sess.Good L) (cmds : List Cmd) :
    (run Session.step sess cmds).1.records =
        (run (refStep sess.layout) sess.records (told Session.step Session.tell sess cmds)).1 ∧
      (run Session.step sess cmds).2 =
        (run (refStep sess.layout) sess.records (told Session.step Session.tell sess cmds)).2 := by
  obtain ⟨⟨-, -, hrec⟩, hreplies⟩ := @run_simulates_told _ _ _ _ _ Session.step (refStep sess.layout) Session.tell
    (fun (t : Session) recs => t.Good L ∧ t.layout = sess.layout ∧ t.records = recs) (fun t recs c hrel => by
      obtain ⟨hgood, hlayout, rfl⟩ := hrel
      cases c with
      | count c =>
        rcases tell_count t c with htell | ⟨htell, s, rfl, hbl⟩
        · obtain ⟨h1, h2, h3, h4⟩ := residentCount_spec horder hgood c htell
          rw [hlayout] at h2 h3 h4
          rw [htell]
          exact ⟨⟨h1, h2, h3⟩, congrArg Reply.count h4⟩
        · -- the session is left, and its count is that of the reference
          obtain ⟨-, hcount⟩ := residentCount_unbuffered s hbl
          rw [htell, Session.step, hcount]
          exact ⟨⟨hgood, hlayout, rfl⟩, congrArg Reply.count hgood.counted⟩
      | get start count =>
        have htell : t.tell (.get start count) = some (.get start count) := by cases t <;> rfl
        rw [htell]
        refine ⟨⟨hgood, hlayout, rfl⟩, congrArg Reply.get ?_⟩
        rw [Session.get_eq hgood, hlayout]) cmds (s := sess) (t := sess.records) ⟨h, rfl, rfl⟩
  exact ⟨hrec, hreplies⟩

include horder in
/-- So does a session that never materialises. -/
theorem snapSession_simulates {s : SnapSession} (h : s.Good L) (cmds : List Cmd) :
    (run SnapSession.step s cmds).1.Good L ∧ (run SnapSession.step s cmds).2 =
      (run (refStep s.layout) s.records (told SnapSession.step SnapSession.tell s cmds)).2 := by
  obtain ⟨⟨hgood, -, -⟩, hreplies⟩ := @run_simulates_told _ _ _ _ _ SnapSession.step (refStep s.layout)
    SnapSession.tell
    (fun (t : SnapSession) recs => t.Good L ∧ t.layout = s.layout ∧ t.records = recs) (fun t recs c hrel => by
      obtain ⟨hgood, hlayout, rfl⟩ := hrel
      cases c with
      | count c =>
        cases hbl : c.env.blBuf with
        | none =>
          obtain ⟨hs, -⟩ := residentCount_unbuffered t hbl
          rw [SnapSession.tell, Cmd.buffered, hbl, SnapSession.step, hs]
          exact ⟨⟨hgood, hlayout, rfl⟩, congrArg Reply.count hgood.counted⟩
        | some blBuf =>
          obtain ⟨h1, h2, h3⟩ := snapCount_spec horder hgood c hbl
          have hcount := h1.counted
          rw [hlayout] at h2 h3
          rw [h3] at hcount
          rw [SnapSession.tell, Cmd.buffered, hbl]
          exact ⟨⟨h1, h2, h3⟩, congrArg Reply.count hcount⟩
      | get start count =>
        refine ⟨⟨hgood, hlayout, rfl⟩, congrArg Reply.get ?_⟩
        rw [snapGet_eq hgood, ← hlayout]
        rfl) cmds (s := s) (t := s.records) ⟨h, rfl, rfl⟩
  exact ⟨hgood, hreplies⟩

end Counts

/-! ## From START on -/

/-- Two segments in order, of two slots and one. -/
def ascendingPair : SnapLayout :=
  { descendingPair with
    segs := [⟨0x1000, 8⟩, ⟨0x2000, 4⟩]
    nseg_le := by decide
    no_wrap := by decide
    disjoint := by
      refine List.pairwise_pair.mpr fun x hx hx' => ?_
      obtain ⟨-, h1⟩ := hx
      obtain ⟨h2, -⟩ := hx'
      exact absurd (Nat.lt_of_le_of_lt h2 h1) (by decide) }

theorem ascendingPair_ascending : ascendingPair.Ascending := List.pairwise_pair.mpr (by decide)

/-- A COUNT of the unchanged values while memory reads `b` throughout. -/
def unchangedCmd (b : Byte) : CountCmd where
  mem := fun _ => b
  env := ⟨none, fun _ => 0, some fun _ => 0, 0, true, fun _ => true⟩
  pass := unchangedPass

/-- The same without memory for `bl_buf`. -/
def unbufferedCmd (b : Byte) : CountCmd where
  mem := fun _ => b
  env := ⟨none, fun _ => 0, none, 0, true, fun _ => true⟩
  pass := unchangedPass

/-- **A snapshot session refines the pointwise reference**, over ascending segments, whatever
the split of the baseline, the memory between commands, and whether and when the session
materialises: START keeps the slots that hold something, or all of them; COUNT keeps the
survivors whose fresh value matches; the replies are those of the reference. A COUNT that finds no
memory for `bl_buf` while the session is a snapshot is told to the reference as a question for the count,
every other command as it is. -/
theorem snapshot_session_refines {L : SnapLayout} (hasc : L.Ascending) {mem : Memory} {env : SnapEnv}
    {includeZeros keepFirst keepPrev : Bool} {s : SnapSession}
    (hs : snapCreate mem (L.req includeZeros keepFirst keepPrev) env = some s) (cmds : List Cmd) :
    s.survivorCount = (L.startRecords mem includeZeros s.hasPrev s.hasFirst).length ∧
    (env.packBuf = true → env.firstOpen = true → env.prevOpen = true →
      s.hasFirst = keepFirst ∧ s.hasPrev = keepPrev) ∧
    (run Session.step (.snapshot s) cmds).1.records = (run (refStep s.layout)
      (L.startRecords mem includeZeros s.hasPrev s.hasFirst) (told Session.step Session.tell (.snapshot s) cmds)).1 ∧
    (run Session.step (.snapshot s) cmds).2 = (run (refStep s.layout)
      (L.startRecords mem includeZeros s.hasPrev s.hasFirst) (told Session.step Session.tell (.snapshot s) cmds)).2 ∧
    ((∀ c ∈ cmds, c.buffered) → told Session.step Session.tell (.snapshot s) cmds = cmds.map some) := by
  obtain ⟨hgood, hrec⟩ := snapCreate_spec hs
  obtain ⟨hrecords, hreplies⟩ := session_simulates
    (SnapLayout.windowOrder_of_ascending hasc) (.snapshot s) hgood cmds
  rw [← hrec]
  refine ⟨hgood.counted, fun hpack hfirst hprev => ?_, hrecords, hreplies, fun hall =>
    told_eq_map cmds _ fun c hc sess => tell_of_buffered (hall c hc) sess⟩
  obtain ⟨plan, st, hplan, -, rfl⟩ := snapCreate_cases hs
  exact snapPlan_keeps hplan hpack hfirst hprev

/-- A START over memory that reads one throughout, two COUNTs and a GET. -/
theorem snapshot_session_refines_pair : ascendingPair.Ascending ∧
    ∃ s, snapCreate (fun _ => 1) (ascendingPair.req false true true) roomyEnv = some s ∧
      (run Session.step (.snapshot s) [.count (unchangedCmd 1), .get 0 10, .count (unchangedCmd 2)]).2 =
        (run (refStep s.layout) (ascendingPair.startRecords (fun _ => 1) false s.hasPrev s.hasFirst)
          (told Session.step Session.tell (.snapshot s)
            [.count (unchangedCmd 1), .get 0 10, .count (unchangedCmd 2)])).2 :=
  ⟨ascendingPair_ascending, _, rfl, (@snapshot_session_refines ascendingPair ascendingPair_ascending
    (fun _ => 1) roomyEnv false true true _ rfl _).2.2.2.1⟩

/-- Memory changes under both slots' values, and a COUNT without `bl_buf` keeps them all the same. -/
theorem unbuffered_count_keeps : ∃ s,
    snapCreate (fun _ => 1) (ascendingPair.req false true true) roomyEnv = some s ∧
      (run Session.step (.snapshot s) [.count (unbufferedCmd 2)]).2 ≠
        (run (refStep s.layout) (ascendingPair.startRecords (fun _ => 1) false s.hasPrev s.hasFirst)
          [some (.count (unbufferedCmd 2))]).2 := by
  refine ⟨_, rfl, ?_⟩
  have hcode : ∀ (s : SnapSession), (run Session.step (.snapshot s) [.count (unbufferedCmd 2)]).2 =
      [.count s.survivorCount] := fun s => by
    rw [run, run, Session.step, (residentCount_unbuffered s rfl).2]
  rw [hcode]
  intro h
  have hcount := congrArg (List.map Reply.counted) h
  revert hcount
  decide +kernel

/-- **Materialisation is transparent**: from any session that START and COUNT commands lead
to, a materialisation that succeeds leaves a LIST session that answers all later commands as
the snapshot would have if it finds a `bl_buf` for every COUNT, and one that fails leaves the
snapshot. -/
theorem materialize_transparent {L : SnapLayout} (hasc : L.Ascending) {mem : Memory} {env : SnapEnv}
    {includeZeros keepFirst keepPrev : Bool} {s : SnapSession}
    (hs : snapCreate mem (L.req includeZeros keepFirst keepPrev) env = some s) (before : List Cmd)
    (mmapOk : Bool) (readOk : Nat → Bool) :
    (((run SnapSession.step s before).1.materialize mmapOk readOk).2 = true →
      (∃ l, ((run SnapSession.step s before).1.materialize mmapOk readOk).1 = .list l) ∧
      ∀ cmds : List Cmd, (∀ c ∈ cmds, c.buffered) →
        (run Session.step ((run SnapSession.step s before).1.materialize mmapOk readOk).1 cmds).2 =
          (run SnapSession.step (run SnapSession.step s before).1 cmds).2) ∧
    (((run SnapSession.step s before).1.materialize mmapOk readOk).2 = false →
      ((run SnapSession.step s before).1.materialize mmapOk readOk).1 =
        .snapshot (run SnapSession.step s before).1) := by
  have horder := SnapLayout.windowOrder_of_ascending hasc
  obtain ⟨hgood, -⟩ := snapSession_simulates horder (snapCreate_spec hs).1 before
  generalize (run SnapSession.step s before).1 = t at hgood ⊢
  cases hm : snapMaterialize t mmapOk readOk with
  | none =>
    have hfail : t.materialize mmapOk readOk = (.snapshot t, false) := by rw [SnapSession.materialize, hm]
    rw [hfail]
    exact ⟨fun h => absurd h (by simp), fun _ => rfl⟩
  | some l =>
    obtain ⟨hlayout, hrec⟩ := snapMaterialize_spec hgood hm
    have hdone : t.materialize mmapOk readOk = (.list l, true) := by rw [SnapSession.materialize, hm]
    rw [hdone]
    refine ⟨fun _ => ⟨⟨l, rfl⟩, fun cmds hall => ?_⟩, fun h => absurd h (by simp)⟩
    -- both are the reference over the same survivors
    have h1 := (session_simulates horder _ (hgood.materialized hm) cmds).2
    have h2 := (snapSession_simulates horder hgood cmds).2
    have hl : (Session.list l).layout = t.layout := hlayout
    have hr : (Session.list l).records = t.records := hrec
    rw [hl, hr, told_eq_map cmds _ fun c hc sess => tell_of_buffered (hall c hc) sess] at h1
    have htold : told SnapSession.step SnapSession.tell t cmds = _ := told_eq_map cmds t fun c hc s =>
      tell_of_buffered (hall c hc) (.snapshot s)
    rw [htold] at h2
    rw [h1, h2]

/-- The session of the two segments materialises after a COUNT, and answers as before. -/
theorem materialize_transparent_pair : ∃ s,
    snapCreate (fun _ => 1) (ascendingPair.req false true true) roomyEnv = some s ∧
      ((run SnapSession.step s [.count (unchangedCmd 1)]).1.materialize true fun _ => true).2 = true ∧
      (run Session.step ((run SnapSession.step s [.count (unchangedCmd 1)]).1.materialize true
          fun _ => true).1 [.get 0 10, .count (unchangedCmd 2)]).2 =
        (run SnapSession.step (run SnapSession.step s [.count (unchangedCmd 1)]).1
          [.get 0 10, .count (unchangedCmd 2)]).2 := by
  refine ⟨_, rfl, by decide +kernel, ?_⟩
  refine ((@materialize_transparent ascendingPair ascendingPair_ascending (fun _ => 1) roomyEnv false
    true true _ rfl _ _ _).1 ?_).2 _ (by decide)
  decide +kernel

/-- A COUNT without memory for `bl_buf` that the LIST session rescans and the snapshot would not have. -/
theorem unbuffered_count_differs : ∃ s,
    snapCreate (fun _ => 1) (ascendingPair.req false true true) roomyEnv = some s ∧
      (s.materialize true fun _ => true).2 = true ∧
      (run Session.step (s.materialize true fun _ => true).1 [.count (unbufferedCmd 2)]).2 ≠
        (run SnapSession.step s [.count (unbufferedCmd 2)]).2 := by
  refine ⟨_, rfl, by decide +kernel, fun h => ?_⟩
  have hcount := congrArg (List.map Reply.counted) h
  revert hcount
  decide +kernel

end Ps5Debugger

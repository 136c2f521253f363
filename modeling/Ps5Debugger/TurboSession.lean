import Ps5Debugger.SnapshotRuns
import Ps5Debugger.ResidentStart

/-!
# The session of a connection

A connection has at most one resident session. `proc_turboscan_start_handle` makes one, a snapshot or
a list; COUNT narrows it down, GET shows it, END frees it. A START that the handler accepts is answered
with `snapshot_ok` or `resident_stored`, 0 or 1.

All its exits free the session before, but one: a snapshot request with a bad segment list, or with
values longer than 8 bytes, is answered with 0 and leaves the older session in place. Otherwise what
GET and COUNT show after a START is what they would show if there had been nothing before it
(`start_supersedes`).
-/

namespace Ps5Debugger

open Lib

/-! ## START -/

/-- What a START finds around it. -/
structure StartEnv (mem : Memory) where
  /-- the buffers of the pattern and of the mask, the read and the result buffer -/
  buffersOk : Bool
  /-- the segment list and what a scan that is no snapshot needs -/
  turbo : TurboEnv mem
  /-- both large buffers of a snapshot -/
  ioBufs : Bool
  snap : SnapEnv
  /-- a write of the snapshot failed, or `g_turboscan_snap_force_fail` is set -/
  fillFails : Bool

/-- A START: memory as it is while the command runs, the packet, and what the client sends after it. -/
structure TurboStart where
  mem : Memory
  sp : TurboStartPacket
  data : List Byte
  maskData : List Byte
  env : StartEnv mem

/-- What is sent back: `CMD_DATA_NULL`, one of the two summaries, or only the stream. -/
inductive StartReply where
  | dataNull
  | snapshot (ok : Bool)
  | resident (stored : Bool)
  | stream
deriving DecidableEq, Repr

/-- `snapshot_ok` or `resident_stored`, if there was one. -/
def StartReply.replied : StartReply → Option Bool
  | .snapshot ok => some ok
  | .resident stored => some stored
  | _ => none

namespace TurboStart

variable (c : TurboStart)

/-- `want_snapshot` -/
def wantSnapshot : Bool := hasFlag c.sp.flags TS_SNAPSHOT

/-- The prologue of `proc_turboscan_start_handle`: `none` is a rejected request. -/
def prepare : Option Pass :=
  match CmpType.ofByte c.sp.compareType with
  | none => none
  | some ct =>
    if c.sp.lenData = 0 ∧ c.wantSnapshot = false then none
    else
      let vt := ValType.ofByte c.sp.valueType
      let v := c.sp.valueLength
      if v = 0 then none
      else if chunkSizeFor v = 0 ∨ c.env.buffersOk = false then none
      else
        some
          { ct, vt
            valueLength := v
            step := stepFor c.sp.alignment v
            chunkSize := chunkSizeFor v
            pattern := if ct.needsValue ∧ c.sp.lenData ≠ 0 then some c.data else none
            mask := if vt = .arrBytes then some c.maskData else none
            prevForBetween := if ct = .valueBetween then some (c.data.drop v) else none }

/-- The segments of a snapshot; `none` is `seg_ok = 0`. -/
def segs : Option (List SnapSegment) :=
  if hasFlag c.sp.flags TS_SNAPSHOT_SEGMENTS then c.env.turbo.segs
  else some [⟨c.sp.address, c.sp.length⟩]

/-- `io_chunk`: `TS_SNAP_IO_CHUNK`, cut down to a multiple of the value length. -/
def ioChunkFor (valueLength : Nat) : Nat :=
  if 0x1000000 % valueLength ≠ 0 then 0x1000000 / valueLength * valueLength else 0x1000000

/-- The request of a snapshot. -/
def snapReq (p : Pass) (segs : List SnapSegment) : SnapReq where
  valueLength := p.valueLength
  step := p.step
  segs := segs
  includeZeros := hasFlag c.sp.flags TS_SNAPSHOT_INCLUDE_ZEROS
  keepFirst := hasFlag c.sp.flags TS_SNAPSHOT_KEEP_FIRST
  keepPrev := hasFlag c.sp.flags TS_SNAPSHOT_KEEP_PREVIOUS

/-- What `fs_snapshot_create` finds: the large buffers, or the read buffer and perhaps one to pack in. -/
def snapEnv (p : Pass) : SnapEnv :=
  { c.env.snap with
    chunkSize := if c.env.ioBufs then ioChunkFor p.valueLength else p.chunkSize
    packBuf := c.env.ioBufs || c.env.snap.packBuf }

/-- `fs_snapshot_create`; a snapshot without slots writes nothing. -/
def create (p : Pass) (segs : List SnapSegment) : Option SnapSession :=
  if c.env.fillFails ∧ slotTotal p.valueLength p.step 0 segs ≠ 0 then none
  else snapCreate c.mem (c.snapReq p segs) (c.snapEnv p)

/-- The resident half of the handler, as `turboStartReply` runs it. -/
def residentResult (p : Pass) : Option (Bool × List Stored × Buf) :=
  residentPass c.sp p (simdOk p c.env.turbo.simdOffAlloc)
    (if hasFlag c.sp.flags TS_USE_ALIASING then c.env.turbo.aliasCtx else none) c.env.turbo

/-- A snapshot that is answered with 0 before `fs_snapshot_create`. -/
def refused : Bool := c.wantSnapshot && (c.segs.isNone || decide (8 < c.sp.valueLength))

end TurboStart

/-- The exits of `proc_turboscan_start_handle`. -/
inductive StartBranch where
  /-- `CMD_DATA_NULL` -/
  | rejected
  /-- a scan that is neither a snapshot nor resident -/
  | stream
  /-- a snapshot with a bad segment list or with long values -/
  | refused
  /-- a snapshot of these segments -/
  | create (p : Pass) (segs : List SnapSegment)
  /-- a resident scan, with what its pass gave -/
  | resident (p : Pass) (stored : Bool) (recs : List Stored)

/-- The way a START takes through the handler. -/
def TurboStart.branch (c : TurboStart) : StartBranch :=
  match c.prepare with
  | none => .rejected
  | some p =>
    if c.wantSnapshot then
      match c.segs with
      | none => .refused
      | some segs => if p.valueLength > 8 then .refused else .create p segs
    else
      match c.residentResult p with
      | none => .stream
      | some (stored, recs, _) => .resident p stored recs

/-- `proc_turboscan_start_handle`: the session after it, and the answer. -/
def turboscanStart (sess : Option Session) (c : TurboStart) : Option Session × StartReply :=
  match c.branch with
  | .rejected => (sess, .dataNull)
  | .stream => (sess, .stream)
  | .refused => (sess, .snapshot false)
  | .create p segs =>
    match c.create p segs with
    | none => (none, .snapshot false)
    | some s => (some (.snapshot s), .snapshot true)
  | .resident p stored recs =>
    ((startSession p.valueLength (fun _ => 0) stored recs).map .list, .resident stored)

/-! ## The commands of a connection -/

inductive TurboCmd where
  | start (c : TurboStart)
  /-- a resident COUNT -/
  | count (c : CountCmd)
  | get (start count : Nat)
  /-- `CMD_PROC_TURBOSCAN_END` -/
  | finish
  /-- a command that does not touch the session: CONFIG, CAPS, a COUNT that is not resident or is
  rejected -/
  | other

inductive TurboReply where
  | start (r : StartReply)
  | count (n : Nat)
  | get (sends : List (List Byte))
  | other

def turboStep (sess : Option Session) : TurboCmd → Option Session × TurboReply
  | .start c => ((turboscanStart sess c).1, .start (turboscanStart sess c).2)
  | .count c =>
    match sess with
    | none => (none, .count 0)
    | some s => (some (residentCount c.env c.pass s).1, .count (residentCount c.env c.pass s).2)
  | .get start count =>
    match sess with
    | none => (none, .get [leBytes 4 0])
    | some s => (some s, .get (s.get start count))
  | .finish => (none, .other)
  | .other => (sess, .other)

/-! ## What a START leaves -/

variable {sess : Option Session} {c : TurboStart} {ok : Bool}

theorem prepare_valueLength {p : Pass} (h : c.prepare = some p) : p.valueLength = c.sp.valueLength := by
  rw [TurboStart.prepare] at h
  split at h
  · cases h
  split at h
  · cases h
  dsimp only at h
  split at h
  · cases h
  split at h
  · cases h
  · obtain rfl := Option.some.inj h
    rfl

/-- When a START takes the exit that leaves the session. -/
theorem branch_refused (c : TurboStart) :
    (c.branch = .refused → c.refused = true) ∧ (∀ p segs, c.branch = .create p segs → c.refused = false) ∧
      ∀ p stored recs, c.branch = .resident p stored recs → c.refused = false := by
  rw [TurboStart.branch, TurboStart.refused]
  cases hp : c.prepare with
  | none => simp
  | some p =>
    rw [← prepare_valueLength hp]
    cases c.wantSnapshot with
    | true =>
      cases c.segs with
      | none => simp
      | some segs =>
        by_cases hlong : p.valueLength > 8
        · simp [hlong]
        · simp [hlong]
    | false =>
      cases hres : c.residentResult p with
      | none => simp [hres]
      | some r => simp [hres]

/-- What a START can do to the session: nothing, without a summary; nothing, and a summary of 0; or put its
own outcome in the place of whatever was there. -/
theorem turboscanStart_cases (c : TurboStart) :
    (∃ r : StartReply, r.replied = none ∧ ∀ sess, turboscanStart sess c = (sess, r)) ∨
    (c.refused = true ∧ ∀ sess, turboscanStart sess c = (sess, .snapshot false)) ∨
    (c.refused = false ∧ ∃ (made : Option Session) (ok : Bool) (r : StartReply), r.replied = some ok ∧
      (ok = false → made = none) ∧ ∀ sess, turboscanStart sess c = (made, r)) := by
  obtain ⟨hrefused, hcreate, hresident⟩ := branch_refused c
  cases hb : c.branch with
  | rejected => exact .inl ⟨.dataNull, rfl, fun sess => by rw [turboscanStart, hb]⟩
  | stream => exact .inl ⟨.stream, rfl, fun sess => by rw [turboscanStart, hb]⟩
  | refused => exact .inr (.inl ⟨hrefused hb, fun sess => by rw [turboscanStart, hb]⟩)
  | create p segs =>
    refine .inr (.inr ⟨hcreate p segs hb, ?_⟩)
    cases hmade : c.create p segs with
    | none =>
      refine ⟨none, false, .snapshot false, rfl, fun _ => rfl, fun sess => ?_⟩
      rw [turboscanStart, hb]
      dsimp only
      rw [hmade]
    | some s =>
      refine ⟨some (.snapshot s), true, .snapshot true, rfl, fun h => ?_, fun sess => ?_⟩
      · cases h
      · rw [turboscanStart, hb]
        dsimp only
        rw [hmade]
  | resident p stored recs =>
    refine .inr (.inr ⟨hresident p stored recs hb,
      (startSession p.valueLength (fun _ => 0) stored recs).map .list, stored, .resident stored, rfl, fun h => ?_,
      fun sess => ?_⟩)
    · rw [h]
      rfl
    · rw [turboscanStart, hb]

/-- **One START.** If it was answered, it leaves what it would leave on a fresh connection, unless it was
a refused snapshot and there was a session. -/
theorem turboscanStart_supersedes (hreply : (turboscanStart sess c).2.replied = some ok)
    (h : sess = none ∨ c.refused = false) :
    (turboscanStart sess c).1 = (turboscanStart none c).1 ∧ (ok = false → (turboscanStart sess c).1 = none) := by
  obtain ⟨r, hr, heq⟩ | ⟨hrefused, heq⟩ | ⟨-, made, ok', r, hr, hnone, heq⟩ := turboscanStart_cases c
  · rw [heq, hr] at hreply
    cases hreply
  · rcases h with rfl | h
    · rw [heq]
      exact ⟨rfl, fun _ => rfl⟩
    · rw [hrefused] at h
      cases h
  · rw [heq, hr] at hreply
    obtain rfl := Option.some.inj hreply
    rw [heq, heq]
    exact ⟨rfl, hnone⟩

/-! ## What later commands see -/

/-- A reply that shows no survivors. -/
def TurboReply.SeesNone : TurboReply → Prop
  | .get sends => sends = [leBytes 4 0]
  | .count n => n = 0
  | _ => True

/-- No START among the commands is answered with a summary, whatever the session. -/
def NoNewStart (cmds : List TurboCmd) : Prop :=
  ∀ c, .start c ∈ cmds → ∀ sess, (turboscanStart sess c).2.replied = none

theorem turboscanStart_silent (h : (turboscanStart sess c).2.replied = none) :
    (turboscanStart sess c).1 = sess := by
  obtain ⟨r, -, heq⟩ | ⟨-, heq⟩ | ⟨-, made, ok, r, hr, -, heq⟩ := turboscanStart_cases c
  · rw [heq]
  · rw [heq]
  · rw [heq, hr] at h
    cases h

/-- Without a session there is nothing to see until the next START. -/
theorem run_none_seesNone : ∀ {cmds : List TurboCmd}, NoNewStart cmds →
    ∀ r ∈ (run turboStep none cmds).2, r.SeesNone
  | [], _, r, hr => by cases hr
  | cmd :: cmds, hno, r, hr => by
    have hrest : NoNewStart cmds := fun c hc => hno c (List.mem_cons_of_mem cmd hc)
    have hstep : (turboStep none cmd).1 = none ∧ (turboStep none cmd).2.SeesNone := by
      cases cmd with
      | start c => exact ⟨turboscanStart_silent (hno c List.mem_cons_self none), trivial⟩
      | count c => exact ⟨rfl, rfl⟩
      | get start count => exact ⟨rfl, rfl⟩
      | finish => exact ⟨rfl, trivial⟩
      | other => exact ⟨rfl, trivial⟩
    rw [run] at hr
    rcases List.mem_cons.mp hr with rfl | hr
    · exact hstep.2
    · rw [hstep.1] at hr
      exact run_none_seesNone hrest r hr

/-- **Every START supersedes the scan before it**, on every connection and whatever was sent before:
until the next START, GET and COUNT answer as on a fresh connection that began with this one, and show
nothing if it was answered with 0. The one condition: it is no refused snapshot, or there is no session. -/
theorem start_supersedes (earlier : List TurboCmd) (c : TurboStart) (later : List TurboCmd) (ok : Bool)
    (hreply : (turboscanStart (run turboStep none earlier).1 c).2.replied = some ok)
    (hcond : (run turboStep none earlier).1 = none ∨ c.refused = false) (hlater : NoNewStart later) :
    (run turboStep (turboscanStart (run turboStep none earlier).1 c).1 later).2 =
        (run turboStep (turboscanStart none c).1 later).2 ∧
      (ok = false → ∀ r ∈ (run turboStep (turboscanStart (run turboStep none earlier).1 c).1 later).2, r.SeesNone) := by
  obtain ⟨hsame, hnone⟩ := turboscanStart_supersedes hreply hcond
  refine ⟨by rw [hsame], fun hok => ?_⟩
  rw [hnone hok]
  exact run_none_seesNone hlater

/-- A snapshot request for a range of 4 bytes, all of them 7, when nothing fails. -/
def fourByteStart (valueType : UInt8) (lenData : UInt32) : TurboStart where
  mem := fun _ => 7
  sp := ⟨⟨0, 0x1000, 4, valueType, 0, 0, lenData⟩, TS_SNAPSHOT⟩
  data := []
  maskData := []
  env :=
    { buffersOk := true
      turbo := ⟨fun _ => 0, true, none, none, true, 0x10000000, true, true, fun _ => none, fun _ _ => 0⟩
      ioBufs := true
      snap := ⟨0, true, 0x20000000, true, true, true, true, true, true, fun _ => 0, fun _ => 0, fun _ => 0,
        fun _ => 0, fun _ => 0, fun _ => 0⟩
      fillFails := false }

/-- A second snapshot in the place of a first one. -/
theorem start_supersedes_twice :
    (run turboStep (turboscanStart (run turboStep none [.start (fourByteStart 4 4)]).1 (fourByteStart 4 4)).1
        [.get 0 1]).2 =
      (run turboStep (turboscanStart none (fourByteStart 4 4)).1 [.get 0 1]).2 := by
  refine (start_supersedes [.start (fourByteStart 4 4)] (fourByteStart 4 4) [.get 0 1] true (by decide)
    (.inr (by decide)) fun c hc => ?_).1
  cases hc with
  | tail _ h => cases h

/-- A snapshot of 16-byte values is answered with 0, and GET then shows the snapshot before it. -/
theorem wide_start_shows_stale :
    ¬ ∀ (earlier : List TurboCmd) (c : TurboStart) (later : List TurboCmd) (ok : Bool),
      (turboscanStart (run turboStep none earlier).1 c).2.replied = some ok → NoNewStart later →
        (run turboStep (turboscanStart (run turboStep none earlier).1 c).1 later).2 =
            (run turboStep (turboscanStart none c).1 later).2 ∧
          (ok = false →
            ∀ r ∈ (run turboStep (turboscanStart (run turboStep none earlier).1 c).1 later).2, r.SeesNone) := by
  intro h
  have hno : NoNewStart [.get 0 1] := by
    intro c hc
    cases hc with
    | tail _ h => cases h
  obtain ⟨-, hnone⟩ :=
    h [.start (fourByteStart 4 4)] (fourByteStart 10 16) [.get 0 1] false (by decide) hno
  have hempty := hnone rfl _ List.mem_cons_self
  exact absurd (congrArg List.head? hempty) (by decide)

end Ps5Debugger

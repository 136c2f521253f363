import Ps5Debugger.Debug

/-!
# What the debugger's operations can do

One lemma for each operation of `Debug`: the cases it can end in, with everything it leaves. The
invariants of a session are read off these cases and unfold no handler.
-/

namespace Ps5Debugger

open Lib

section Cases

variable {s : ServerState} {c : ClientId}

theorem deref_of_some (h : s.curdbgctx = some c) (k : ClientId → Dbgctx → Outcome) :
    deref s k = { k c (s.clients c).dbgctx with
      reads := some c :: (k c (s.clients c).dbgctx).reads } := by
  simp only [deref, h]

theorem deref_of_none (h : s.curdbgctx = none) (k : ClientId → Dbgctx → Outcome) :
    deref s k = { server := { s with crashed := true }, reads := [none] } := by
  simp only [deref, h]

/-- The commands that neither start nor end a session nor change its tables. -/
def DebugPacket.quiet : DebugPacket → Bool
  | .attach _ _ | .detach _ | .setBreakpoint _ | .setWatchpoint _ _ => false
  | _ => true

/-- The commands that dereference the session without asking whether there is one. -/
def DebugPacket.bare : DebugPacket → Bool
  | .suspendThread _ _ | .resumeThread _ _ | .continueTarget _ => true
  | _ => false

def DebugPacket.isAttach : DebugPacket → Bool
  | .attach _ _ => true
  | _ => false

/-- An outcome that changes nothing, unless the session was null. -/
def Outcome.Idle (o : Outcome) (s : ServerState) : Prop :=
  o.effects = [] ∧ (o.server = s ∨ s.curdbgctx = none ∧ o.server = { s with crashed := true })

theorem idle_deref {k : ClientId → Dbgctx → Outcome}
    (h : ∀ c ctx, (k c ctx).effects = [] ∧ (k c ctx).server = s) : (deref s k).Idle s := by
  cases hc : s.curdbgctx with
  | none =>
    rw [deref_of_none hc]
    exact ⟨rfl, .inr ⟨hc, rfl⟩⟩
  | some c =>
    rw [deref_of_some hc]
    exact ⟨(h c _).1, .inl (h c _).2⟩

theorem idle_queryHandle (q : QuerySpec) (s : ServerState) (body : Option SetregPacket) (ok : Bool) :
    (queryHandle q s body ok).Idle s := by
  unfold queryHandle
  split
  · exact ⟨rfl, .inl rfl⟩
  · refine idle_deref fun c ctx => ?_
    split
    · exact ⟨rfl, rfl⟩
    · split
      · exact ⟨rfl, rfl⟩
      · split <;> exact ⟨rfl, rfl⟩

theorem idle_bareHandle (s : ServerState) (hasBody ok : Bool) : (bareHandle s hasBody ok).Idle s := by
  refine idle_deref fun c ctx => ?_
  split
  · exact ⟨rfl, rfl⟩
  · split <;> exact ⟨rfl, rfl⟩

theorem idle_debugHandle {p : DebugPacket} (hp : p.quiet = true) (s : ServerState) :
    (debugHandle s p).Idle s := by
  cases p with
  | processStop data =>
    refine ⟨?_, .inl ?_⟩ <;> simp only [debugHandle, debugProcessStopHandle] <;> split <;>
      first | rfl | (split <;> first | rfl | (split <;> rfl))
  | attach data os => cases hp
  | detach os => cases hp
  | setBreakpoint data => cases hp
  | setWatchpoint data os => cases hp
  | suspendThread hasBody ok => exact idle_bareHandle s hasBody ok
  | resumeThread hasBody ok => exact idle_bareHandle s hasBody ok
  | continueTarget hasBody => exact idle_bareHandle s hasBody true
  | unknown => exact ⟨rfl, .inl rfl⟩
  | _ body ok => exact idle_queryHandle _ s body ok

/-- The descriptor `connect_debugger` leaves in the context. -/
def AttachOs.dbgfd (os : AttachOs) : Int := if 0 < os.sock ∧ os.connects = false then -1 else os.sock

theorem connectDebugger_eq (s : ServerState) (c : ClientId) (os : AttachOs) : connectDebugger s c os =
    ({ s with attached := true }.setCtx c { (s.clients c).dbgctx with dbgfd := os.dbgfd }, os.channel) := by
  unfold connectDebugger AttachOs.dbgfd AttachOs.channel
  by_cases hsock : os.sock ≤ 0
  · simp [hsock, not_lt.mpr hsock]
  · cases hcon : os.connects <;> simp [hsock, not_le.mp hsock]

theorem debugAttachHandle_untraced {os : AttachOs} (hatt : s.attached = false)
    (htr : os.traced = false) (pid : UInt32) :
    debugAttachHandle s (some pid) os = .answer s CMD_ERROR true := by
  unfold debugAttachHandle
  rw [hatt, if_neg Bool.false_ne_true]
  simp only [AttachOs.traced] at htr
  cases h₁ : os.elevAttach <;> cases h₂ : os.ptAttach <;> cases h₃ : os.elevContinue <;> simp_all

theorem debugAttachHandle_traced {os : AttachOs} (hatt : s.attached = false)
    (hctx : s.curdbgctx = some c) (htr : os.traced = true) (pid : UInt32) :
    debugAttachHandle s (some pid) os =
      let s' := { s with attached := true }.setCtx c { (s.clients c).dbgctx with dbgfd := os.dbgfd }
      if os.channel = false then { server := s', rc := true, replies := [CMD_ERROR], reads := [some c] }
      else { server := s'.enter c pid, replies := [CMD_SUCCESS], reads := [some c]
             effects := [.openEvents s.eventAddr] } := by
  obtain ⟨⟨⟨h₁, h₂⟩, h₃⟩, h₄⟩ : ((os.elevAttach = true ∧ os.ptAttach = true) ∧
      os.elevContinue = true) ∧ os.ptContinue = true := by
    simpa only [AttachOs.traced, Bool.and_eq_true] using htr
  simp only [debugAttachHandle, hatt, h₁, h₂, h₃, h₄, Bool.true_eq_false, Bool.false_eq_true, if_false,
    deref_of_some hctx, connectDebugger_eq]
  split <;> rfl

/-- A refused command: an error status, a non-zero return, nothing changed. -/
structure Outcome.Refused (o : Outcome) (s : ServerState) : Prop where
  server : o.server = s
  rc : o.rc = true
  effects : o.effects = []
  replies : o.replies ≠ [CMD_SUCCESS]

theorem refused_answer (s : ServerState) {code : UInt32} (h : code ≠ CMD_SUCCESS) :
    (Outcome.answer s code true).Refused s :=
  ⟨rfl, rfl, rfl, fun e => h (List.cons.inj e).1⟩

theorem refused_deref (hctx : s.curdbgctx = some c) {k : ClientId → Dbgctx → Outcome}
    (h : (k c (s.clients c).dbgctx).Refused s) : (deref s k).Refused s := by
  rw [deref_of_some hctx]
  exact ⟨h.server, h.rc, h.effects, h.replies⟩

/-- An ATTACH that finds the latch free: refused before the event channel, refused by the
channel with the latch already set, or through. -/
theorem debugAttachHandle_cases (hatt : s.attached = false) (hctx : s.curdbgctx = some c)
    (data : Option UInt32) (os : AttachOs) :
    let o := debugAttachHandle s data os
    let s' := { s with attached := true }.setCtx c { (s.clients c).dbgctx with dbgfd := os.dbgfd }
    (o.Refused s ∧ (data = none ∨ os.traced = false)) ∨
    (os.traced = true ∧ os.channel = false ∧ o.Refused s') ∨
    (∃ pid, data = some pid ∧ os.traced = true ∧ os.channel = true ∧ o.server = s'.enter c pid ∧
      o.rc = false ∧ o.effects = [.openEvents s.eventAddr] ∧ o.replies = [CMD_SUCCESS]) := by
  cases data with
  | none =>
    left
    rw [debugAttachHandle, hatt, if_neg Bool.false_ne_true]
    exact ⟨refused_answer s (by decide), .inl rfl⟩
  | some pid =>
    cases htr : os.traced with
    | false =>
      left
      rw [debugAttachHandle_untraced hatt htr]
      exact ⟨refused_answer s (by decide), .inr rfl⟩
    | true =>
      right
      rw [debugAttachHandle_traced hatt hctx htr]
      cases hch : os.channel with
      | false => exact .inl ⟨rfl, rfl, rfl, rfl, rfl, by simp; decide⟩
      | true => exact .inr ⟨pid, rfl, rfl, rfl, rfl, rfl, rfl, rfl⟩

theorem debugAttachHandle_attached (hatt : s.attached = true) (data : Option UInt32) (os : AttachOs) :
    debugAttachHandle s data os = .answer s CMD_ALREADY_DEBUG true := by
  unfold debugAttachHandle
  rw [if_pos hatt]

/-- A SET_BREAKPOINT that reaches the table. -/
theorem debugSetBreakpointHandle_applied (hatt : s.attached = true) (hctx : s.curdbgctx = some c)
    (hpid : (s.clients c).dbgctx.pid ≠ 0) {bp : BreakptPacket} (hi : bp.index.toNat < 30) :
    let ctx := (s.clients c).dbgctx
    let r := ctx.bps.setBreakpoint (s.mem ctx.pid) ⟨bp.index.toNat, hi⟩ bp
    debugSetBreakpointHandle s (some bp) =
      { server := (s.setCtx c { ctx with bps := r.1 }).writeAll ctx.pid r.2, replies := [CMD_SUCCESS]
        reads := [some c], effects := writeEffects (s.mem ctx.pid) ctx.pid r.2 } := by
  simp only [debugSetBreakpointHandle, hatt, Bool.true_eq_false, if_false, deref_of_some hctx,
    if_neg hpid, dif_pos hi]
  rfl

/-- A SET_BREAKPOINT is refused, or reaches the table. -/
theorem debugSetBreakpointHandle_cases (hctx : s.attached = true → s.curdbgctx = some c)
    (data : Option BreakptPacket) :
    (debugSetBreakpointHandle s data).Refused s ∨
    (∃ bp, data = some bp ∧ bp.index.toNat < 30 ∧ s.attached = true ∧
      (s.clients c).dbgctx.pid ≠ 0) := by
  unfold debugSetBreakpointHandle
  by_cases hatt : s.attached = true
  · rw [if_neg (by simp [hatt])]
    by_cases hpid : (s.clients c).dbgctx.pid = 0
    · exact .inl (refused_deref (hctx hatt) (by rw [if_pos hpid]; exact refused_answer s (by decide)))
    · cases data with
      | none =>
        exact .inl (refused_deref (hctx hatt) (by rw [if_neg hpid]; exact refused_answer s (by decide)))
      | some bp =>
        by_cases hi : bp.index.toNat < 30
        · exact .inr ⟨bp, rfl, hi, hatt, hpid⟩
        · refine .inl (refused_deref (hctx hatt) ?_)
          rw [if_neg hpid]
          simp only [dif_neg hi]
          exact refused_answer s (by decide)
  · rw [if_pos (by simpa using hatt)]
    exact .inl (refused_answer s (by decide))

/-- A SET_WATCHPOINT that reaches the block. -/
theorem debugSetWatchpointHandle_applied (hatt : s.attached = true) (hctx : s.curdbgctx = some c)
    (hpid : (s.clients c).dbgctx.pid ≠ 0) {wp : WatchptPacket} (hi : wp.index.toNat < 4)
    {os : WatchptOs} (helev : os.elev = true) {lwps : List (UInt32 × Bool)} (hl : os.lwps = some lwps) :
    let ctx := (s.clients c).dbgctx
    let dr := ctx.dr.setWatchpoint ⟨wp.index.toNat, hi⟩ wp
    debugSetWatchpointHandle s (some wp) os =
      { server := s.setCtx c { ctx with dr := dr }, rc := !lwps.all (·.2)
        replies := [if lwps.all (·.2) then CMD_SUCCESS else CMD_ERROR], reads := [some c]
        effects := (lwps.takeWhile (·.2)).map fun l => .loadDbregs ctx.pid l.1 dr } := by
  simp only [debugSetWatchpointHandle, hatt, helev, hl, Bool.true_eq_false, if_false,
    deref_of_some hctx, if_neg hpid, dif_pos hi]
  rfl

/-- A SET_WATCHPOINT is refused, or reaches the block. -/
theorem debugSetWatchpointHandle_cases (hctx : s.attached = true → s.curdbgctx = some c)
    (data : Option WatchptPacket) (os : WatchptOs) :
    (debugSetWatchpointHandle s data os).Refused s ∨
    (∃ wp lwps, data = some wp ∧ wp.index.toNat < 4 ∧ s.attached = true ∧
      (s.clients c).dbgctx.pid ≠ 0 ∧ os.elev = true ∧ os.lwps = some lwps) := by
  unfold debugSetWatchpointHandle
  by_cases hatt : s.attached = true
  · rw [if_neg (by simp [hatt])]
    by_cases hpid : (s.clients c).dbgctx.pid = 0
    · exact .inl (refused_deref (hctx hatt) (by rw [if_pos hpid]; exact refused_answer s (by decide)))
    · cases data with
      | none =>
        exact .inl (refused_deref (hctx hatt) (by rw [if_neg hpid]; exact refused_answer s (by decide)))
      | some wp =>
        by_cases hi : wp.index.toNat < 4
        · cases helev : os.elev with
          | false =>
            refine .inl (refused_deref (hctx hatt) ?_)
            simp only [if_neg hpid, dif_pos hi, if_true]
            exact refused_answer s (by decide)
          | true =>
            cases hl : os.lwps with
            | none =>
              refine .inl (refused_deref (hctx hatt) ?_)
              simp only [if_neg hpid, dif_pos hi, Bool.true_eq_false, if_false]
              exact refused_answer s (by decide)
            | some lwps => exact .inr ⟨wp, lwps, rfl, hi, hatt, hpid, rfl, rfl⟩
        · refine .inl (refused_deref (hctx hatt) ?_)
          rw [if_neg hpid]
          simp only [dif_neg hi]
          exact refused_answer s (by decide)
  · rw [if_pos (by simpa using hatt)]
    exact .inl (refused_answer s (by decide))

/-- The target was killed and the pump sees it. -/
def PumpOs.killed (os : PumpOs) : Bool := !os.dead && os.stop.any fun st => st.sig == 9

theorem matched_address {bps : BpTable} {x : UInt64} {i : Fin 30} (h : bps.matched x = some i) :
    (bps i).address ≠ 0 := by
  have := List.find?_some h
  simp only [decide_eq_true_eq] at this
  exact this.1

theorem dispatchTrap_cases (s : ServerState) (c : ClientId) (t : Trap) :
    let o := dispatchTrap s c t
    let ctx := (s.clients c).dbgctx
    o.reads = [] ∧ ((o.server = s ∧ o.effects = []) ∨
      ∃ i, (ctx.bps i).address ≠ 0 ∧ o.rc = false ∧
        o.server = s.writeAll ctx.pid (ctx.bps.hitWrites i) ∧
        o.effects = writeEffects (s.mem ctx.pid) ctx.pid (ctx.bps.hitWrites i)) := by
  unfold dispatchTrap
  simp only
  split
  · exact ⟨rfl, .inl ⟨rfl, rfl⟩⟩
  · split
    · exact ⟨rfl, .inl ⟨rfl, rfl⟩⟩
    · split
      · exact ⟨rfl, .inl ⟨rfl, rfl⟩⟩
      · rename_i i hi
        split
        · exact ⟨rfl, .inl ⟨rfl, rfl⟩⟩
        · exact ⟨rfl, .inr ⟨i, matched_address hi, rfl, rfl, rfl⟩⟩

/-- The event pump on a living target does nothing to the server, or steps over a breakpoint. -/
theorem dispatchDebugEvents_cases (hctx : s.curdbgctx = some c) {os : PumpOs}
    (hk : os.killed = false) :
    let o := dispatchDebugEvents s os
    let ctx := (s.clients c).dbgctx
    o.reads = [some c] ∧ ((o.server = s ∧ o.effects = []) ∨
      ∃ i, (ctx.bps i).address ≠ 0 ∧ o.rc = false ∧
        o.server = s.writeAll ctx.pid (ctx.bps.hitWrites i) ∧
        o.effects = writeEffects (s.mem ctx.pid) ctx.pid (ctx.bps.hitWrites i)) := by
  unfold dispatchDebugEvents
  rw [deref_of_some hctx]
  simp only
  cases hd : os.dead with
  | true => exact ⟨rfl, .inl ⟨rfl, rfl⟩⟩
  | false =>
    cases hst : os.stop with
    | none => exact ⟨rfl, .inl ⟨rfl, rfl⟩⟩
    | some st =>
      have h9 : st.sig ≠ 9 := by simpa [PumpOs.killed, hd, hst] using hk
      simp only [Bool.false_eq_true, if_false, if_neg h9]
      split
      · exact ⟨rfl, .inl ⟨rfl, rfl⟩⟩
      · split
        · exact ⟨rfl, .inl ⟨rfl, rfl⟩⟩
        · rename_i t _
          obtain ⟨hr, ho⟩ := dispatchTrap_cases s c t
          exact ⟨by rw [hr], ho⟩

/-- The event pump on a killed target. -/
theorem dispatchDebugEvents_killed (hctx : s.curdbgctx = some c) {os : PumpOs}
    (hk : os.killed = true) :
    let o := dispatchDebugEvents s os
    let t := debugFullTeardown s (some c) os.teardown
    o.rc = false ∧ o.effects = t.2 ∧ (o.server = t.1 ∨ o.server = { t.1 with crashed := true }) := by
  obtain ⟨hd, hst⟩ : os.dead = false ∧ (os.stop.any fun st => st.sig == 9) = true := by
    simpa [PumpOs.killed] using hk
  cases hst' : os.stop with
  | none => simp [hst'] at hst
  | some st =>
    have h9 : st.sig = 9 := by simpa [hst'] using hst
    unfold dispatchDebugEvents
    rw [deref_of_some hctx]
    simp only [hd, hst', h9, Bool.false_eq_true, if_false, if_true]
    rw [if_neg (by decide)]
    refine ⟨?_, rfl, ?_⟩
    · unfold deref
      split <;> rfl
    · unfold deref
      split
      · exact .inr rfl
      · exact .inl rfl

end Cases

end Ps5Debugger

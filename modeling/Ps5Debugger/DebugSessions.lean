import Ps5Debugger.DebugLedger

/-!
# Sessions that follow each other on one connection

The tables of a session live in the context of a connection. They are cleared when the connection
is accepted and when it ends; a DETACH and the next ATTACH leave them as they are. So a session
starts empty exactly as far as the sessions before it on that connection cleaned up after
themselves, and `sessions_do_not_leak` is about runs in which they did: every byte written and
every debug-register block loaded then comes from packets of the session it happens in.

`Phase` is what every step keeps, one lemma for each handler; `Phase.step` puts them together.
-/

namespace Ps5Debugger

open Lib

variable {s t : ServerState} {c : ClientId} {l : Ledger} {z : DebugSession}

/-! ## Steps -/

/-- Everything that is kept from step to step, after a handler. -/
structure Phase (o : Outcome) (l : Ledger) (z : DebugSession) : Prop where
  linked : Linked o.server
  books : Books o.server l
  session : SessionOk o.server z
  effects : ∀ e ∈ o.effects, z.explains e

theorem freeClient_debugging (hatt : s.attached = true) (hctx : s.curdbgctx = some c)
    (hc : (s.clients c).debugging = true) (os : TeardownOs) :
    (freeClient s c os).2 = (debugFullTeardown s s.curdbgctx os).2 := by
  simp only [freeClient, hc, if_true, debugFullTeardown, hctx, hatt, setClient_attached,
    setClient_self, setClient_mem, Bool.true_eq_false, if_false]
  split <;> rfl

theorem Phase.closing {o : Outcome} (h : Phase o l z) (c : ClientId) (os : TeardownOs) :
    Phase (o.closing c os) l z := by
  refine ⟨?_, h.books.of_tables (tables_closing o c os), ?_, ?_⟩
  · exact h.linked.step (closing_links h.linked (Frame.refl _) (e := .disconnect c os) rfl)
  · unfold Outcome.closing
    split
    · cases hc : (o.server.clients c).debugging with
      | true =>
        intro hatt
        rw [(frame_freeClient_debugging (h.linked.flag c hc).1 hc os).attached] at hatt
        cases hatt
      | false =>
        rw [freeClient_idle hc]
        exact h.session.setClient hc rfl rfl
    · exact h.session
  · unfold Outcome.closing
    split
    · intro e he
      rcases List.mem_append.mp he with he | he
      · exact h.effects e he
      · cases hc : (o.server.clients c).debugging with
        | true =>
          obtain ⟨hatt, hcli, _⟩ := h.linked.flag c hc
          rw [freeClient_debugging hatt (h.linked.same.trans hcli) hc] at he
          exact explains_teardown h.session os e he
        | false =>
          rw [freeClient_idle hc] at he
          cases he
    · exact h.effects

theorem Phase.idle (h : Phase { server := s } l z) {o : Outcome} (ho : o.Idle s) : Phase o l z := by
  refine ⟨h.linked.of_frame (frame_idle h.linked.isHeld ho), ?_, ?_, by rw [ho.1]; exact h.effects⟩
  · rcases ho.2 with hs | ⟨_, hs⟩
    · rw [hs]; exact h.books
    · rw [hs]; exact h.books.of_tables (tables_of_eq fun _ => ⟨rfl, rfl⟩)
  · rcases ho.2 with hs | ⟨_, hs⟩
    · rw [hs]; exact h.session
    · rw [hs]; exact h.session.of_same ⟨rfl, rfl, fun _ => ⟨rfl, rfl⟩, fun _ _ => rfl⟩

theorem Phase.refused (h : Phase { server := s } l z) {o : Outcome} (ho : o.Refused s) : Phase o l z :=
  h.idle ⟨ho.effects, .inl ho.server⟩

/-! A packet for breakpoint slot `i` of a table whose slots the session explains. -/

section Breakpoint

variable {bps : BpTable} {mem : TargetMem} (i : Fin 30) (bp : BreakptPacket)

theorem setBreakpoint_enabled (bps : BpTable) (mem : TargetMem) (j : Fin 30) :
    ((bps.setBreakpoint mem i bp).1 j).enabled =
      Function.update (fun j => (bps j).enabled) i (decide (bp.enabled ≠ 0)) j := by
  unfold BpTable.setBreakpoint
  split <;> rename_i hen <;> by_cases hj : j = i
  · subst hj
    simp [BpTable.arm, hen]
  · simp [BpTable.arm, hj]
  · subst hj
    simp [BpTable.disarm, hen]
  · simp [BpTable.disarm, hj]

theorem mem_arm_set {w : UInt64 × Byte} (h : w ∈ z.set) : w ∈ (z.arm mem bp).set := by
  unfold DebugSession.arm
  split
  · exact List.mem_append_left _ h
  · exact h

theorem mem_arm_new {b : Byte} (hen : bp.enabled ≠ 0) (hb : mem bp.address = some b) :
    (bp.address, b) ∈ (z.arm mem bp).set := by
  rw [DebugSession.arm, if_pos hen, hb]
  exact List.mem_append_right _ (List.mem_singleton.mpr rfl)

theorem setBreakpoint_slots
    (h : ∀ j, (bps j).enabled = true → (mem (bps j).address).isSome = true →
      ((bps j).address, (bps j).saved) ∈ z.set) (j : Fin 30)
    (hj : ((bps.setBreakpoint mem i bp).1 j).enabled = true)
    (hm : (mem ((bps.setBreakpoint mem i bp).1 j).address).isSome = true) :
    (((bps.setBreakpoint mem i bp).1 j).address, ((bps.setBreakpoint mem i bp).1 j).saved) ∈
      (z.arm mem bp).set := by
  by_cases hen : bp.enabled ≠ 0
  · simp only [BpTable.setBreakpoint, if_pos hen, BpTable.arm] at hj hm ⊢
    by_cases hji : j = i
    · subst hji
      simp only [Function.update_self] at hm ⊢
      obtain ⟨b, hb⟩ := Option.isSome_iff_exists.mp hm
      rw [peek, hb]
      exact mem_arm_new bp hen hb
    · simp only [Function.update_of_ne hji] at hj hm ⊢
      exact mem_arm_set bp (h j hj hm)
  · simp only [BpTable.setBreakpoint, if_neg hen, BpTable.disarm] at hj hm ⊢
    by_cases hji : j = i
    · subst hji
      rw [Function.update_self] at hj
      cases hj
    · simp only [Function.update_of_ne hji] at hj hm ⊢
      exact mem_arm_set bp (h j hj hm)

theorem setBreakpoint_writes
    (h : ∀ j, (bps j).enabled = true → (mem (bps j).address).isSome = true →
      ((bps j).address, (bps j).saved) ∈ z.set) {w : UInt64 × Byte}
    (hw : w ∈ (bps.setBreakpoint mem i bp).2) (hm : (mem w.1).isSome = true) :
    w ∈ (z.arm mem bp).set ∨ w.2 = INT3 ∧ ∃ b', (w.1, b') ∈ (z.arm mem bp).set := by
  unfold BpTable.setBreakpoint at hw
  split at hw
  · rename_i hen
    obtain rfl := List.mem_singleton.mp hw
    obtain ⟨b, hb⟩ := Option.isSome_iff_exists.mp hm
    exact .inr ⟨rfl, b, mem_arm_new bp hen hb⟩
  · simp only [BpTable.disarmWrites] at hw
    split at hw
    · rename_i hcond
      obtain rfl := List.mem_singleton.mp hw
      exact .inl (mem_arm_set bp (h i hcond.1 hm))
    · cases hw

end Breakpoint

/-- The session that a command reaches is not stranded. -/
theorem SessionOk.holds (h : SessionOk s z) {k : ClientId} (hk : s.acting = some k) : z.Holds s k := by
  obtain ⟨hatt, hctx, hpid⟩ := acting_eq_some.mp hk
  obtain ⟨k', hk', hz⟩ := h hatt
  obtain rfl := Option.some.inj (hctx.symm.trans hk')
  exact hz.resolve_right fun hs => hpid hs.target

theorem arm_pid (z : DebugSession) (mem : TargetMem) (bp : BreakptPacket) :
    (z.arm mem bp).pid = z.pid := by
  unfold DebugSession.arm
  split <;> rfl

theorem arm_block (z : DebugSession) (mem : TargetMem) (bp : BreakptPacket) :
    (z.arm mem bp).block = z.block := by
  unfold DebugSession.arm
  split <;> rfl

theorem Phase.setBreakpoint (h : Phase { server := s } l z) {k : ClientId} (hk : s.acting = some k)
    {bp : BreakptPacket} (hi : bp.index.toNat < 30) :
    Phase (debugSetBreakpointHandle s (some bp)) (l.setBp k ⟨_, hi⟩ bp)
      (z.arm (s.mem (s.clients k).dbgctx.pid) bp) := by
  obtain ⟨hatt, hctx, hpid⟩ := acting_eq_some.mp hk
  have hz := h.session.holds hk
  have hslots : ∀ j, ((s.clients k).dbgctx.bps j).enabled = true →
      (s.mem (s.clients k).dbgctx.pid ((s.clients k).dbgctx.bps j).address).isSome = true →
      (((s.clients k).dbgctx.bps j).address, ((s.clients k).dbgctx.bps j).saved) ∈ z.set := by
    rw [hz.target]
    exact hz.bps
  have hl := h.linked.of_frame (frame_debugSetBreakpointHandle h.linked.isHeld (some bp))
  have hap := debugSetBreakpointHandle_applied hatt hctx hpid hi
  refine ⟨hl, ⟨fun c hc j => ?_, fun c hc hsp => ?_⟩, ?_, ?_⟩
  · rw [hap] at hc ⊢
    simp only [writeAll_clients, setCtx_clients] at hc ⊢
    by_cases hck : c = k
    · subst hck
      rw [if_pos rfl, setBreakpoint_enabled]
      simp only [Ledger.setBp, Function.update_self]
      exact congrFun (congrArg (fun f => Function.update f _ _) (funext fun j => h.books.bp c hc j)) j
    · rw [if_neg hck]
      simp only [Ledger.setBp, Function.update_of_ne hck]
      exact h.books.bp c hc j
  · rw [hap] at hc ⊢
    simp only [writeAll_clients, setCtx_clients] at hc ⊢
    have hw := h.books.wp c hc hsp
    by_cases hck : c = k
    · subst hck
      rw [if_pos rfl]
      exact hw
    · rw [if_neg hck]
      exact hw
  · intro _
    rw [hap]
    refine ⟨k, hctx, .inl ⟨?_, ?_, fun j => ?_, ?_⟩⟩
    · simp only [writeAll_clients, setCtx_clients]
      exact hz.flag
    · simp only [writeAll_clients, setCtx_self, arm_pid]
      exact hz.target
    · simp only [writeAll_clients, setCtx_self, arm_pid, isSome_writeAll, setCtx_mem]
      rw [← hz.target]
      exact setBreakpoint_slots ⟨_, hi⟩ bp hslots j
    · simp only [writeAll_clients, setCtx_self, arm_block]
      exact hz.dr
  · rw [hap]
    intro e he
    obtain ⟨w, hw, hm, rfl⟩ := mem_writeEffects.mp he
    refine ⟨by rw [arm_pid]; exact hz.target, ?_⟩
    exact setBreakpoint_writes ⟨_, hi⟩ bp hslots hw hm

theorem block_append (z : DebugSession) (i : Fin 4) (wp : WatchptPacket) :
    DebugSession.block { z with wps := z.wps ++ [(i, wp)] } = z.block.setWatchpoint i wp := by
  simp only [DebugSession.block, List.foldl_append]
  rfl

theorem Phase.setWatchpoint (h : Phase { server := s } l z) {k : ClientId} (hk : s.acting = some k)
    {wp : WatchptPacket} (hi : wp.index.toNat < 4) {os : WatchptOs} (helev : os.elev = true)
    {lwps : List (UInt32 × Bool)} (hlw : os.lwps = some lwps) :
    Phase (debugSetWatchpointHandle s (some wp) os) (l.setWp k ⟨_, hi⟩ wp)
      { z with wps := z.wps ++ [(⟨_, hi⟩, wp)] } := by
  obtain ⟨hatt, hctx, hpid⟩ := acting_eq_some.mp hk
  have hz := h.session.holds hk
  have hl := h.linked.of_frame (frame_debugSetWatchpointHandle h.linked.isHeld (some wp) os)
  have hap := debugSetWatchpointHandle_applied hatt hctx hpid hi helev hlw
  refine ⟨hl, ⟨fun c hc j => ?_, fun c hc hsp => ?_⟩, ?_, ?_⟩
  · rw [hap] at hc ⊢
    simp only [setCtx_clients] at hc ⊢
    have hb := h.books.bp c hc j
    by_cases hck : c = k
    · subst hck
      rw [if_pos rfl]
      exact hb
    · rw [if_neg hck]
      exact hb
  · rw [hap] at hc ⊢
    simp only [setCtx_clients] at hc ⊢
    by_cases hck : c = k
    · subst hck
      simp only [Ledger.setWp, Function.update_self, Bool.or_eq_false_iff] at hsp ⊢
      refine (h.books.wp c hc hsp.1).set ⟨_, hi⟩ fun hen => ?_
      simpa [WatchptPacket.spills, hen] using hsp.2
    · simp only [Ledger.setWp, Function.update_of_ne hck, if_neg hck] at hsp ⊢
      exact h.books.wp c hc hsp
  · intro _
    rw [hap]
    refine ⟨k, hctx, .inl ⟨?_, ?_, ?_, ?_⟩⟩
    · simp only [setCtx_clients]
      exact hz.flag
    · simp only [setCtx_self]
      exact hz.target
    · simp only [setCtx_self, setCtx_mem]
      exact hz.bps
    · simp only [setCtx_self]
      rw [block_append, hz.dr]
  · rw [hap]
    intro e he
    obtain ⟨lwp, _, rfl⟩ := List.mem_map.mp he
    refine .inr ⟨hz.target, ?_⟩
    rw [block_append, hz.dr]

theorem Phase.detach (h : Phase { server := s } l z) (os : TeardownOs) :
    Phase (debugDetachHandle s os) l z := by
  have hl : Linked (debugDetachHandle s os).server :=
    h.linked.step (detach_links s os (e := .disconnect 0 os) rfl)
  refine ⟨hl, h.books.of_tables (tables_debugFullTeardown s _ os), ?_, explains_teardown h.session os⟩
  cases hatt : s.attached with
  | true =>
    intro ha
    rw [debugDetachHandle, (frame_debugFullTeardown hatt _ os).attached] at ha
    cases ha
  | false =>
    simp only [debugDetachHandle, debugFullTeardown_free hatt]
    exact h.session

theorem Phase.dispatch (h : Phase { server := s } l z) (hc : (s.clients c).debugging = true)
    (os : PumpOs) :
    Phase (dispatchDebugEvents s os) l z := by
  obtain ⟨hatt, hcli, _⟩ := h.linked.flag c hc
  have hctx := h.linked.same.trans hcli
  have hl : Linked (dispatchDebugEvents s os).server := by
    rcases frame_dispatchDebugEvents hctx os with hf | ⟨_, _, _, hf⟩
    · exact h.linked.of_frame hf
    · exact h.linked.release.of_frame hf
  cases hk : os.killed with
  | false =>
    obtain ⟨_, ⟨hs, he⟩ | ⟨i, hi, _, hs, he⟩⟩ := dispatchDebugEvents_cases hctx hk
    · exact h.idle ⟨he, .inl hs⟩
    · obtain ⟨k, hk', hz⟩ := h.session hatt
      obtain rfl := Option.some.inj (hctx.symm.trans hk')
      have hz := hz.resolve_right fun hs => by rw [hs.flag] at hc; cases hc
      refine ⟨hl, ?_, ?_, ?_⟩
      · rw [hs]
        exact h.books.of_tables (tables_of_eq fun _ => ⟨rfl, rfl⟩)
      · rw [hs]
        exact h.session.of_same (same_writeAll _ _ _)
      · rw [he]
        intro e he
        obtain ⟨w, hw, hm, rfl⟩ := mem_writeEffects.mp he
        rcases List.mem_cons.mp hw with rfl | hw
        · exact ⟨hz.target, .inl (hz.restores hi hm)⟩
        · obtain rfl := List.mem_singleton.mp hw
          exact ⟨hz.target, .inr ⟨rfl, _, hz.restores hi hm⟩⟩
  | true =>
    obtain ⟨_, he, hs⟩ := dispatchDebugEvents_killed hctx hk
    have htab := tables_debugFullTeardown s (some c) os.teardown
    refine ⟨hl, ?_, ?_, ?_⟩
    · rcases hs with hs | hs
      · rw [hs]; exact h.books.of_tables htab
      · rw [hs]; exact h.books.of_tables (htab.trans (tables_of_eq fun _ => ⟨rfl, rfl⟩))
    · intro ha
      have hfree := (frame_debugFullTeardown hatt (some c) os.teardown).attached
      rcases hs with hs | hs
      · rw [hs] at ha
        cases hfree.symm.trans ha
      · rw [hs] at ha
        cases hfree.symm.trans ha
    · rw [he, ← hctx]
      exact explains_teardown h.session os.teardown

/-- Nothing is switched on in a context. -/
def Dbgctx.Empty (ctx : Dbgctx) : Prop :=
  (∀ i, (ctx.bps i).enabled = false ∧ (ctx.bps i).address = 0) ∧ ctx.dr = .zero

theorem Books.empty (h : Books s l) (hc : (s.clients c).active = true) (hclean : l.Clean c) :
    (s.clients c).dbgctx.Empty := by
  obtain ⟨hbp, hwp, hsp⟩ := hclean
  refine ⟨fun i => ?_, (h.wp c hc hsp).empty hwp⟩
  have hoff := (h.bp c hc i).trans (hbp i)
  exact ⟨hoff, ((s.clients c).dbgctx.bps i).idle hoff⟩

/-- The session an ATTACH that goes through begins. -/
theorem Phase.attached (h : Phase { server := s } l z) (hatt : s.attached = false)
    (hact : (s.clients c).active = true) (hcr : s.crashed = false) (hclean : l.Clean c) (pid : UInt32)
    (fd : Int) (addr : UInt32) (rs : List UInt32) :
    Phase { server := s.attachedTo c pid fd, replies := rs, effects := [.openEvents addr] } l
      ⟨pid, [], []⟩ := by
  obtain ⟨hbps, hdr⟩ := h.books.empty hact hclean
  refine ⟨h.linked.attachedTo hact hatt hcr pid fd, h.books.of_tables fun d hd => ?_,
    fun _ => ⟨c, ?_, .inl ⟨?_, ?_, fun i hi => ?_, ?_⟩⟩, ?_⟩
  · by_cases hdc : d = c
    · subst hdc
      exact ⟨hact, by rw [ServerState.attachedTo, setClient_self],
        by rw [ServerState.attachedTo, setClient_self]⟩
    · rw [ServerState.attachedTo, attachLatch_free hatt, setClient_ne _ _ _ hdc] at hd ⊢
      exact ⟨hd, rfl, rfl⟩
  · rw [ServerState.attachedTo, attachLatch_free hatt]
    rfl
  · rw [ServerState.attachedTo, setClient_self]
  · rw [ServerState.attachedTo, setClient_self]
  · rw [ServerState.attachedTo, setClient_self] at hi
    cases (hbps i).1.symm.trans hi
  · rw [ServerState.attachedTo, setClient_self]
    exact hdr
  · intro e he
    obtain rfl := List.mem_singleton.mp he
    trivial

/-- An ATTACH whose event channel does not open: its sender is gone at once, the slot is clear,
and the latch stays set for it. -/
theorem Phase.stranded (h : Phase { server := s } l z) {o : Outcome} {ctx : Dbgctx}
    (hbps : ctx.bps = (s.clients c).dbgctx.bps) (hdr : ctx.dr = (s.clients c).dbgctx.dr)
    (hl : Linked o.server)
    (hs : o.server = ({ attachLatch s c with attached := true }.setCtx c ctx).setClient c .zero)
    (hctx : (attachLatch s c).curdbgctx = some c) (hcl : (attachLatch s c).clients = s.clients)
    (he : o.effects = []) : Phase o l z := by
  refine ⟨hl, h.books.of_tables ?_, ?_, by rw [he]; exact fun e he => nomatch he⟩
  · rw [hs]
    refine Tables.trans ?_ (tables_setClient rfl)
    intro d hd
    rw [setCtx_clients] at hd ⊢
    simp only [hcl] at hd ⊢
    by_cases hdc : d = c
    · subst hdc
      exact ⟨hd, by simpa using hbps, by simpa using hdr⟩
    · exact ⟨hd, by simp [hdc], by simp [hdc]⟩
  · rw [hs]
    refine fun _ => ⟨c, hctx, .inr ⟨?_, ?_, fun i => ?_⟩⟩
    · rw [setClient_self]; rfl
    · rw [setClient_self]; rfl
    · rw [setClient_self]; rfl

/-- The ATTACH packet of a connected client that finds the latch free. -/
theorem Phase.attach (h : Phase { server := s } l z) {data : Option UInt32} {os : AttachOs}
    {close : TeardownOs} (hlat : (Event.command c (.attach data os) close).latches s = true)
    (hclean : data ≠ none → os.traced = true → os.channel = true → l.Clean c) :
    Phase (serve s (.command c (.attach data os) close)) l
      (z.note s (.command c (.attach data os) close)) := by
  obtain ⟨hact, hatt, hcr⟩ := latches_attach.mp hlat
  have hl : attachLatch s c = { s with curdbgcli := some c, curdbgctx := some c } := attachLatch_free hatt c
  have hfree : (attachLatch s c).attached = false := by rw [hl]; exact hatt
  have hbase : Phase { server := attachLatch s c } l z :=
    ⟨h.linked.attachLatch c, h.books.of_tables (by rw [hl]; exact tables_of_eq fun _ => ⟨rfl, rfl⟩),
      fun ha => (by cases hfree.symm.trans ha), fun e he => nomatch he⟩
  have hnote : (Event.command c (.attach data os) close).attaches s = none →
      z.note s (.command c (.attach data os) close) = z := by
    intro hno
    simp only [DebugSession.note, hno]
    rfl
  have hlink := h.linked.step (serve_links h.linked (.command c (.attach data os) close))
  rw [serve_command hcr hact, latched_attach, debugHandle] at hlink ⊢
  rcases debugAttachHandle_cases (s := attachLatch s c) (c := c) hfree (by rw [hl]) data os with
    ⟨ho, hwhy⟩ | ⟨htr, hch, ho⟩ | ⟨pid, rfl, htr, hch, hs, hrc, heff, hrep⟩
  · have hno : (Event.command c (.attach data os) close).attaches s = none := by
      rw [attaches_attach hlat]
      rcases hwhy with rfl | hno
      · simp
      · simp [hno]
    rw [hnote hno]
    exact (hbase.refused ho).closing c close
  · have hno : (Event.command c (.attach data os) close).attaches s = none := by
      rw [attaches_attach hlat]
      simp [hch]
    have hdbg : ((attachLatch s c).clients c).debugging = false := hbase.linked.free hfree c
    obtain ⟨hs, he⟩ := closing_refused ho (c := c) (by rw [hl]; exact hcr)
      (by rw [setCtx_clients]; exact hdbg) close
    rw [hnote hno]
    exact h.stranded (by rw [hl]) (by rw [hl]) hlink hs (by rw [hl]) (by rw [hl]) he
  · have hyes : z.note s (.command c (.attach (some pid) os) close) = ⟨pid, [], []⟩ := by
      simp only [DebugSession.note, attaches_attach hlat, htr, hch, and_self, if_true]
    have hserver : (debugAttachHandle (attachLatch s c) (some pid) os).server =
        s.attachedTo c pid os.dbgfd := by
      rw [hs, enter_spec _ c _ pid (by rw [hl]), hl]
      rw [ServerState.attachedTo, hl]
    have hph := h.attached hatt hact hcr (hclean (Option.some_ne_none pid) htr hch) pid os.dbgfd
      (attachLatch s c).eventAddr [CMD_SUCCESS]
    rw [hyes, Outcome.closing, if_neg (by simp [hrc])]
    exact ⟨by rw [hserver]; exact hph.linked, by rw [hserver]; exact hph.books,
      by rw [hserver]; exact hph.session, by rw [heff]; exact hph.effects⟩

/-- What the observers do not see leaves them as they are. -/
theorem note_unseen {e : Event} (ha : e.attaches s = none) (hb : e.breakpoint s = none)
    (hw : e.watchpoint s = none) : l.note s e = l.fresh s ∧ z.note s e = z := by
  simp only [Ledger.note, DebugSession.note, ha, hb, hw]
  exact ⟨trivial, trivial⟩

theorem breakpoint_eq_some {bp : BreakptPacket} (close : TeardownOs) (hcr : s.crashed = false)
    (hact : (s.clients c).active = true) {k : ClientId} (hk : s.acting = some k)
    (hi : bp.index.toNat < 30) :
    (Event.command c (.setBreakpoint (some bp)) close).breakpoint s = some (k, ⟨_, hi⟩, bp) := by
  simp [Event.breakpoint, hcr, hact, hk, hi]

theorem breakpoint_eq_none {bp : BreakptPacket} {close : TeardownOs}
    (h : ∀ k, s.acting = some k → ¬ bp.index.toNat < 30) :
    (Event.command c (.setBreakpoint (some bp)) close).breakpoint s = none := by
  simp only [Event.breakpoint]
  split
  · cases hk : s.acting with
    | none => rfl
    | some k => simp [h k hk]
  · rfl

/-- A SET_BREAKPOINT packet, refused or not. -/
theorem Phase.breakpointPacket (h : Phase { server := s } (l.fresh s) z) (hcr : s.crashed = false)
    (hact : (s.clients c).active = true) (data : Option BreakptPacket) (close : TeardownOs) :
    Phase (debugSetBreakpointHandle s data) (l.note s (.command c (.setBreakpoint data) close))
      (z.note s (.command c (.setBreakpoint data) close)) := by
  by_cases hap : ∃ bp k, data = some bp ∧ s.acting = some k ∧ bp.index.toNat < 30
  · obtain ⟨bp, k, rfl, hk, hi⟩ := hap
    have hb := breakpoint_eq_some close hcr hact hk hi
    simp only [Ledger.note, DebugSession.note, hb]
    exact h.setBreakpoint hk hi
  · have hb : (Event.command c (.setBreakpoint data) close).breakpoint s = none := by
      cases data with
      | none => rfl
      | some bp => exact breakpoint_eq_none fun k hk hi => hap ⟨bp, k, rfl, hk, hi⟩
    obtain ⟨hl, hz⟩ := note_unseen (l := l) (z := z) (s := s)
      (e := .command c (.setBreakpoint data) close) rfl hb rfl
    rw [hl, hz]
    -- what reaches no table is refused, or the session is null
    cases hctx : s.curdbgctx with
    | none =>
      have hatt : s.attached = false := h.linked.isHeld.free hctx
      rcases debugSetBreakpointHandle_cases (s := s) (c := c) (fun e => absurd e (by simp [hatt])) data with
        hr | ⟨_, _, _, hatt', _⟩
      · exact h.refused hr
      · rw [hatt] at hatt'; cases hatt'
    | some k =>
      rcases debugSetBreakpointHandle_cases (fun _ => hctx) data with hr | ⟨bp, rfl, hi, hatt, hpid⟩
      · exact h.refused hr
      · exact absurd ⟨bp, k, rfl, acting_eq_some.mpr ⟨hatt, hctx, hpid⟩, hi⟩ hap

theorem watchpoint_eq_some {wp : WatchptPacket} {os : WatchptOs} (close : TeardownOs)
    (hcr : s.crashed = false) (hact : (s.clients c).active = true) {k : ClientId}
    (hk : s.acting = some k) (hi : wp.index.toNat < 4) (helev : os.elev = true)
    (hl : os.lwps.isSome = true) :
    (Event.command c (.setWatchpoint (some wp) os) close).watchpoint s = some (k, ⟨_, hi⟩, wp) := by
  simp [Event.watchpoint, hcr, hact, hk, hi, helev, hl]

theorem watchpoint_eq_none {wp : WatchptPacket} {os : WatchptOs} {close : TeardownOs}
    (h : ∀ k, s.acting = some k → os.elev = true → os.lwps.isSome = true → ¬ wp.index.toNat < 4) :
    (Event.command c (.setWatchpoint (some wp) os) close).watchpoint s = none := by
  simp only [Event.watchpoint]
  split
  · rename_i hcond
    cases hk : s.acting with
    | none => rfl
    | some k => simp [h k hk hcond.2.2.1 hcond.2.2.2]
  · rfl

/-- A SET_WATCHPOINT packet, refused or not. -/
theorem Phase.watchpointPacket (h : Phase { server := s } (l.fresh s) z) (hcr : s.crashed = false)
    (hact : (s.clients c).active = true) (data : Option WatchptPacket) (os : WatchptOs)
    (close : TeardownOs) :
    Phase (debugSetWatchpointHandle s data os) (l.note s (.command c (.setWatchpoint data os) close))
      (z.note s (.command c (.setWatchpoint data os) close)) := by
  by_cases hap : ∃ wp k, data = some wp ∧ s.acting = some k ∧ os.elev = true ∧ os.lwps.isSome = true ∧
      wp.index.toNat < 4
  · obtain ⟨wp, k, rfl, hk, helev, hl, hi⟩ := hap
    have hw := watchpoint_eq_some close hcr hact hk hi helev hl
    have hb : (Event.command c (.setWatchpoint (some wp) os) close).breakpoint s = none := rfl
    obtain ⟨lwps, hlw⟩ := Option.isSome_iff_exists.mp hl
    simp only [Ledger.note, DebugSession.note, hb, hw]
    exact h.setWatchpoint hk hi helev hlw
  · have hw : (Event.command c (.setWatchpoint data os) close).watchpoint s = none := by
      cases data with
      | none => rfl
      | some wp =>
        exact watchpoint_eq_none fun k hk helev hl hi => hap ⟨wp, k, rfl, hk, helev, hl, hi⟩
    obtain ⟨hl, hz⟩ := note_unseen (l := l) (z := z) (s := s)
      (e := .command c (.setWatchpoint data os) close) rfl rfl hw
    rw [hl, hz]
    cases hctx : s.curdbgctx with
    | none =>
      have hatt : s.attached = false := h.linked.isHeld.free hctx
      rcases debugSetWatchpointHandle_cases (s := s) (c := c) (fun e => absurd e (by simp [hatt])) data os
        with
        hr | ⟨_, _, _, _, hatt', _⟩
      · exact h.refused hr
      · rw [hatt] at hatt'; cases hatt'
    | some k =>
      rcases debugSetWatchpointHandle_cases (fun _ => hctx) data os with
        hr | ⟨wp, lwps, rfl, hi, hatt, hpid, helev, hlw⟩
      · exact h.refused hr
      · exact absurd ⟨wp, k, rfl, acting_eq_some.mpr ⟨hatt, hctx, hpid⟩, helev, by rw [hlw]; rfl, hi⟩ hap

/-! ## Runs -/

/-- The server and its observers. -/
structure Trace where
  server : ServerState
  ledger : Ledger
  session : DebugSession

def Trace.init (mem : UInt32 → TargetMem) : Trace :=
  ⟨ServerState.init mem, ⟨fun _ _ => false, fun _ _ => false, fun _ => false⟩, ⟨0, [], []⟩⟩

def Trace.step (w : Trace) (e : Event) : Trace :=
  ⟨(serve w.server e).server, w.ledger.note w.server e, w.session.note w.server e⟩

/-- The sender of an ATTACH packet with a body, and what the system will answer. -/
def Event.attachment : Event → Option (ClientId × AttachOs)
  | .command c (.attach (some _) os) _ => some (c, os)
  | _ => none

/-- An ATTACH that goes through comes from a connection whose earlier sessions have switched off
what they switched on. -/
def Event.tidy (w : Trace) (e : Event) : Prop :=
  ∀ a ∈ e.attachment, w.server.attached = false → (w.server.clients a.1).active = true →
    a.2.traced = true → a.2.channel = true → w.ledger.Clean a.1

instance (w : Trace) (e : Event) : Decidable (e.tidy w) :=
  inferInstanceAs (Decidable (∀ a ∈ e.attachment, w.server.attached = false →
    (w.server.clients a.1).active = true → a.2.traced = true → a.2.channel = true →
      w.ledger.Clean a.1))

/-- The packet of a connected client. -/
theorem Phase.command (h : Phase { server := s } (l.fresh s) z) (hcr : s.crashed = false)
    (hact : (s.clients c).active = true) (p : DebugPacket) (close : TeardownOs)
    (hclean : ∀ pid os, p = .attach (some pid) os → s.attached = false → os.traced = true →
      os.channel = true → (l.fresh s).Clean c) :
    Phase (serve s (.command c p close)) (l.note s (.command c p close))
      (z.note s (.command c p close)) := by
  have hserve := serve_command hcr hact p close
  cases hq : p.quiet with
  | true =>
    have hia : p.isAttach = false := by cases p <;> first | rfl | cases hq
    have hun : (Event.command c p close).attaches s = none ∧
        (Event.command c p close).breakpoint s = none ∧
        (Event.command c p close).watchpoint s = none := by
      cases p <;> first | exact ⟨rfl, rfl, rfl⟩ | cases hq
    obtain ⟨hl, hz⟩ := note_unseen (l := l) (z := z) hun.1 hun.2.1 hun.2.2
    rw [hl, hz, hserve, latched, if_neg (by simp [hia])]
    exact (h.idle (idle_debugHandle hq s)).closing c close
  | false =>
    cases p with
    | attach data os =>
      have hb : (Event.command c (.attach data os) close).breakpoint s = none := rfl
      have hw : (Event.command c (.attach data os) close).watchpoint s = none := rfl
      cases hatt : s.attached with
      | false =>
        have hnote : l.note s (.command c (.attach data os) close) = l.fresh s := by
          simp only [Ledger.note, hb, hw]
        rw [hnote]
        refine h.attach (latches_attach.mpr ⟨hact, hatt, hcr⟩) fun hdata htr hch => ?_
        obtain ⟨pid, rfl⟩ := Option.ne_none_iff_exists'.mp hdata
        exact hclean pid os rfl hatt htr hch
      | true =>
        obtain ⟨hl, hz⟩ := note_unseen (l := l) (z := z)
          (attaches_of_not_latches (by simp [Event.latches, hatt])) hb hw
        rw [hl, hz, hserve, latched_attach, attachLatch_held hatt, debugHandle,
          debugAttachHandle_attached hatt]
        exact (h.refused (refused_answer s (by decide))).closing c close
    | detach os =>
      obtain ⟨hl, hz⟩ := note_unseen (l := l) (z := z) (s := s) (e := .command c (.detach os) close)
        rfl rfl rfl
      rw [hl, hz, hserve]
      exact (h.detach os).closing c close
    | setBreakpoint data =>
      rw [hserve]
      exact (h.breakpointPacket hcr hact data close).closing c close
    | setWatchpoint data os =>
      rw [hserve]
      exact (h.watchpointPacket hcr hact data os close).closing c close
    | _ => cases hq

theorem Phase.accept (h : Phase { server := s } (l.fresh s) z) (addr : UInt32) :
    Phase { server := acceptClient s addr } (l.fresh s) z := by
  unfold acceptClient
  split
  · exact h
  · rename_i i hi
    have hinact : (s.clients i).active = false := by simpa using List.find?_some hi
    have hdbg : (s.clients i).debugging = false := by
      by_contra hne
      have := (h.linked.flag i (by simpa using hne)).2.2
      rw [hinact] at this
      cases this
    refine ⟨h.linked.setClient rfl, ⟨fun c hc j => ?_, fun c hc hsp => ?_⟩,
      h.session.setClient hdbg rfl rfl, fun e he => nomatch he⟩
    · by_cases hci : c = i
      · subst hci
        simp [Ledger.fresh, hinact, Dbgctx.zero, BpSlot.zero]
      · rw [setClient_ne _ _ _ hci] at hc ⊢
        exact h.books.bp c hc j
    · by_cases hci : c = i
      · subst hci
        simp only [setClient_self]
        exact covered_zero _
      · rw [setClient_ne _ _ _ hci] at hc ⊢
        exact h.books.wp c hc hsp

theorem Ledger.Clean.fresh (h : l.Clean c) (s : ServerState) : (l.fresh s).Clean c := by
  obtain ⟨hbp, hwp, hsp⟩ := h
  exact ⟨fun i => by simp [Ledger.fresh, hbp i], fun i => by simp [Ledger.fresh, hwp i],
    by simp [Ledger.fresh, hsp]⟩

/-- A packet that no handler sees reaches no table. -/
theorem note_ignored {e : Event} (h : s.crashed = true ∨ e.silent s = true) :
    l.note s e = l.fresh s ∧ z.note s e = z := by
  have hlost : ∀ {d : ClientId} {p : DebugPacket} {close : TeardownOs}, e = .command d p close →
      ¬ (s.crashed = false ∧ (s.clients d).active = true) := by
    rintro d p close rfl ⟨hcr, hact⟩
    rcases h with h | h
    · rw [hcr] at h; cases h
    · simp [Event.silent, hact] at h
  refine note_unseen (attaches_of_not_latches ?_) ?_ ?_
  · cases e with
    | command d p close =>
      by_contra hne
      obtain ⟨⟨⟨_, hact⟩, _⟩, hcr⟩ : ((p.isAttach = true ∧ (s.clients d).active = true) ∧
          s.attached = false) ∧ s.crashed = false := by
        simpa only [Event.latches, Bool.not_eq_false, Bool.and_eq_true, Bool.not_eq_true'] using hne
      exact hlost rfl ⟨hcr, hact⟩
    | _ => rfl
  · cases e with
    | command d p close =>
      cases p with
      | setBreakpoint data =>
        cases data with
        | none => rfl
        | some bp => exact if_neg (hlost rfl)
      | _ => rfl
    | _ => rfl
  · cases e with
    | command d p close =>
      cases p with
      | setWatchpoint data os =>
        cases data with
        | none => rfl
        | some wp => exact if_neg fun hc => hlost rfl ⟨hc.1, hc.2.1⟩
      | _ => rfl
    | _ => rfl

theorem Phase.step (h : Phase { server := s } l z) {e : Event} (hclean : e.tidy ⟨s, l, z⟩) :
    Phase (serve s e) (l.note s e) (z.note s e) := by
  have hf : Phase { server := s } (l.fresh s) z := ⟨h.linked, h.books.fresh, h.session, h.effects⟩
  cases hcr : s.crashed with
  | true =>
    obtain ⟨hl, hz⟩ := note_ignored (l := l) (z := z) (e := e) (.inl hcr)
    rw [hl, hz, serve_crashed hcr]
    exact hf
  | false =>
    cases hsil : e.silent s with
    | true =>
      obtain ⟨hl, hz⟩ := note_ignored (l := l) (z := z) (.inr hsil)
      rw [hl, hz, serve_silent hsil]
      exact hf
    | false =>
      cases e with
      | connect addr =>
        rw [serve_connect hcr]
        exact hf.accept addr
      | command c p close =>
        have hact : (s.clients c).active = true := by simpa [Event.silent] using hsil
        refine hf.command hcr hact p close fun pid os hp hatt htr hch => ?_
        subst hp
        exact (hclean _ rfl hatt hact htr hch).fresh s
      | pump c os close =>
        obtain ⟨hact, hdbg⟩ : (s.clients c).active = true ∧ (s.clients c).debugging = true := by
          simpa [Event.silent] using hsil
        rw [serve_pump hcr hact hdbg]
        exact (hf.dispatch hdbg os).closing c close
      | disconnect c close =>
        have hact : (s.clients c).active = true := by simpa [Event.silent] using hsil
        have hp : Phase { server := s, rc := true } (l.fresh s) z :=
          ⟨hf.linked, hf.books, hf.session, hf.effects⟩
        rw [serve_disconnect hcr hact]
        exact hp.closing c close

/-- What a step may do: an ATTACH that is answered with success starts from empty tables, and every
effect on a process is one of the session it belongs to. -/
def Trace.Separate (w : Trace) (e : Event) : Prop :=
  (∀ c data os close, e = .command c (.attach data os) close →
    (serve w.server e).replies = [CMD_SUCCESS] → ((serve w.server e).server.clients c).dbgctx.Empty) ∧
  ∀ f ∈ (serve w.server e).effects, (w.session.note w.server e).explains f

/-- An ATTACH answered with success found the latch free, and its process and channel answered. -/
theorem attach_success {data : Option UInt32} {os : AttachOs} {close : TeardownOs}
    (hrep : (serve s (.command c (.attach data os) close)).replies = [CMD_SUCCESS]) :
    (Event.command c (.attach data os) close).latches s = true ∧ data ≠ none ∧ os.traced = true ∧
      os.channel = true := by
  cases hlat : (Event.command c (.attach data os) close).latches s with
  | true => exact ⟨rfl, (attach_replies hlat).mp hrep⟩
  | false => exact absurd hrep (attach_refused hlat)

theorem serve_attach (h : Linked s) {pid : UInt32} {os : AttachOs} {close : TeardownOs}
    (hlat : (Event.command c (.attach (some pid) os) close).latches s = true)
    (htr : os.traced = true) (hch : os.channel = true) :
    (serve s (.command c (.attach (some pid) os) close)).server = s.attachedTo c pid os.dbgfd := by
  have hs := serve_links h (.command c (.attach (some pid) os) close)
  generalize (serve s (.command c (.attach (some pid) os) close)).server = t at hs
  have hclash : ¬ (Event.command c (.attach (some pid) os) close).latches s = false := by simp [hlat]
  cases hs with
  | stay hl _ => exact absurd hl hclash
  | close hl _ _ => exact absurd hl hclash
  | finish hl _ _ => exact absurd hl hclash
  | leave hl _ _ _ => exact absurd hl hclash
  | refuse _ hwhy _ =>
    rcases hwhy with hno | hno
    · cases hno
    · rw [htr] at hno; cases hno
  | strand _ _ hno _ => rw [hch] at hno; cases hno
  | attach _ _ _ => rfl

/-- **Sessions do not leak into each other** in a run from start-up whose ATTACHes that go through
come from connections that have disabled every breakpoint and watchpoint they enabled: each new
session starts empty, and every byte written and every debug-register block loaded comes from the
packets of the session it belongs to. -/
theorem sessions_do_not_leak (mem : UInt32 → TargetMem) (evs : List Event)
    (hok : Along Trace.step (fun w e => e.tidy w) (Trace.init mem) evs) :
    Along Trace.step Trace.Separate (Trace.init mem) evs := by
  refine Along.of_invariant (fun w => Phase { server := w.server } w.ledger w.session) ?_ evs ?_ hok
  · rintro ⟨s, l, z⟩ e h he
    have hstep := h.step he
    refine ⟨⟨hstep.linked, hstep.books, hstep.session, fun f hf => by cases hf⟩, ?_, hstep.effects⟩
    rintro c data os close rfl hrep
    obtain ⟨hlat, hdata, htr, hch⟩ := attach_success hrep
    obtain ⟨pid, rfl⟩ := Option.ne_none_iff_exists'.mp hdata
    obtain ⟨hact, hatt, _⟩ := latches_attach.mp hlat
    obtain ⟨hbps, hdr⟩ := h.books.empty hact (he _ rfl hatt hact htr hch)
    rw [serve_attach h.linked hlat htr hch, ServerState.attachedTo, setClient_self]
    exact ⟨hbps, hdr⟩
  · exact ⟨linked_init mem, ⟨fun c hc => absurd hc Bool.false_ne_true, fun c hc => absurd hc Bool.false_ne_true⟩,
      fun hatt => absurd hatt Bool.false_ne_true, fun f hf => by cases hf⟩

/-- A process of `nop`s. -/
def nops : UInt32 → TargetMem := fun _ _ => some 0x90

/-- One breakpoint, set and disabled, and the next session of the same connection. -/
theorem sessions_do_not_leak_reattach :
    let evs := [.connect 1, .command 0 (.attach (some 7) attachOk) quietTarget,
      .command 0 (.setBreakpoint (some ⟨0, 1, 0x1000⟩)) quietTarget,
      .command 0 (.setBreakpoint (some ⟨0, 0, 0x1000⟩)) quietTarget,
      .command 0 (.detach quietTarget) quietTarget,
      .command 0 (.attach (some 9) attachOk) quietTarget]
    Along Trace.step (fun w e => e.tidy w) (Trace.init nops) evs ∧
      Along Trace.step Trace.Separate (Trace.init nops) evs := by
  have hok : Along Trace.step (fun w e => e.tidy w) (Trace.init nops)
      [.connect 1, .command 0 (.attach (some 7) attachOk) quietTarget,
        .command 0 (.setBreakpoint (some ⟨0, 1, 0x1000⟩)) quietTarget,
        .command 0 (.setBreakpoint (some ⟨0, 0, 0x1000⟩)) quietTarget,
        .command 0 (.detach quietTarget) quietTarget,
        .command 0 (.attach (some 9) attachOk) quietTarget] := by decide
  exact ⟨hok, sessions_do_not_leak nops _ hok⟩

/-- The same without disabling the breakpoint: the ATTACH to 9 inherits it, and the DETACH after it
writes the byte saved from 7 into 9. -/
theorem attach_inherits_breakpoint :
    let evs := [.connect 1, .command 0 (.attach (some 7) attachOk) quietTarget,
      .command 0 (.setBreakpoint (some ⟨0, 1, 0x1000⟩)) quietTarget,
      .command 0 (.detach quietTarget) quietTarget]
    let w := evs.foldl Trace.step (Trace.init nops)
    let o := serve w.server (.command 0 (.attach (some 9) attachOk) quietTarget)
    o.replies = [CMD_SUCCESS] ∧ ((o.server.clients 0).dbgctx.bps 0).enabled = true ∧
      (debugDetachHandle o.server quietTarget).effects = [.write 9 0x1000 0x90] ∧
      ¬ w.Separate (.command 0 (.attach (some 9) attachOk) quietTarget) ∧
      ¬ Along Trace.step Trace.Separate (Trace.init nops)
        (evs ++ [.command 0 (.attach (some 9) attachOk) quietTarget]) := by
  refine ⟨by decide, by decide, rfl, ?_, ?_⟩
  · rintro ⟨hempty, _⟩
    have hbp := (hempty 0 _ _ _ rfl (by decide)).1 0
    exact absurd hbp.1 (by decide)
  · rintro ⟨_, _, _, _, ⟨hempty, _⟩, _⟩
    have hbp := (hempty 0 _ _ _ rfl (by decide)).1 0
    exact absurd hbp.1 (by decide)

end Ps5Debugger

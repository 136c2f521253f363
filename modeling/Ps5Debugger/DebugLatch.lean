import Ps5Debugger.DebugServer

/-!
# The attach latch and the session pointer

Two properties of every run of the debug server, with the steps that break them.

The latch `g_debug_attached` should be set exactly while its holder is debugging. It is, as long
as no ATTACH fails at its event channel (`attach_latch_consistent`): `connect_debugger` sets the
latch before it opens the socket and no failure path clears it (`latch_stays_set`).

The pointer `curdbgctx` should not be dereferenced while it is null. Most handlers ask for the
latch first; SUSPEND, RESUME and CONTINUE do not, and the event pump reads the pid of a context it
has just torn down (`session_never_null`, `suspend_reads_null`).
-/

namespace Ps5Debugger

open Lib

variable {s : ServerState} {c : ClientId}

/-! ## The latch and who holds it -/

/-- The server with the pid of the last ATTACH that was answered with success. -/
structure Attachment where
  server : ServerState
  pid : UInt32

/-- The pid of an ATTACH that is answered with success. -/
def Event.attaches (s : ServerState) (e : Event) : Option UInt32 :=
  match e with
  | .command _ (.attach data _) _ => if (serve s e).replies = [CMD_SUCCESS] then data else none
  | _ => none

def Attachment.step (w : Attachment) (e : Event) : Attachment :=
  ⟨(serve w.server e).server, (e.attaches w.server).getD w.pid⟩

/-- The event channel of an ATTACH opens, whenever the ATTACH gets so far. -/
def Event.opens (s : ServerState) : Event → Bool
  | .command _ (.attach _ os) _ => s.attached || !os.traced || os.channel
  | _ => true

theorem channel_of_opens {data : Option UInt32} {os : AttachOs} {close : TeardownOs}
    (hop : (Event.command c (.attach data os) close).opens s = true) (hatt : s.attached = false)
    (htr : os.traced = true) : os.channel = true := by
  simpa [Event.opens, hatt, htr] using hop

/-- `g_debug_attached` is 1 exactly when `curdbgcli` is a connected client that is debugging and
whose context holds the attached pid. -/
def Attachment.Consistent (w : Attachment) : Prop :=
  w.server.attached = true ↔ ∃ c, w.server.curdbgcli = some c ∧ (w.server.clients c).active = true ∧
    (w.server.clients c).debugging = true ∧ (w.server.clients c).dbgctx.pid = w.pid

/-- What makes a state consistent, one direction of it: the latch is held by a client that is
debugging. The other direction is in `Linked`. -/
def Attachment.Owned (w : Attachment) : Prop :=
  w.server.attached = true → ∃ c, w.server.curdbgcli = some c ∧
    (w.server.clients c).debugging = true ∧ (w.server.clients c).dbgctx.pid = w.pid

theorem Attachment.consistent {w : Attachment} (h : Linked w.server) (ho : w.Owned) : w.Consistent := by
  constructor
  · intro hatt
    obtain ⟨c, hcli, hdbg, hpid⟩ := ho hatt
    exact ⟨c, hcli, (h.flag c hdbg).2.2, hdbg, hpid⟩
  · rintro ⟨c, _, _, hdbg, _⟩
    exact (h.flag c hdbg).1

@[simp] theorem closing_replies (o : Outcome) (c : ClientId) (os : TeardownOs) :
    (o.closing c os).replies = o.replies := by
  unfold Outcome.closing
  split <;> rfl

@[simp] theorem closing_reads (o : Outcome) (c : ClientId) (os : TeardownOs) :
    (o.closing c os).reads = o.reads := by
  unfold Outcome.closing
  split <;> rfl

/-- An ATTACH that finds the latch free is answered with success exactly when every system call
goes through. -/
theorem attach_replies {data : Option UInt32} {os : AttachOs} {close : TeardownOs}
    (hlat : (Event.command c (.attach data os) close).latches s = true) :
    (serve s (.command c (.attach data os) close)).replies = [CMD_SUCCESS] ↔
      data ≠ none ∧ os.traced = true ∧ os.channel = true := by
  obtain ⟨hact, hatt, hcr⟩ := latches_attach.mp hlat
  rw [serve_command hcr hact, closing_replies, latched_attach, debugHandle]
  rcases debugAttachHandle_cases (s := attachLatch s c) (c := c)
    (by rw [attachLatch_free hatt]; exact hatt) (by rw [attachLatch_free hatt]) data os with
    ⟨ho, hwhy⟩ | ⟨_, hch, ho⟩ | ⟨pid, hdata, htr, hch, _, _, _, hrep⟩
  · refine iff_of_false ho.replies ?_
    rintro ⟨hdata, htr, _⟩
    rcases hwhy with hnone | hno
    · exact hdata hnone
    · rw [hno] at htr; cases htr
  · refine iff_of_false ho.replies ?_
    rintro ⟨_, _, hch'⟩
    rw [hch] at hch'; cases hch'
  · exact iff_of_true hrep ⟨by rw [hdata]; exact Option.some_ne_none pid, htr, hch⟩

/-- Nobody attaches without taking the pointers first. -/
theorem attach_refused {data : Option UInt32} {os : AttachOs} {close : TeardownOs}
    (hl : (Event.command c (.attach data os) close).latches s = false) :
    (serve s (.command c (.attach data os) close)).replies ≠ [CMD_SUCCESS] := by
  intro hrep
  cases hcr : s.crashed with
  | true => rw [serve_crashed hcr] at hrep; cases hrep
  | false =>
    cases hact : (s.clients c).active with
    | false => rw [serve_silent (by simp [Event.silent, hact])] at hrep; cases hrep
    | true =>
      have hatt : s.attached = true := by
        simpa [Event.latches, DebugPacket.isAttach, hact, hcr] using hl
      rw [serve_command hcr hact, closing_replies, latched_attach, attachLatch_held hatt,
        debugHandle, debugAttachHandle_attached hatt] at hrep
      exact absurd hrep (by simp [Outcome.answer]; decide)

theorem attaches_of_not_latches {e : Event} (hl : e.latches s = false) : e.attaches s = none := by
  unfold Event.attaches
  split
  · exact if_neg (attach_refused hl)
  · rfl

theorem attaches_attach {data : Option UInt32} {os : AttachOs} {close : TeardownOs}
    (hlat : (Event.command c (.attach data os) close).latches s = true) :
    (Event.command c (.attach data os) close).attaches s =
      if os.traced = true ∧ os.channel = true then data else none := by
  simp only [Event.attaches, attach_replies hlat]
  cases data with
  | none => simp
  | some pid => simp

theorem Attachment.Owned.step {w : Attachment} (h : Linked w.server) (ho : w.Owned) {e : Event}
    (hop : e.opens w.server = true) : (w.step e).Owned := by
  -- a client whose flag is up keeps flag and pid unless its session ends
  have keep : ∀ {t : ServerState}, Frame w.server t → Attachment.Owned ⟨t, w.pid⟩ := by
    intro t hf hatt
    obtain ⟨c, hcli, hdbg, hpid⟩ := ho (hf.attached.symm.trans hatt)
    exact ⟨c, hf.cli.trans hcli, (hf.debugging c).trans hdbg, (hf.pid c).trans hpid⟩
  have hs := serve_links h e
  unfold Attachment.step
  generalize (serve w.server e).server = t at hs
  cases hs with
  | stay hl hf => rw [attaches_of_not_latches hl]; exact keep hf
  | @accept addr i hi =>
    intro hatt
    obtain ⟨c, hcli, hdbg, hpid⟩ := ho hatt
    have hci : c ≠ i := by
      rintro rfl
      rw [(h.flag c hdbg).2.2] at hi
      cases hi
    exact ⟨c, hcli, by rw [setClient_ne _ _ _ hci]; exact hdbg, by rw [setClient_ne _ _ _ hci]; exact hpid⟩
  | @close e t d hl hd hf =>
    rw [attaches_of_not_latches hl]
    intro hatt
    obtain ⟨c, hcli, hdbg, hpid⟩ := ho (hf.attached.symm.trans hatt)
    have hcd : c ≠ d := by
      rintro rfl
      rw [hdbg] at hd
      cases hd
    refine ⟨c, hf.cli.trans hcli, ?_, ?_⟩
    · rw [hf.debugging, setClient_ne _ _ _ hcd]; exact hdbg
    · rw [hf.pid, setClient_ne _ _ _ hcd]; exact hpid
  | finish _ _ hf => intro hatt; cases hf.attached.symm.trans hatt
  | leave _ _ _ hf => intro hatt; cases hf.attached.symm.trans hatt
  | @refuse c _ _ _ _ hlat _ hf =>
    obtain ⟨_, hfree, _⟩ := latches_attach.mp hlat
    intro hatt
    have := hf.attached.symm.trans hatt
    rw [attachLatch_free hfree, setClient_attached] at this
    rw [hfree] at this
    cases this
  | @strand c _ os _ _ hlat htr hch hf =>
    have := channel_of_opens hop (latches_attach.mp hlat).2.1 htr
    rw [hch] at this
    cases this
  | @attach c pid os _ hlat htr hch =>
    intro _
    rw [attaches_attach hlat, if_pos ⟨htr, hch⟩]
    refine ⟨c, ?_, ?_, ?_⟩
    · rw [ServerState.attachedTo, attachLatch_free (latches_attach.mp hlat).2.1]; rfl
    · rw [ServerState.attachedTo, setClient_self]
    · rw [ServerState.attachedTo, setClient_self]; rfl

/-- An ATTACH that is answered with an error leaves a free latch free. -/
theorem attach_error_free (h : Linked s) {data : Option UInt32} {os : AttachOs} {close : TeardownOs}
    (hop : (Event.command c (.attach data os) close).opens s = true) (hatt : s.attached = false)
    (hrep : (serve s (.command c (.attach data os) close)).replies ≠ [CMD_SUCCESS]) :
    (serve s (.command c (.attach data os) close)).server.attached = false := by
  have hs := serve_links h (.command c (.attach data os) close)
  generalize (serve s (.command c (.attach data os) close)).server = t at hs
  cases hs with
  | stay _ hf => exact hf.attached.trans hatt
  | close _ _ hf => exact hf.attached.trans hatt
  | finish _ hatt' _ => rw [hatt] at hatt'; cases hatt'
  | leave _ hatt' _ _ => rw [hatt] at hatt'; cases hatt'
  | refuse _ _ hf =>
    rw [hf.attached, setClient_attached, attachLatch_free hatt]
    exact hatt
  | strand _ htr hch _ => rw [channel_of_opens hop hatt htr] at hch; cases hch
  | attach hlat htr hch =>
    exact absurd ((attach_replies hlat).mpr ⟨Option.some_ne_none _, htr, hch⟩) hrep

theorem freeClient_crashed (s : ServerState) (c : ClientId) (os : TeardownOs) :
    (freeClient s c os).1.crashed = s.crashed := by
  simp only [freeClient, debugFullTeardown, setClient_crashed]
  split
  · split
    · rfl
    · split <;> simp
  · rfl

/-- Once the debugging client is gone, whoever is connected can attach. -/
theorem attach_after_disconnect (h : Linked s) {d : ClientId} (hdbg : (s.clients c).debugging = true)
    (hdc : d ≠ c) (hact : (s.clients d).active = true) (close : TeardownOs) (pid : UInt32)
    {os : AttachOs} (htr : os.traced = true) (hch : os.channel = true) (close' : TeardownOs) :
    (serve (serve s (.disconnect c close)).server (.command d (.attach (some pid) os) close')).replies =
      [CMD_SUCCESS] := by
  obtain ⟨hatt, _, hactc⟩ := h.flag c hdbg
  have hcr : s.crashed = false := by
    by_contra hne
    rw [h.down (by simpa using hne)] at hatt
    cases hatt
  have ht : (serve s (.disconnect c close)).server = (freeClient s c close).1 := by
    rw [serve_disconnect hcr hactc, Outcome.closing, if_pos ⟨rfl, hcr⟩]
  have hf := frame_freeClient_debugging hatt hdbg close
  refine (attach_replies (latches_attach.mpr ⟨?_, ?_, ?_⟩)).mpr ⟨Option.some_ne_none pid, htr, hch⟩
  · rw [ht, hf.active, setClient_ne _ _ _ hdc, release_clients]
    exact hact
  · rw [ht]
    exact hf.attached
  · rw [ht, freeClient_crashed]
    exact hcr

/-- **The attach latch** as long as every ATTACH that gets to the event channel opens it: in every
state it is set exactly while its holder is debugging the attached pid, an ATTACH that is answered
with an error leaves a free latch free, and when the debugging client is gone others can attach. -/
theorem attach_latch_consistent (mem : UInt32 → TargetMem) (evs : List Event)
    (hok : Along Attachment.step (fun w e => e.opens w.server = true) ⟨ServerState.init mem, 0⟩ evs) :
    let w := evs.foldl Attachment.step ⟨ServerState.init mem, 0⟩
    w.Consistent ∧
    (∀ c data os close, (Event.command c (.attach data os) close).opens w.server = true →
      w.server.attached = false →
      (serve w.server (.command c (.attach data os) close)).replies ≠ [CMD_SUCCESS] →
      (serve w.server (.command c (.attach data os) close)).server.attached = false) ∧
    (∀ c d close, (w.server.clients c).debugging = true → d ≠ c → (w.server.clients d).active = true →
      ∀ pid (os : AttachOs) close', os.traced = true → os.channel = true →
        (serve (serve w.server (.disconnect c close)).server
          (.command d (.attach (some pid) os) close')).replies = [CMD_SUCCESS]) := by
  obtain ⟨hlink, howned⟩ := Along.keeps (fun w => Linked w.server ∧ w.Owned)
    (fun w e hw hop => ⟨hw.1.step (serve_links hw.1 e), hw.2.step hw.1 hop⟩) evs
    ⟨linked_init mem, fun e => nomatch e⟩ hok
  refine ⟨Attachment.consistent hlink howned, ?_, ?_⟩
  · intro c data os close hop hatt hrep
    exact attach_error_free hlink hop hatt hrep
  · intro c d close hdbg hdc hact pid os close' htr hch
    exact attach_after_disconnect hlink hdbg hdc hact close pid htr hch close'

/-- System calls that all go through, and an event channel that nobody answers. -/
def attachOk : AttachOs := ⟨true, true, true, true, 5, true⟩
def attachNoChannel : AttachOs := ⟨true, true, true, true, 5, false⟩

/-- A target that is alive with no watchpoint set. -/
def quietTarget : TeardownOs := ⟨true, []⟩

theorem attach_latch_consistent_reattach :
    let evs := [.connect 1, .connect 2, .command 0 (.attach (some 7) attachOk) quietTarget,
      .command 1 (.attach (some 7) attachOk) quietTarget, .disconnect 0 quietTarget, .connect 3,
      .command 0 (.attach (some 9) attachOk) quietTarget]
    Along Attachment.step (fun w e => e.opens w.server = true) ⟨ServerState.init fun _ _ => none, 0⟩ evs ∧
      (evs.foldl Attachment.step ⟨ServerState.init fun _ _ => none, 0⟩).Consistent :=
  ⟨by decide, (attach_latch_consistent (fun _ _ => none) _ (by decide)).1⟩

/-- An ATTACH that cannot open its event channel is answered with an error and leaves the latch
set, with nobody debugging; the next client is refused. -/
theorem latch_stays_set :
    let evs := [.connect 1, .connect 2, .command 0 (.attach (some 7) attachNoChannel) quietTarget]
    let w := evs.foldl Attachment.step ⟨ServerState.init fun _ _ => none, 0⟩
    w.server.attached = true ∧ (∀ c, (w.server.clients c).debugging = false) ∧ ¬ w.Consistent ∧
      (serve ([.connect 1, .connect 2].foldl Attachment.step ⟨ServerState.init fun _ _ => none, 0⟩).server
        (.command 0 (.attach (some 7) attachNoChannel) quietTarget)).replies = [CMD_ERROR] ∧
      (serve w.server (.command 1 (.attach (some 7) attachOk) quietTarget)).replies =
        [CMD_ALREADY_DEBUG] := by
  intro evs w
  have hatt : w.server.attached = true := by decide
  have hdbg : ∀ c, (w.server.clients c).debugging = false := by decide
  refine ⟨hatt, hdbg, ?_, by decide, by decide⟩
  intro hcons
  obtain ⟨c, _, _, hc, _⟩ := hcons.mp hatt
  rw [hdbg c] at hc
  cases hc

/-! ## Dereferences of the session -/

theorem reads_deref {k : ClientId → Dbgctx → Outcome} (hk : ∀ c ctx, (k c ctx).reads = []) :
    (deref s k).reads = [s.curdbgctx] := by
  cases hc : s.curdbgctx with
  | none => rw [deref_of_none hc]
  | some c => rw [deref_of_some hc, hk]

/-- The handlers that ask for the latch before they look at the session. -/
theorem reads_guarded {o : Outcome} (ho : o.reads = []) {k : ClientId → Dbgctx → Outcome}
    (hk : ∀ c ctx, (k c ctx).reads = []) {r : Option ClientId}
    (hr : r ∈ (if s.attached = false then o else deref s k).reads) :
    r = s.curdbgctx ∧ s.attached = true := by
  split at hr
  · rw [ho] at hr
    cases hr
  · rename_i hatt
    rw [reads_deref hk, List.mem_singleton] at hr
    exact ⟨hr, by simpa using hatt⟩

theorem reads_queryHandle {q : QuerySpec} {body : Option SetregPacket} {ok : Bool} {r : Option ClientId}
    (hr : r ∈ (queryHandle q s body ok).reads) : r = s.curdbgctx ∧ s.attached = true := by
  refine reads_guarded rfl (fun c ctx => ?_) hr
  split
  · rfl
  · split
    · rfl
    · split <;> rfl

theorem reads_bareHandle (s : ServerState) (hasBody ok : Bool) :
    (bareHandle s hasBody ok).reads = [s.curdbgctx] := by
  refine reads_deref fun c ctx => ?_
  split
  · rfl
  · split <;> rfl

theorem reads_debugAttachHandle {data : Option UInt32} {os : AttachOs} {r : Option ClientId}
    (hr : r ∈ (debugAttachHandle s data os).reads) : r = s.curdbgctx := by
  unfold debugAttachHandle at hr
  split at hr
  · cases hr
  · split at hr
    · cases hr
    · split at hr
      · cases hr
      · split at hr
        · cases hr
        · split at hr
          · cases hr
          · split at hr
            · cases hr
            · rw [reads_deref, List.mem_singleton] at hr
              · exact hr
              · intro c ctx
                simp only
                split <;> rfl

theorem reads_debugSetBreakpointHandle {data : Option BreakptPacket} {r : Option ClientId}
    (hr : r ∈ (debugSetBreakpointHandle s data).reads) : r = s.curdbgctx ∧ s.attached = true := by
  refine reads_guarded rfl (fun c ctx => ?_) hr
  split
  · rfl
  · split
    · rfl
    · split <;> rfl

theorem reads_debugSetWatchpointHandle {data : Option WatchptPacket} {os : WatchptOs}
    {r : Option ClientId} (hr : r ∈ (debugSetWatchpointHandle s data os).reads) :
    r = s.curdbgctx ∧ s.attached = true := by
  refine reads_guarded rfl (fun c ctx => ?_) hr
  split
  · rfl
  · split
    · rfl
    · split
      · split
        · rfl
        · split <;> rfl
      · rfl

/-- What a handler dereferences is the session it finds, and only three commands and ATTACH do so
without asking for the latch. -/
theorem reads_debugHandle {p : DebugPacket} {r : Option ClientId} (hr : r ∈ (debugHandle s p).reads) :
    r = s.curdbgctx ∧ (p.bare = true ∨ p.isAttach = true ∨ s.attached = true) := by
  cases p with
  | processStop data =>
    simp only [debugHandle, debugProcessStopHandle] at hr
    split at hr
    · cases hr
    · split at hr
      · cases hr
      · split at hr <;> cases hr
  | attach data os => exact ⟨reads_debugAttachHandle hr, .inr (.inl rfl)⟩
  | detach os =>
    simp only [debugHandle, debugDetachHandle] at hr
    split at hr
    · rename_i hatt
      exact ⟨List.mem_singleton.mp hr, .inr (.inr hatt)⟩
    · cases hr
  | setBreakpoint data =>
    exact (reads_debugSetBreakpointHandle hr).imp_right fun h => .inr (.inr h)
  | setWatchpoint data os =>
    exact (reads_debugSetWatchpointHandle hr).imp_right fun h => .inr (.inr h)
  | suspendThread hasBody ok =>
    rw [debugHandle, debugSuspendThreadHandle, reads_bareHandle, List.mem_singleton] at hr
    exact ⟨hr, .inl rfl⟩
  | resumeThread hasBody ok =>
    rw [debugHandle, debugResumeThreadHandle, reads_bareHandle, List.mem_singleton] at hr
    exact ⟨hr, .inl rfl⟩
  | continueTarget hasBody =>
    rw [debugHandle, debugContinueHandle, reads_bareHandle, List.mem_singleton] at hr
    exact ⟨hr, .inl rfl⟩
  | unknown => cases hr
  | _ body ok => exact (reads_queryHandle hr).imp_right fun h => .inr (.inr h)

/-- The server, and whether an ATTACH packet has taken the pointers since the start or since the
last session ended. -/
structure Watched where
  server : ServerState
  latched : Bool

def Watched.step (w : Watched) (e : Event) : Watched :=
  let t := (serve w.server e).server
  ⟨t, if w.server.attached && !t.attached then false else w.latched || e.latches w.server⟩

/-- SUSPEND, RESUME and CONTINUE come after an ATTACH packet with no end of session in between,
and the event pump sees no killed target. -/
def Event.addressed (w : Watched) : Event → Bool
  | .command _ p _ => !p.bare || w.latched
  | .pump _ os _ => !os.killed
  | _ => true

theorem Watched.tracks {w : Watched} (h : Linked w.server)
    (hw : w.latched = w.server.curdbgctx.isSome) (e : Event) :
    (w.step e).latched = (w.step e).server.curdbgctx.isSome := by
  have hs := serve_links h e
  unfold Watched.step
  generalize (serve w.server e).server = t at hs
  cases hs with
  | stay hl hf => simp [hf.attached, hf.ctx, hl, hw]
  | accept hi => simp [Event.latches, hw]
  | close hl _ hf => simp [hf.attached, hf.ctx, hl, hw]
  | finish _ hatt hf => simp [hatt, hf.attached, hf.ctx]
  | leave _ hatt _ hf => simp [hatt, hf.attached, hf.ctx]
  | refuse hlat _ hf =>
    obtain ⟨_, hatt, _⟩ := latches_attach.mp hlat
    simp [hatt, hlat, hf.ctx, attachLatch_free hatt]
  | strand hlat _ _ hf =>
    obtain ⟨_, hatt, _⟩ := latches_attach.mp hlat
    simp [hatt, hlat, hf.ctx, attachLatch_free hatt]
  | attach hlat _ _ =>
    obtain ⟨_, hatt, _⟩ := latches_attach.mp hlat
    simp [hatt, hlat, ServerState.attachedTo, attachLatch_free hatt]

/-- The session the handler of a packet finds, if it dereferences one. -/
theorem latched_ctx_ne_none (h : Linked s) {p : DebugPacket}
    (hbare : p.bare = true → s.curdbgctx ≠ none)
    (hp : p.bare = true ∨ p.isAttach = true ∨ (latched s c p).attached = true) :
    (latched s c p).curdbgctx ≠ none := by
  cases hatt : s.attached with
  | true =>
    have hl : latched s c p = s := by
      unfold latched
      rw [attachLatch_held hatt]
      split <;> rfl
    rw [hl]
    exact h.isHeld hatt
  | false =>
    cases hia : p.isAttach with
    | true =>
      rw [latched, if_pos hia, attachLatch_free hatt]
      exact Option.some_ne_none c
    | false =>
      have hl : latched s c p = s := by rw [latched, if_neg (by simp [hia])]
      rw [hl] at hp ⊢
      rcases hp with hb | hi | ha
      · exact hbare hb
      · rw [hia] at hi; cases hi
      · rw [hatt] at ha; cases ha

theorem reads_serve {w : Watched} (h : Linked w.server) (hw : w.latched = w.server.curdbgctx.isSome)
    {e : Event} (hok : e.addressed w = true) {r : Option ClientId} (hr : r ∈ (serve w.server e).reads) :
    r ≠ none := by
  cases hcr : w.server.crashed with
  | true => rw [serve_crashed hcr] at hr; cases hr
  | false =>
    cases hsil : e.silent w.server with
    | true => rw [serve_silent hsil] at hr; cases hr
    | false =>
      cases e with
      | connect addr => rw [serve_connect hcr] at hr; cases hr
      | command c p close =>
        have hact : (w.server.clients c).active = true := by simpa [Event.silent] using hsil
        have hbare : p.bare = true → w.server.curdbgctx ≠ none := by
          intro hb
          have hl : w.latched = true := by simpa [Event.addressed, hb] using hok
          rw [hw] at hl
          exact Option.isSome_iff_ne_none.mp hl
        rw [serve_command hcr hact, closing_reads] at hr
        obtain ⟨rfl, hp⟩ := reads_debugHandle hr
        exact latched_ctx_ne_none h hbare hp
      | pump c os close =>
        obtain ⟨hact, hdbg⟩ : (w.server.clients c).active = true ∧
            (w.server.clients c).debugging = true := by
          simpa [Event.silent] using hsil
        have hk : os.killed = false := by simpa [Event.addressed] using hok
        have hctx := h.same.trans (h.flag c hdbg).2.1
        rw [serve_pump hcr hact hdbg, closing_reads, (dispatchDebugEvents_cases hctx hk).1,
          List.mem_singleton] at hr
        rw [hr]
        exact Option.some_ne_none c
      | disconnect c close =>
        have hact : (w.server.clients c).active = true := by simpa [Event.silent] using hsil
        rw [serve_disconnect hcr hact, closing_reads] at hr
        cases hr

/-- **No null session is dereferenced** in a run from start-up whose SUSPEND, RESUME and CONTINUE
packets come after an ATTACH with no end of session in between and whose target is not killed
under the event pump. -/
theorem session_never_null (mem : UInt32 → TargetMem) (evs : List Event)
    (hok : Along Watched.step (fun w e => e.addressed w = true) ⟨ServerState.init mem, false⟩ evs) :
    Along Watched.step (fun w e => ∀ r ∈ (serve w.server e).reads, r ≠ none)
      ⟨ServerState.init mem, false⟩ evs := by
  refine Along.of_invariant (fun w => Linked w.server ∧ w.latched = w.server.curdbgctx.isSome)
    ?_ evs ⟨linked_init mem, rfl⟩ hok
  rintro w e ⟨hl, hw⟩ he
  exact ⟨⟨hl.step (serve_links hl e), Watched.tracks hl hw e⟩, fun r hr => reads_serve hl hw he hr⟩

theorem session_never_null_suspend :
    let evs := [.connect 1, .command 0 (.attach (some 7) attachOk) quietTarget,
      .command 0 (.suspendThread true true) quietTarget,
      .pump 0 ⟨false, some ⟨5, some ⟨1, none, some 0x1001⟩⟩, quietTarget⟩ quietTarget,
      .command 0 (.detach quietTarget) quietTarget]
    Along Watched.step (fun w e => e.addressed w = true) ⟨ServerState.init fun _ _ => none, false⟩ evs ∧
      Along Watched.step (fun w e => ∀ r ∈ (serve w.server e).reads, r ≠ none)
        ⟨ServerState.init fun _ _ => none, false⟩ evs :=
  ⟨by decide, session_never_null _ _ (by decide)⟩

/-- SUSPEND as the first packet, and a killed target: both end in a null dereference. -/
theorem suspend_reads_null :
    let good : Watched → Event → Prop := fun w e => ∀ r ∈ (serve w.server e).reads, r ≠ none
    ¬ Along Watched.step good ⟨ServerState.init fun _ _ => none, false⟩
        [.connect 1, .command 0 (.suspendThread true true) quietTarget] ∧
      ¬ Along Watched.step good ⟨ServerState.init fun _ _ => none, false⟩
        [.connect 1, .command 0 (.attach (some 7) attachOk) quietTarget,
          .pump 0 ⟨false, some ⟨9, none⟩, quietTarget⟩ quietTarget] := by
  decide

end Ps5Debugger

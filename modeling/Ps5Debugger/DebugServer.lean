import Ps5Debugger.DebugCases
import Ps5Debugger.Lib.Machine

/-!
# The debug server over whole runs

Clients connect, send debug packets, lose their connection; the event pump runs between the
commands of the debugging client. `serve` is one such step, a packet being taken as a whole: the
attach latch, the handler, and the end of the connection if the handler returns non-zero.

`Linked` is what holds in every state: `curdbgcli` and `curdbgctx` name the same client, there is
one while the latch is set, and no other client has its debugging flag up. `LinkStep` lists
everything a step can do to these links, and `serve_links` says that every step does one of them;
invariants of runs are proved by cases on it.
-/

namespace Ps5Debugger

open Lib

/-! ## Steps -/

/-- What can happen to the server. A packet, an event and a lost connection carry the answers to
the teardown they may end in. -/
inductive Event where
  | connect (addr : UInt32)
  | command (c : ClientId) (p : DebugPacket) (close : TeardownOs)
  | pump (c : ClientId) (os : PumpOs) (close : TeardownOs)
  | disconnect (c : ClientId) (close : TeardownOs)

/-- The server as the handler of a packet finds it. -/
def latched (s : ServerState) (c : ClientId) (p : DebugPacket) : ServerState :=
  if p.isAttach then attachLatch s c else s

@[simp] theorem latched_attach (s : ServerState) (c : ClientId) (data : Option UInt32) (os : AttachOs) :
    latched s c (.attach data os) = attachLatch s c := rfl

/-- One step of the server. Slots that are not in use send nothing, the pump runs for a client
whose debugging flag is up, and after a crash nothing happens. -/
def serve (s : ServerState) (e : Event) : Outcome :=
  if s.crashed then { server := s }
  else match e with
  | .connect addr => { server := acceptClient s addr }
  | .command c p close =>
    if (s.clients c).active then (debugHandle (latched s c p) p).closing c close else { server := s }
  | .pump c os close =>
    if (s.clients c).active = true ∧ (s.clients c).debugging = true then
      (dispatchDebugEvents s os).closing c close
    else { server := s }
  | .disconnect c close =>
    if (s.clients c).active then Outcome.closing { server := s, rc := true } c close
    else { server := s }

section Serve

variable {s : ServerState} {c : ClientId}

theorem serve_crashed (hcr : s.crashed = true) (e : Event) : serve s e = { server := s } := by
  unfold serve
  rw [if_pos hcr]

theorem serve_connect (hcr : s.crashed = false) (addr : UInt32) :
    serve s (.connect addr) = { server := acceptClient s addr } := by
  simp [serve, hcr]

theorem serve_command (hcr : s.crashed = false) (hact : (s.clients c).active = true) (p : DebugPacket)
    (close : TeardownOs) :
    serve s (.command c p close) = (debugHandle (latched s c p) p).closing c close := by
  simp [serve, hcr, hact]

theorem serve_pump (hcr : s.crashed = false) (hact : (s.clients c).active = true)
    (hdbg : (s.clients c).debugging = true) (os : PumpOs) (close : TeardownOs) :
    serve s (.pump c os close) = (dispatchDebugEvents s os).closing c close := by
  simp [serve, hcr, hact, hdbg]

theorem serve_disconnect (hcr : s.crashed = false) (hact : (s.clients c).active = true)
    (close : TeardownOs) :
    serve s (.disconnect c close) = Outcome.closing { server := s, rc := true } c close := by
  simp [serve, hcr, hact]

/-- Who has no connection sends nothing. -/
def Event.silent (s : ServerState) : Event → Bool
  | .connect _ => false
  | .command c _ _ => !(s.clients c).active
  | .pump c _ _ => !((s.clients c).active && (s.clients c).debugging)
  | .disconnect c _ => !(s.clients c).active

theorem serve_silent {e : Event} (h : e.silent s = true) : serve s e = { server := s } := by
  cases e with
  | connect addr => cases h
  | command c p close =>
    have hact : (s.clients c).active = false := by simpa [Event.silent] using h
    simp [serve, hact]
  | pump c os close =>
    have hne : ¬ ((s.clients c).active = true ∧ (s.clients c).debugging = true) := by
      rintro ⟨ha, hd⟩
      simp [Event.silent, ha, hd] at h
    simp [serve, hne]
  | disconnect c close =>
    have hact : (s.clients c).active = false := by simpa [Event.silent] using h
    simp [serve, hact]

end Serve

/-! ## What a step leaves of the links -/

/-- `t` has the globals and the client flags of `s`, and the pids of its contexts. It may have
crashed with nobody attached. -/
structure Frame (s t : ServerState) : Prop where
  attached : t.attached = s.attached
  cli : t.curdbgcli = s.curdbgcli
  ctx : t.curdbgctx = s.curdbgctx
  active : ∀ c, (t.clients c).active = (s.clients c).active
  debugging : ∀ c, (t.clients c).debugging = (s.clients c).debugging
  addr : ∀ c, (t.clients c).clientAddr = (s.clients c).clientAddr
  pid : ∀ c, (t.clients c).dbgctx.pid = (s.clients c).dbgctx.pid
  down : t.crashed = true → s.crashed = true ∨ t.attached = false

variable {s t : ServerState} {c : ClientId}

theorem Frame.refl (s : ServerState) : Frame s s :=
  ⟨rfl, rfl, rfl, fun _ => rfl, fun _ => rfl, fun _ => rfl, fun _ => rfl, .inl⟩

theorem Frame.trans {u : ServerState} (h : Frame s t) (h' : Frame t u) : Frame s u where
  attached := h'.attached.trans h.attached
  cli := h'.cli.trans h.cli
  ctx := h'.ctx.trans h.ctx
  active := fun c => (h'.active c).trans (h.active c)
  debugging := fun c => (h'.debugging c).trans (h.debugging c)
  addr := fun c => (h'.addr c).trans (h.addr c)
  pid := fun c => (h'.pid c).trans (h.pid c)
  down := fun hu => (h'.down hu).elim (fun ht => (h.down ht).imp_right h'.attached.trans) .inr

theorem frame_crash (hatt : s.attached = false) (b : Bool) : Frame s { s with crashed := b } :=
  ⟨rfl, rfl, rfl, fun _ => rfl, fun _ => rfl, fun _ => rfl, fun _ => rfl, fun _ => .inr hatt⟩

theorem frame_writeAll (s : ServerState) (pid : UInt32) (ws : List (UInt64 × Byte)) :
    Frame s (s.writeAll pid ws) :=
  ⟨rfl, rfl, rfl, fun _ => rfl, fun _ => rfl, fun _ => rfl, fun _ => rfl, .inl⟩

/-- A context that keeps its pid. -/
theorem frame_setCtx (s : ServerState) {c : ClientId} {ctx : Dbgctx}
    (h : ctx.pid = (s.clients c).dbgctx.pid) : Frame s (s.setCtx c ctx) where
  attached := rfl
  cli := rfl
  ctx := rfl
  active := fun d => by rw [setCtx_clients]
  debugging := fun d => by rw [setCtx_clients]
  addr := fun d => by rw [setCtx_clients]
  pid := fun d => by
    rw [setCtx_clients]
    by_cases hd : d = c
    · subst hd
      simpa using h
    · simp [hd]
  down := .inl

theorem Frame.setClient (h : Frame s t) (c : ClientId) (cl : ServerClient) :
    Frame (s.setClient c cl) (t.setClient c cl) := by
  have hcl : ∀ d, (d = c ∧ (s.setClient c cl).clients d = cl ∧ (t.setClient c cl).clients d = cl) ∨
      ((s.setClient c cl).clients d = s.clients d ∧ (t.setClient c cl).clients d = t.clients d) := by
    intro d
    by_cases hd : d = c
    · subst hd
      exact .inl ⟨rfl, setClient_self s d cl, setClient_self t d cl⟩
    · exact .inr ⟨setClient_ne s c cl hd, setClient_ne t c cl hd⟩
  refine ⟨h.attached, h.cli, h.ctx, ?_, ?_, ?_, ?_, h.down⟩ <;> intro d <;>
    rcases hcl d with ⟨_, h₁, h₂⟩ | ⟨h₁, h₂⟩ <;> rw [h₁, h₂]
  · exact h.active d
  · exact h.debugging d
  · exact h.addr d
  · exact h.pid d

theorem Frame.release (h : Frame s t) : Frame s.release t.release := by
  refine ⟨rfl, rfl, rfl, ?_, ?_, ?_, ?_, fun _ => .inr rfl⟩ <;> intro d <;>
    rw [release_clients, release_clients]
  · exact h.active d
  · simp only [h.cli, h.debugging d]
  · exact h.addr d
  · exact h.pid d

/-- Somebody is there while the latch is set. -/
def ServerState.Held (s : ServerState) : Prop := s.attached = true → s.curdbgctx ≠ none

theorem ServerState.Held.free (h : s.Held) (hctx : s.curdbgctx = none) : s.attached = false := by
  by_contra hne
  exact h (by simpa using hne) hctx

theorem frame_idle (hh : s.Held) {o : Outcome} (h : o.Idle s) : Frame s o.server := by
  rcases h with ⟨_, h | ⟨hctx, h⟩⟩
  · rw [h]; exact Frame.refl s
  · rw [h]; exact frame_crash (hh.free hctx) true

theorem frame_refused {o : Outcome} (h : o.Refused s) : Frame s o.server := by
  rw [h.server]
  exact Frame.refl s

/-- A handler that dereferences a null session leaves nothing but the crash. -/
theorem frame_deref (hh : s.Held) (h : s.curdbgctx = none) (k : ClientId → Dbgctx → Outcome) :
    Frame s (deref s k).server := by
  rw [deref_of_none h]
  exact frame_crash (hh.free h) true

theorem frame_debugSetBreakpointHandle (hh : s.Held) (data : Option BreakptPacket) :
    Frame s (debugSetBreakpointHandle s data).server := by
  cases hctx : s.curdbgctx with
  | none =>
    unfold debugSetBreakpointHandle
    split
    · exact Frame.refl s
    · exact frame_deref hh hctx _
  | some c =>
    rcases debugSetBreakpointHandle_cases (fun _ => hctx) data with h | ⟨bp, rfl, hi, hatt, hpid⟩
    · exact frame_refused h
    · rw [debugSetBreakpointHandle_applied hatt hctx hpid hi]
      refine Frame.trans ?_ (frame_writeAll _ _ _)
      exact frame_setCtx s rfl

theorem frame_debugSetWatchpointHandle (hh : s.Held) (data : Option WatchptPacket) (os : WatchptOs) :
    Frame s (debugSetWatchpointHandle s data os).server := by
  cases hctx : s.curdbgctx with
  | none =>
    unfold debugSetWatchpointHandle
    split
    · exact Frame.refl s
    · exact frame_deref hh hctx _
  | some c =>
    rcases debugSetWatchpointHandle_cases (fun _ => hctx) data os with
      h | ⟨wp, lwps, rfl, hi, hatt, hpid, helev, hl⟩
    · exact frame_refused h
    · rw [debugSetWatchpointHandle_applied hatt hctx hpid hi helev hl]
      exact frame_setCtx s rfl

/-- The commands other than ATTACH and DETACH. -/
theorem frame_debugHandle {p : DebugPacket} (hp : p.isAttach = false) (hd : ∀ os, p ≠ .detach os)
    (hh : s.Held) : Frame s (debugHandle s p).server := by
  cases hq : p.quiet with
  | true => exact frame_idle hh (idle_debugHandle hq s)
  | false =>
    cases p with
    | attach data os => cases hp
    | detach os => exact absurd rfl (hd os)
    | setBreakpoint data => exact frame_debugSetBreakpointHandle hh data
    | setWatchpoint data os => exact frame_debugSetWatchpointHandle hh data os
    | _ => cases hq

/-- A teardown while the latch is set: the links are those after `release`. -/
theorem frame_debugFullTeardown (hatt : s.attached = true) (svc : Option ClientId) (os : TeardownOs) :
    Frame s.release (debugFullTeardown s svc os).1 := by
  unfold debugFullTeardown
  rw [if_neg (by simp [hatt])]
  cases svc with
  | none => exact frame_crash (release_attached s) _
  | some c =>
    simp only
    split
    · exact frame_writeAll _ _ _
    · exact Frame.refl _

theorem debugFullTeardown_free (hatt : s.attached = false) (svc : Option ClientId) (os : TeardownOs) :
    debugFullTeardown s svc os = (s, []) := by
  unfold debugFullTeardown
  rw [if_pos hatt]

/-- The event pump: the links as they were, or a teardown. -/
theorem frame_dispatchDebugEvents (hctx : s.curdbgctx = some c) (os : PumpOs) :
    Frame s (dispatchDebugEvents s os).server ∨
    (os.killed = true ∧ s.attached = true ∧ (dispatchDebugEvents s os).rc = false ∧
      Frame s.release (dispatchDebugEvents s os).server) := by
  cases hk : os.killed with
  | false =>
    left
    obtain ⟨_, ⟨hs, _⟩ | ⟨i, _, _, hs, _⟩⟩ := dispatchDebugEvents_cases hctx hk
    · rw [hs]; exact Frame.refl s
    · rw [hs]; exact frame_writeAll _ _ _
  | true =>
    obtain ⟨hrc, _, hs⟩ := dispatchDebugEvents_killed hctx hk
    cases hatt : s.attached with
    | false =>
      left
      rw [debugFullTeardown_free hatt] at hs
      rcases hs with hs | hs
      · rw [hs]; exact Frame.refl s
      · rw [hs]; exact frame_crash hatt true
    | true =>
      right
      have hf := frame_debugFullTeardown hatt (some c) os.teardown
      rcases hs with hs | hs
      · rw [hs]; exact ⟨rfl, rfl, hrc, hf⟩
      · rw [hs]; exact ⟨rfl, rfl, hrc, hf.trans (frame_crash hf.attached true)⟩

/-! ## The links that always hold -/

/-- What every state of the server has. -/
structure Linked (s : ServerState) : Prop where
  /-- both pointers name the same client -/
  same : s.curdbgctx = s.curdbgcli
  /-- the latch is held by somebody -/
  held : s.attached = true → ∃ c, s.curdbgcli = some c
  /-- a client with its flag up is connected and holds the latch -/
  flag : ∀ c, (s.clients c).debugging = true →
    s.attached = true ∧ s.curdbgcli = some c ∧ (s.clients c).active = true
  /-- the server goes down with nobody attached -/
  down : s.crashed = true → s.attached = false

theorem Linked.of_frame (h : Linked s) (hf : Frame s t) : Linked t where
  same := by rw [hf.ctx, hf.cli, h.same]
  held := by rw [hf.attached, hf.cli]; exact h.held
  flag := fun c => by rw [hf.attached, hf.cli, hf.active, hf.debugging]; exact h.flag c
  down := fun ht => (hf.down ht).elim (fun hs => hf.attached.trans (h.down hs)) id

theorem Linked.ctx (h : Linked s) (hatt : s.attached = true) : ∃ c, s.curdbgctx = some c := by
  rw [h.same]
  exact h.held hatt

theorem Linked.isHeld (h : Linked s) : s.Held := by
  intro hatt
  obtain ⟨c, hc⟩ := h.ctx hatt
  rw [hc]
  exact Option.some_ne_none c

theorem Linked.free (h : Linked s) (hatt : s.attached = false) (c : ClientId) :
    (s.clients c).debugging = false := by
  by_contra hne
  have := (h.flag c (by simpa using hne)).1
  rw [hatt] at this
  cases this

/-- After `release` nobody is debugging. -/
theorem Linked.release_debugging (h : Linked s) (d : ClientId) :
    (s.release.clients d).debugging = false := by
  rw [release_clients]
  by_cases hd : s.curdbgcli = some d
  · simp [hd]
  · have : (s.clients d).debugging = false := by
      by_contra hne
      exact hd (h.flag d (by simpa using hne)).2.1
    simp [hd, this]

theorem Linked.release (h : Linked s) : Linked s.release where
  same := rfl
  held := fun e => nomatch e
  flag := fun c e => absurd e (by simp [h.release_debugging c])
  down := fun _ => rfl

theorem Linked.setClient (h : Linked s) {c : ClientId} {cl : ServerClient} (hcl : cl.debugging = false) :
    Linked (s.setClient c cl) where
  same := h.same
  held := h.held
  flag := fun d => by
    by_cases hd : d = c
    · subst hd
      simp [hcl]
    · rw [setClient_ne s c cl hd]
      exact h.flag d
  down := h.down

theorem linked_init (mem : UInt32 → TargetMem) : Linked (ServerState.init mem) where
  same := rfl
  held := fun e => nomatch e
  flag := fun _ e => nomatch e
  down := fun _ => rfl

theorem release_setClient (s : ServerState) (c : ClientId) (cl : ServerClient) :
    (s.setClient c cl).release.setClient c .zero = s.release.setClient c .zero := by
  refine ServerState.ext (funext fun d => ?_) rfl rfl rfl ?_ ?_
  · by_cases hd : d = c
    · subst hd
      simp
    · rw [setClient_ne _ _ _ hd, setClient_ne _ _ _ hd, release_clients, release_clients,
        setClient_ne _ _ _ hd, setClient_curdbgcli]
  · simp
  · simp

/-- `free_client` of a client that is debugging: the session ends with it. -/
theorem frame_freeClient_debugging (hatt : s.attached = true)
    (hc : (s.clients c).debugging = true) (os : TeardownOs) :
    Frame (s.release.setClient c .zero) (freeClient s c os).1 := by
  unfold freeClient
  simp only [if_pos hc]
  rw [← release_setClient s c { s.clients c with active := false }]
  refine Frame.setClient (frame_debugFullTeardown ?_ (some c) os) c .zero
  exact hatt

/-- `free_client` of any other client only clears its slot. -/
theorem freeClient_idle (hc : (s.clients c).debugging = false) (os : TeardownOs) :
    freeClient s c os = (s.setClient c .zero, []) := by
  simp only [freeClient, hc, Bool.false_eq_true, if_false]
  simp only [ServerState.setClient, Function.update_idem]

/-- A refused client that was not debugging is gone, and that is all. -/
theorem closing_refused {o : Outcome} (ho : o.Refused s) (hcr : s.crashed = false)
    (hc : (s.clients c).debugging = false) (os : TeardownOs) :
    (o.closing c os).server = s.setClient c .zero ∧ (o.closing c os).effects = [] := by
  rw [Outcome.closing, if_pos ⟨ho.rc, by rw [ho.server]; exact hcr⟩, ho.server, freeClient_idle hc]
  exact ⟨rfl, by simp [ho.effects]⟩

theorem attachLatch_free (hatt : s.attached = false) (c : ClientId) :
    attachLatch s c = { s with curdbgcli := some c, curdbgctx := some c } := if_pos hatt

theorem attachLatch_held (hatt : s.attached = true) (c : ClientId) : attachLatch s c = s := by
  rw [attachLatch, if_neg (by simp [hatt])]

theorem Linked.attachLatch (h : Linked s) (c : ClientId) : Linked (attachLatch s c) := by
  cases hatt : s.attached with
  | true => rw [attachLatch_held hatt]; exact h
  | false =>
    rw [attachLatch_free hatt]
    exact ⟨rfl, fun e => absurd e (by simp [hatt]), fun d hd => absurd hd (by simp [h.free hatt d]),
      fun _ => hatt⟩

/-- The server after an ATTACH that goes through, seen from its latch: everything as it was, but
for the latch, the flag of `c` and its context. -/
theorem enter_spec (s : ServerState) (c : ClientId) (fd : Int) (pid : UInt32)
    (hcli : s.curdbgcli = some c) :
    let t := ({ s with attached := true }.setCtx c { (s.clients c).dbgctx with dbgfd := fd }).enter c pid
    t = { s with attached := true }.setClient c
      { s.clients c with debugging := true
                         dbgctx := { (s.clients c).dbgctx with dbgfd := fd, pid := pid } } := by
  simp only [ServerState.enter, ServerState.setCtx, ServerState.setClient, hcli, Function.update_self,
    Function.update_idem]

/-! ## What a step does to the links -/

/-- An ATTACH packet that takes the latch's pointers. -/
def Event.latches (s : ServerState) : Event → Bool
  | .command c p _ => p.isAttach && (s.clients c).active && !s.attached && !s.crashed
  | _ => false

/-- The server a successful ATTACH of client `c` leaves. -/
def ServerState.attachedTo (s : ServerState) (c : ClientId) (pid : UInt32) (fd : Int) : ServerState :=
  { attachLatch s c with attached := true }.setClient c
    { s.clients c with debugging := true, dbgctx := { (s.clients c).dbgctx with dbgfd := fd, pid := pid } }

/-- Everything a step can do to the links. -/
inductive LinkStep (s : ServerState) : Event → ServerState → Prop where
  /-- nothing -/
  | stay {e t} : e.latches s = false → Frame s t → LinkStep s e t
  /-- a client gets a free slot -/
  | accept {addr i} : (s.clients i).active = false →
      LinkStep s (.connect addr) (s.setClient i ⟨true, false, addr, .zero⟩)
  /-- a client goes that was not debugging -/
  | close {e t c} : e.latches s = false → (s.clients c).debugging = false →
      Frame (s.setClient c .zero) t → LinkStep s e t
  /-- the session ends and its client stays -/
  | finish {e t} : e.latches s = false → s.attached = true → Frame s.release t → LinkStep s e t
  /-- the debugging client goes, and the session with it -/
  | leave {e t c} : e.latches s = false → s.attached = true → (s.clients c).debugging = true →
      Frame (s.release.setClient c .zero) t → LinkStep s e t
  /-- an ATTACH is refused before the event channel: its sender is gone, the pointers stay -/
  | refuse {c data os close t} : (Event.command c (.attach data os) close).latches s = true →
      (data = none ∨ os.traced = false) →
      Frame ((attachLatch s c).setClient c .zero) t → LinkStep s (.command c (.attach data os) close) t
  /-- the event channel does not open: its sender is gone, pointers and latch stay -/
  | strand {c data os close t} : (Event.command c (.attach data os) close).latches s = true →
      os.traced = true → os.channel = false →
      Frame ({ attachLatch s c with attached := true }.setClient c .zero) t →
      LinkStep s (.command c (.attach data os) close) t
  /-- an ATTACH goes through -/
  | attach {c pid os close} : (Event.command c (.attach (some pid) os) close).latches s = true →
      os.traced = true → os.channel = true →
      LinkStep s (.command c (.attach (some pid) os) close) (s.attachedTo c pid os.dbgfd)

theorem latches_attach {data : Option UInt32} {os : AttachOs} {close : TeardownOs} :
    (Event.command c (.attach data os) close).latches s = true ↔
      (s.clients c).active = true ∧ s.attached = false ∧ s.crashed = false := by
  simp [Event.latches, DebugPacket.isAttach, and_assoc]

/-- How a handler's return ends, given that it left the links alone. -/
theorem closing_links (h : Linked s) {o : Outcome} (hf : Frame s o.server) {c : ClientId}
    {os : TeardownOs} {e : Event} (he : e.latches s = false) :
    LinkStep s e (o.closing c os).server := by
  unfold Outcome.closing
  split
  · cases hc : (s.clients c).debugging with
    | true =>
      have hatt := (h.flag c hc).1
      refine .leave he hatt hc ((hf.release.setClient c .zero).trans ?_)
      exact frame_freeClient_debugging (hf.attached.trans hatt) ((hf.debugging c).trans hc) os
    | false =>
      refine .close he hc ?_
      rw [freeClient_idle ((hf.debugging c).trans hc)]
      exact hf.setClient c .zero
  · exact .stay he hf

/-- The ATTACH packet of a connected client that finds the latch free. -/
theorem attach_links (h : Linked s) {data : Option UInt32} {os : AttachOs} {close : TeardownOs}
    (hlat : (Event.command c (.attach data os) close).latches s = true) :
    LinkStep s (.command c (.attach data os) close)
      ((debugAttachHandle (attachLatch s c) data os).closing c close).server := by
  obtain ⟨_, hatt, hcr⟩ := latches_attach.mp hlat
  have hl : attachLatch s c = { s with curdbgcli := some c, curdbgctx := some c } := attachLatch_free hatt c
  have hdbg : ((attachLatch s c).clients c).debugging = false := by rw [hl]; exact h.free hatt c
  rcases debugAttachHandle_cases (s := attachLatch s c) (c := c) (by rw [hl]; exact hatt) (by rw [hl])
    data os with ⟨ho, hwhy⟩ | ⟨htr, hch, ho⟩ | ⟨pid, rfl, htr, hch, hs, hrc, _, _⟩
  · refine .refuse hlat hwhy ?_
    rw [(closing_refused ho (by rw [hl]; exact hcr) hdbg close).1]
    exact Frame.refl _
  · refine .strand hlat htr hch ?_
    have hf : Frame { attachLatch s c with attached := true }
        ({ attachLatch s c with attached := true }.setCtx c
          { ((attachLatch s c).clients c).dbgctx with dbgfd := os.dbgfd }) := frame_setCtx _ rfl
    rw [(closing_refused ho (by rw [hl]; exact hcr) ((hf.debugging c).trans hdbg) close).1]
    exact hf.setClient c .zero
  · have ht : ((debugAttachHandle (attachLatch s c) (some pid) os).closing c close).server =
        s.attachedTo c pid os.dbgfd := by
      rw [Outcome.closing, if_neg (by simp [hrc]), hs, enter_spec _ c _ pid (by rw [hl]), hl]
      rw [ServerState.attachedTo, hl]
    rw [ht]
    exact .attach hlat htr hch

theorem detach_links (s : ServerState) (os : TeardownOs) {e : Event} (he : e.latches s = false) :
    LinkStep s e (debugDetachHandle s os).server := by
  cases hatt : s.attached with
  | true => exact .finish he hatt (frame_debugFullTeardown hatt s.curdbgctx os)
  | false =>
    simp only [debugDetachHandle, debugFullTeardown_free hatt]
    exact .stay he (Frame.refl s)

/-- The packet of a connected client. -/
theorem command_links (h : Linked s) (hcr : s.crashed = false) (hact : (s.clients c).active = true)
    (p : DebugPacket) (close : TeardownOs) :
    LinkStep s (.command c p close) ((debugHandle (latched s c p) p).closing c close).server := by
  cases hp : p.isAttach with
  | true =>
    obtain ⟨data, os, rfl⟩ : ∃ data os, p = .attach data os := by
      cases p <;> first | exact ⟨_, _, rfl⟩ | cases hp
    rw [latched, if_pos hp]
    cases hatt : s.attached with
    | false => exact attach_links h (latches_attach.mpr ⟨hact, hatt, hcr⟩)
    | true =>
      have hl : (Event.command c (.attach data os) close).latches s = false := by
        simp [Event.latches, hatt]
      rw [attachLatch_held hatt, debugHandle, debugAttachHandle_attached hatt]
      exact closing_links h (Frame.refl s) hl
  | false =>
    have hl : (Event.command c p close).latches s = false := by simp [Event.latches, hp]
    rw [latched, if_neg (by simp [hp])]
    by_cases hd : ∃ os, p = .detach os
    · obtain ⟨os, rfl⟩ := hd
      rw [Outcome.closing, if_neg (fun e => absurd e.1 Bool.false_ne_true)]
      exact detach_links s os hl
    · exact closing_links h (frame_debugHandle hp (fun os e => hd ⟨os, e⟩) h.isHeld) hl

/-- **Every step is one of these.** -/
theorem serve_links (h : Linked s) (e : Event) : LinkStep s e (serve s e).server := by
  cases hcr : s.crashed with
  | true =>
    have he : e.latches s = false := by cases e <;> simp [Event.latches, hcr]
    rw [serve_crashed hcr]
    exact .stay he (Frame.refl s)
  | false =>
    cases hsil : e.silent s with
    | true =>
      have he : e.latches s = false := by
        cases e <;> simp_all [Event.latches, Event.silent]
      rw [serve_silent hsil]
      exact .stay he (Frame.refl s)
    | false =>
      cases e with
      | connect addr =>
        rw [serve_connect hcr]
        simp only [acceptClient]
        split
        · exact .stay rfl (Frame.refl s)
        · rename_i i hi
          exact .accept (by simpa using List.find?_some hi)
      | command c p close =>
        have hact : (s.clients c).active = true := by simpa [Event.silent] using hsil
        rw [serve_command hcr hact]
        exact command_links h hcr hact p close
      | pump c os close =>
        obtain ⟨hact, hdbg⟩ : (s.clients c).active = true ∧ (s.clients c).debugging = true := by
          simpa [Event.silent] using hsil
        obtain ⟨hatt, hcli, _⟩ := h.flag c hdbg
        rw [serve_pump hcr hact hdbg]
        rcases frame_dispatchDebugEvents (h.same.trans hcli) os with hf | ⟨_, _, hrc, hf⟩
        · exact closing_links h hf rfl
        · rw [Outcome.closing, if_neg (by simp [hrc])]
          exact .finish rfl hatt hf
      | disconnect c close =>
        have hact : (s.clients c).active = true := by simpa [Event.silent] using hsil
        rw [serve_disconnect hcr hact]
        exact closing_links h (Frame.refl s) rfl

theorem Linked.attachedTo (h : Linked s) (hact : (s.clients c).active = true)
    (hatt : s.attached = false) (hcr : s.crashed = false) (pid : UInt32) (fd : Int) :
    Linked (s.attachedTo c pid fd) := by
  rw [ServerState.attachedTo, attachLatch_free hatt]
  refine ⟨rfl, fun _ => ⟨c, rfl⟩, fun d hd => ?_, fun e => absurd e (by simp [hcr])⟩
  by_cases hdc : d = c
  · subst hdc
    exact ⟨rfl, rfl, by simpa using hact⟩
  · rw [setClient_ne _ _ _ hdc] at hd
    exact absurd hd (by simp [h.free hatt d])

theorem Linked.step (h : Linked s) {e : Event} (hl : LinkStep s e t) : Linked t := by
  cases hl with
  | stay _ hf => exact h.of_frame hf
  | accept hi => exact h.setClient rfl
  | close _ _ hf => exact (h.setClient rfl).of_frame hf
  | finish _ _ hf => exact h.release.of_frame hf
  | leave _ _ _ hf => exact (h.release.setClient rfl).of_frame hf
  | @refuse c _ _ _ _ _ _ hf => exact ((h.attachLatch c).setClient rfl).of_frame hf
  | @strand c _ _ _ _ hlat _ _ hf =>
    obtain ⟨_, hatt, hcr⟩ := latches_attach.mp hlat
    refine Linked.of_frame (Linked.setClient ?_ rfl) hf
    rw [attachLatch_free hatt]
    exact ⟨rfl, fun _ => ⟨c, rfl⟩, fun d hd => absurd hd (by simp [h.free hatt d]),
      fun e => absurd e (by simp [hcr])⟩
  | @attach c pid os _ hlat _ _ =>
    obtain ⟨hact, hatt, hcr⟩ := latches_attach.mp hlat
    exact h.attachedTo hact hatt hcr pid os.dbgfd

end Ps5Debugger

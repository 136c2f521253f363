import Ps5Debugger.DebugLatch

/-!
# Clients that attach at the same time

`handle_client` takes the pointers `curdbgcli` and `curdbgctx` for the sender of an ATTACH outside
the lock under which the handler then runs. Here the two are steps of their own, in any order
between any clients: `latch` tests the latch and sets the pointers, `handle` is the handler.

The handler never asks whose pointers it finds. It attaches its own client exactly when the last
latch that took effect is that client's (`attach_not_crossed`); a second client that latches in
between gets the session of the first (`second_latch_crosses`).
-/

namespace Ps5Debugger

open Lib

/-! ## The two steps of an ATTACH -/

/-- The steps of `handle_client` on an ATTACH packet, and every other step of the server. -/
inductive RaceEvent where
  | other (e : Event)
  | latch (c : ClientId)
  | handle (c : ClientId) (data : Option UInt32) (os : AttachOs) (close : TeardownOs)

/-- The server, the clients between their latch and their handler, and the client whose latch
took effect last: none at the start and after a session has ended. -/
structure Race where
  server : ServerState
  pending : ClientId → Bool
  latchedBy : Option ClientId

def Race.init (mem : UInt32 → TargetMem) : Race := ⟨ServerState.init mem, fun _ => false, none⟩

/-- The client whose thread makes a step. -/
def Event.sender : Event → Option ClientId
  | .connect _ => none
  | .command c _ _ | .pump c _ _ | .disconnect c _ => some c

def Event.isAttach : Event → Bool
  | .command _ p _ => p.isAttach
  | _ => false

/-- Which steps can be made: a client that has latched goes on with its handler, and no ATTACH is
made as a whole. -/
def Race.enabled (r : Race) : RaceEvent → Bool
  | .other e => !e.isAttach && e.sender.all fun c => !r.pending c
  | .latch c => (r.server.clients c).active && !r.pending c && !r.server.crashed
  | .handle c _ _ _ => (r.server.clients c).active && r.pending c && !r.server.crashed

def Race.outcome (r : Race) (e : RaceEvent) : Outcome :=
  if r.enabled e then
    match e with
    | .other e => serve r.server e
    | .latch c => { server := attachLatch r.server c }
    | .handle c data os close => (debugAttachHandle r.server data os).closing c close
  else { server := r.server }

def Race.step (r : Race) (e : RaceEvent) : Race where
  server := (r.outcome e).server
  pending :=
    match e with
    | .latch c => if r.enabled e then Function.update r.pending c true else r.pending
    | .handle c _ _ _ => if r.enabled e then Function.update r.pending c false else r.pending
    | .other _ => r.pending
  latchedBy :=
    if r.server.attached && !(r.outcome e).server.attached then none
    else match e with
    | .latch c => if r.enabled e && !r.server.attached then some c else r.latchedBy
    | _ => r.latchedBy

/-- A handler that finds the latch free is that of the client whose latch took effect last. -/
def Race.own (r : Race) : RaceEvent → Bool
  | .handle c _ _ _ => r.server.attached || r.latchedBy == some c
  | _ => true

/-! ## The invariant -/

/-- The links hold, and the pointers are those of the last latch that took effect. -/
structure RaceInv (r : Race) : Prop where
  linked : Linked r.server
  owner : r.server.curdbgcli = r.latchedBy

variable {r : Race}

@[simp] theorem step_server (r : Race) (e : RaceEvent) : (r.step e).server = (r.outcome e).server := rfl

/-- The pointers of the handler's own client are what the latch would set. -/
theorem attachLatch_own (h : RaceInv r) {c : ClientId} {data : Option UInt32} {os : AttachOs}
    {close : TeardownOs} (hown : r.own (.handle c data os close) = true) :
    attachLatch r.server c = r.server := by
  cases hatt : r.server.attached with
  | true => exact attachLatch_held hatt c
  | false =>
    have hl : r.latchedBy = some c := by simpa [Race.own, hatt] using hown
    have hcli := h.owner.trans hl
    have hctx := h.linked.same.trans hcli
    rw [attachLatch_free hatt, ← hcli]
    exact ServerState.ext rfl rfl rfl (hcli.trans hctx.symm) rfl rfl

/-- Then the handler is the whole packet. -/
theorem outcome_handle (h : RaceInv r) {c : ClientId} {data : Option UInt32} {os : AttachOs}
    {close : TeardownOs} (hen : r.enabled (.handle c data os close) = true)
    (hown : r.own (.handle c data os close) = true) :
    r.outcome (.handle c data os close) = serve r.server (.command c (.attach data os) close) := by
  obtain ⟨⟨hact, _⟩, hcr⟩ : ((r.server.clients c).active = true ∧ r.pending c = true) ∧
      r.server.crashed = false := by simpa [Race.enabled] using hen
  rw [serve_command hcr hact, latched_attach, attachLatch_own h hown]
  simp only [Race.outcome, hen, if_true]
  rfl

theorem RaceInv.idle (h : RaceInv r) {e : RaceEvent} (hen : r.enabled e = false) :
    RaceInv (r.step e) := by
  have ho : (r.outcome e).server = r.server := by simp [Race.outcome, hen]
  refine ⟨by rw [step_server, ho]; exact h.linked, ?_⟩
  cases e with
  | other e => simp [Race.step, ho, h.owner]
  | latch c => simp [Race.step, ho, hen, h.owner]
  | handle c data os close => simp [Race.step, ho, h.owner]

/-- A step of the server that takes no pointers. -/
theorem RaceInv.serve (h : RaceInv r) {e : Event} (hat : e.isAttach = false)
    (hen : r.enabled (.other e) = true) : RaceInv (r.step (.other e)) := by
  have hl : e.latches r.server = false := by
    cases e <;> simp_all [Event.latches, Event.isAttach]
  have hs := serve_links h.linked e
  have ho : r.outcome (.other e) = Ps5Debugger.serve r.server e := by simp [Race.outcome, hen]
  refine ⟨by rw [step_server, ho]; exact h.linked.step hs, ?_⟩
  simp only [Race.step, ho]
  generalize (Ps5Debugger.serve r.server e).server = t at hs
  cases hs with
  | stay _ hf => simp [hf.attached, hf.cli, h.owner]
  | accept _ => simp [h.owner]
  | close _ _ hf => simp [hf.attached, hf.cli, h.owner]
  | finish _ hatt hf => simp [hatt, hf.attached, hf.cli]
  | leave _ hatt _ hf => simp [hatt, hf.attached, hf.cli]
  | refuse _ _ _ => cases hat
  | strand _ _ _ _ => cases hat
  | attach _ _ _ => cases hat

theorem RaceInv.latch (h : RaceInv r) {c : ClientId} (hen : r.enabled (.latch c) = true) :
    RaceInv (r.step (.latch c)) := by
  have ho : (r.outcome (.latch c)).server = attachLatch r.server c := by simp [Race.outcome, hen]
  refine ⟨by rw [step_server, ho]; exact h.linked.attachLatch c, ?_⟩
  simp only [Race.step, ho, hen]
  cases hatt : r.server.attached with
  | true => simp [attachLatch_held hatt, hatt, h.owner]
  | false => simp [attachLatch_free hatt]

theorem RaceInv.handle (h : RaceInv r) {c : ClientId} {data : Option UInt32} {os : AttachOs}
    {close : TeardownOs} (hen : r.enabled (.handle c data os close) = true)
    (hown : r.own (.handle c data os close) = true) : RaceInv (r.step (.handle c data os close)) := by
  have hs := serve_links h.linked (.command c (.attach data os) close)
  have ho := outcome_handle h hen hown
  have hl := attachLatch_own h hown
  refine ⟨by rw [step_server, ho]; exact h.linked.step hs, ?_⟩
  simp only [Race.step, ho]
  generalize (Ps5Debugger.serve r.server (.command c (.attach data os) close)).server = t at hs
  cases hs with
  | stay _ hf => simp [hf.attached, hf.cli, h.owner]
  | close _ _ hf => simp [hf.attached, hf.cli, h.owner]
  | finish _ hatt hf => simp [hatt, hf.attached, hf.cli]
  | leave _ hatt _ hf => simp [hatt, hf.attached, hf.cli]
  | refuse hlat _ hf => simp [(latches_attach.mp hlat).2.1, hf.cli, hl, h.owner]
  | strand hlat _ _ hf => simp [(latches_attach.mp hlat).2.1, hf.cli, hl, h.owner]
  | attach hlat _ _ => simp [(latches_attach.mp hlat).2.1, ServerState.attachedTo, hl, h.owner]

theorem RaceInv.step (h : RaceInv r) {e : RaceEvent} (hown : r.own e = true) : RaceInv (r.step e) := by
  cases hen : r.enabled e with
  | false => exact h.idle hen
  | true =>
    cases e with
    | other e =>
      have hat : e.isAttach = false := by
        simp only [Race.enabled, Bool.and_eq_true, Bool.not_eq_true'] at hen
        exact hen.1
      exact h.serve hat hen
    | latch c => exact h.latch hen
    | handle c data os close => exact h.handle hen hown

/-! ## Sessions are not crossed -/

/-- What an ATTACH of client `c` that is answered with success has to leave. -/
def Race.Uncrossed (r : Race) : RaceEvent → Prop
  | .handle c data os close =>
    let o := r.outcome (.handle c data os close)
    o.replies = [CMD_SUCCESS] →
      o.server.curdbgcli = some c ∧ o.server.curdbgctx = some c ∧
      (∀ d, (o.server.clients d).debugging = true ↔ d = c) ∧
      o.effects = [.openEvents (r.server.clients c).clientAddr]
  | _ => True

theorem RaceInv.uncrossed (h : RaceInv r) {e : RaceEvent} (hown : r.own e = true) : r.Uncrossed e := by
  cases e with
  | other e => trivial
  | latch c => trivial
  | handle c data os close =>
    intro hrep
    cases hen : r.enabled (.handle c data os close) with
    | false =>
      have ho : r.outcome (.handle c data os close) = { server := r.server } := by
        simp [Race.outcome, hen]
      rw [ho] at hrep
      cases hrep
    | true =>
      have ho : r.outcome (.handle c data os close) =
          (debugAttachHandle r.server data os).closing c close := by
        simp only [Race.outcome, hen, if_true]
      rw [ho, closing_replies] at hrep
      have hatt : r.server.attached = false := by
        by_contra hne
        rw [debugAttachHandle_attached (by simpa using hne)] at hrep
        exact absurd hrep (by simp [Outcome.answer]; decide)
      have hcli : r.server.curdbgcli = some c := by
        rw [h.owner]
        simpa [Race.own, hatt] using hown
      have hctx := h.linked.same.trans hcli
      rcases debugAttachHandle_cases hatt hctx data os with
        ⟨ho', _⟩ | ⟨_, _, ho'⟩ | ⟨pid, rfl, _, _, hs, hrc, heff, _⟩
      · exact absurd hrep ho'.replies
      · exact absurd hrep ho'.replies
      · rw [enter_spec r.server c os.dbgfd pid hcli] at hs
        rw [ho, Outcome.closing, if_neg (by simp [hrc]), hs, heff]
        refine ⟨hcli, hctx, fun d => ?_, ?_⟩
        · by_cases hd : d = c
          · subst hd
            simp
          · rw [setClient_ne _ _ _ hd]
            exact iff_of_false (by simp [h.linked.free hatt d]) hd
        · simp [ServerState.eventAddr, hcli]

/-- **Two clients cannot cross sessions** when every handler that finds the latch free runs for
the client whose latch took effect last: after an ATTACH of `c` that is answered with success the
pointers are those of `c`, `c` and nobody else is debugging, and the event channel was opened to
the address of `c`. -/
theorem attach_not_crossed (mem : UInt32 → TargetMem) (evs : List RaceEvent)
    (hok : Along Race.step (fun r e => r.own e = true) (Race.init mem) evs) :
    Along Race.step Race.Uncrossed (Race.init mem) evs :=
  Along.of_invariant RaceInv (fun _ _ h hown => ⟨h.step hown, h.uncrossed hown⟩) evs
    ⟨linked_init mem, rfl⟩ hok

theorem attach_not_crossed_in_turn :
    let evs := [.other (.connect 1), .other (.connect 2), .latch 0,
      .handle 0 (some 7) attachOk quietTarget, .latch 1, .handle 1 (some 9) attachOk quietTarget,
      .other (.disconnect 0 quietTarget), .other (.connect 3), .latch 0,
      .handle 0 (some 9) attachOk quietTarget]
    Along Race.step (fun r e => r.own e = true) (Race.init fun _ _ => none) evs ∧
      Along Race.step Race.Uncrossed (Race.init fun _ _ => none) evs :=
  ⟨by decide, attach_not_crossed _ _ (by decide)⟩

/-- The latch of client 1 lands between latch and handler of client 0. The ATTACH of client 0 is
answered with success; debugging, with its event channel, is client 1. -/
theorem second_latch_crosses :
    let evs := [.other (.connect 1), .other (.connect 2), .latch 0, .latch 1]
    let r := evs.foldl Race.step (Race.init fun _ _ => none)
    let o := r.outcome (.handle 0 (some 7) attachOk quietTarget)
    o.replies = [CMD_SUCCESS] ∧ o.server.curdbgcli = some 1 ∧
      (o.server.clients 0).debugging = false ∧ (o.server.clients 1).debugging = true ∧
      ¬ r.Uncrossed (.handle 0 (some 7) attachOk quietTarget) := by
  intro evs r o
  have hrep : o.replies = [CMD_SUCCESS] := by decide
  have hcli : o.server.curdbgcli = some 1 := by decide
  refine ⟨hrep, hcli, by decide, by decide, ?_⟩
  intro hunc
  have hzero := (hunc hrep).1
  rw [hcli] at hzero
  cases hzero

end Ps5Debugger

import Ps5Debugger.DebugAttachRace

/-!
# What a successful attach means to the client

`DebuggerRpcService.attach` returns `true` on two status words, `CMD_SUCCESS` and
`CMD_ALREADY_DEBUG`. The server sends the second when some session exists, whosever it is, and
closes the connection it was sent on: the caller then believes in a session it does not own, over
a connection it no longer has (`already_debug_never_owns`). On the first the caller owns the
session if the handler ran for the client whose latch took effect last (`attach_true_owns`).
-/

namespace Ps5Debugger

open Lib

/-! ## The client's side -/

/-- `DebuggerRpcService.attach`: what the call returns on the status words the server sent, `none`
if none arrives. -/
def attachReturns (replies : List UInt32) : Option Bool :=
  replies.head?.map fun status => status == CMD_SUCCESS || status == CMD_ALREADY_DEBUG

/-- The session is attached to `pid` and belongs to client `c`, which is still connected. -/
structure ServerState.OwnedBy (s : ServerState) (c : ClientId) (pid : UInt32) : Prop where
  attached : s.attached = true
  cli : s.curdbgcli = some c
  ctx : s.curdbgctx = some c
  pid : (s.clients c).dbgctx.pid = pid
  active : (s.clients c).active = true

/-- What is claimed of a step: an attach call for `pid` that returns `true` after it owns the
session. -/
def Race.Owns (r : Race) : RaceEvent → Prop
  | .handle c data os close =>
    let o := r.outcome (.handle c data os close)
    attachReturns o.replies = some true → ∃ pid, data = some pid ∧ o.server.OwnedBy c pid
  | _ => True

/-- A handler that runs while the latch is free, for the client whose latch took effect last. -/
def Race.free (r : Race) : RaceEvent → Bool
  | .handle c data os close =>
    !r.enabled (.handle c data os close) || (!r.server.attached && r.latchedBy == some c)
  | _ => true

variable {r : Race} {c : ClientId}

/-- A step that cannot be made changes nothing and answers nothing. -/
theorem outcome_of_disabled {e : RaceEvent} (hen : r.enabled e = false) :
    r.outcome e = { server := r.server } := by
  simp [Race.outcome, hen]

/-- A handler that finds the latch free never sends `CMD_ALREADY_DEBUG`. -/
theorem attachReturns_free {s : ServerState} (hatt : s.attached = false) {data : Option UInt32}
    {os : AttachOs} (hret : attachReturns (debugAttachHandle s data os).replies = some true) :
    (debugAttachHandle s data os).replies = [CMD_SUCCESS] := by
  have hfails {t : ServerState} {code : UInt32} {rc : Bool} (hcode : attachReturns [code] = some false) :
      attachReturns (Outcome.answer t code rc).replies ≠ some true := by
    rw [Outcome.answer, hcode]
    decide
  unfold debugAttachHandle at hret ⊢
  rw [hatt, if_neg Bool.false_ne_true] at hret ⊢
  cases data with
  | none => exact absurd hret (hfails rfl)
  | some pid =>
    dsimp only at hret ⊢
    split at hret
    · exact absurd hret (hfails rfl)
    split at hret
    · exact absurd hret (hfails rfl)
    split at hret
    · exact absurd hret (hfails rfl)
    split at hret
    · exact absurd hret (hfails rfl)
    rename_i h₁ h₂ h₃ h₄
    rw [if_neg h₁, if_neg h₂, if_neg h₃, if_neg h₄]
    unfold deref at hret ⊢
    cases hctx : s.curdbgctx with
    | none =>
      rw [hctx] at hret
      cases hret
    | some c =>
      rw [hctx] at hret
      dsimp only at hret ⊢
      split at hret
      · exact absurd hret (hfails rfl)
      · next hch =>
        rw [if_neg hch]
        rfl

/-! ## Who owns the session -/

theorem attachedTo_ownedBy {s : ServerState} (hact : (s.clients c).active = true)
    (hatt : s.attached = false) (pid : UInt32) (fd : Int) : (s.attachedTo c pid fd).OwnedBy c pid := by
  rw [ServerState.attachedTo, attachLatch_free hatt]
  exact ⟨rfl, rfl, rfl, by rw [setClient_self], by rw [setClient_self]; exact hact⟩

/-- The whole packet of a client that finds the latch free: if the call returns `true`, it is the
owner. -/
theorem serve_attach_owned {s : ServerState} (h : Linked s) {data : Option UInt32} {os : AttachOs}
    {close : TeardownOs} (hlat : (Event.command c (.attach data os) close).latches s = true)
    (hret : attachReturns (serve s (.command c (.attach data os) close)).replies = some true) :
    ∃ pid, data = some pid ∧ (serve s (.command c (.attach data os) close)).server.OwnedBy c pid := by
  obtain ⟨hact, hatt, hcr⟩ := latches_attach.mp hlat
  have hrep : (serve s (.command c (.attach data os) close)).replies = [CMD_SUCCESS] := by
    rw [serve_command hcr hact, closing_replies, latched_attach] at hret ⊢
    exact attachReturns_free (by rw [attachLatch_free hatt]; exact hatt) hret
  obtain ⟨hdata, htr, hch⟩ := (attach_replies hlat).mp hrep
  have hs := serve_links h (.command c (.attach data os) close)
  generalize (serve s (.command c (.attach data os) close)).server = t at hs
  cases hs with
  | stay hl _ | close hl _ _ | finish hl _ _ | leave hl _ _ _ =>
    rw [hlat] at hl
    cases hl
  | refuse _ hwhy _ =>
    rcases hwhy with hnone | hno
    · exact absurd hnone hdata
    · rw [htr] at hno
      cases hno
  | strand _ _ hno _ =>
    rw [hch] at hno
    cases hno
  | @attach _ pid _ _ _ _ _ => exact ⟨pid, rfl, attachedTo_ownedBy hact hatt pid os.dbgfd⟩

/-- A handler that is free to attach, and answers with success, leaves its client the owner. -/
theorem RaceInv.owns (h : RaceInv r) {e : RaceEvent} (hfree : r.free e = true) : r.Owns e := by
  cases e with
  | other e => trivial
  | latch c => trivial
  | handle c data os close =>
    intro hret
    cases hen : r.enabled (.handle c data os close) with
    | false =>
      rw [outcome_of_disabled hen] at hret
      cases hret
    | true =>
      obtain ⟨hatt, hl⟩ : r.server.attached = false ∧ r.latchedBy = some c := by
        simpa [Race.free, hen] using hfree
      obtain ⟨⟨hact, _⟩, hcr⟩ : ((r.server.clients c).active = true ∧ r.pending c = true) ∧
          r.server.crashed = false := by simpa [Race.enabled] using hen
      rw [outcome_handle h hen (by simp [Race.own, hl])] at hret ⊢
      exact serve_attach_owned h.linked (latches_attach.mpr ⟨hact, hatt, hcr⟩) hret

/-- What is free to attach runs on its own client's pointers. -/
theorem RaceInv.free_step (h : RaceInv r) {e : RaceEvent} (hfree : r.free e = true) :
    RaceInv (r.step e) := by
  cases hen : r.enabled e with
  | false => exact h.idle hen
  | true =>
    refine h.step ?_
    cases e with
    | other e => rfl
    | latch c => rfl
    | handle c data os close =>
      have hl : r.server.attached = false ∧ r.latchedBy = some c := by
        simpa [Race.free, hen] using hfree
      simp [Race.own, hl.2]

/-- **Ownership.** In every run of attaches, detaches and all other steps of any clients in which
each handler finds the latch free and runs for the client whose latch took effect last, an attach
that returns `true` leaves its caller connected and the owner of a session with the pid it named. -/
theorem attach_true_owns (mem : UInt32 → TargetMem) (evs : List RaceEvent)
    (hok : Along Race.step (fun r e => r.free e = true) (Race.init mem) evs) :
    Along Race.step Race.Owns (Race.init mem) evs :=
  Along.of_invariant RaceInv (fun _ _ h hfree => ⟨h.free_step hfree, h.owns hfree⟩) evs
    ⟨linked_init mem, rfl⟩ hok

/-- Client 0 attaches and detaches, then client 1 attaches. -/
theorem attach_true_owns_in_turn :
    let evs := [.other (.connect 1), .other (.connect 2), .latch 0,
      .handle 0 (some 7) attachOk quietTarget,
      .other (.command 0 (.detach quietTarget) quietTarget), .latch 1,
      .handle 1 (some 9) attachOk quietTarget]
    Along Race.step (fun r e => r.free e = true) (Race.init fun _ _ => none) evs ∧
      Along Race.step Race.Owns (Race.init fun _ _ => none) evs :=
  ⟨by decide, attach_true_owns _ _ (by decide)⟩

/-! ## `CMD_ALREADY_DEBUG` -/

theorem freeClient_inactive (s : ServerState) (c : ClientId) (os : TeardownOs) :
    ((freeClient s c os).1.clients c).active = false := by
  rw [freeClient, setClient_self]
  rfl

/-- A handler that finds the latch set makes the call return `true` and closes its connection:
whoever holds the session, the caller does not own it. -/
theorem already_debug_never_owns (h : Linked r.server) (data : Option UInt32) (os : AttachOs)
    (close : TeardownOs) (hen : r.enabled (.handle c data os close) = true)
    (hatt : r.server.attached = true) :
    attachReturns (r.outcome (.handle c data os close)).replies = some true ∧
      ((r.outcome (.handle c data os close)).server.clients c).active = false ∧
      ¬ r.Owns (.handle c data os close) := by
  have ho : r.outcome (.handle c data os close) =
      (Outcome.answer r.server CMD_ALREADY_DEBUG true).closing c close := by
    simp only [Race.outcome, hen, if_true, debugAttachHandle_attached hatt]
  have hcr : r.server.crashed = false := by
    by_contra hne
    rw [h.down (by simpa using hne)] at hatt
    cases hatt
  have hret : attachReturns (r.outcome (.handle c data os close)).replies = some true := by
    rw [ho, closing_replies]
    rfl
  have hgone : ((r.outcome (.handle c data os close)).server.clients c).active = false := by
    rw [ho, Outcome.closing, if_pos ⟨rfl, hcr⟩]
    exact freeClient_inactive _ c close
  refine ⟨hret, hgone, fun howns => ?_⟩
  obtain ⟨pid, _, hown⟩ := howns hret
  rw [hown.active] at hgone
  cases hgone

/-- Client 0 debugs process 7. Client 1 asks for process 9, is told `true`, and is disconnected. -/
theorem attach_true_without_session :
    ¬ ∀ (mem : UInt32 → TargetMem) (evs : List RaceEvent),
      Along Race.step Race.Owns (Race.init mem) evs := by
  intro h
  have howns := (h (fun _ _ => none) [.other (.connect 1), .other (.connect 2), .latch 0,
    .handle 0 (some 7) attachOk quietTarget, .latch 1,
    .handle 1 (some 9) attachOk quietTarget]).2.2.2.2.2.1
  obtain ⟨pid, _, hown⟩ := howns (by decide)
  have hcli := hown.cli
  revert hcli
  decide

end Ps5Debugger

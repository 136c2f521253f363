import Ps5Debugger.DebugRegisters

/-!
# Register commands and the run state

Every register command should leave the target as it found it: running if it ran, stopped if it was
stopped. Whether it does depends on three things the handlers get wrong or cannot know: the error
exit of GETDBREGS forgets to resume, SETDBREGS always continues the target, and
`is_process_stopped` only sees a stop that has not been reported yet, so a target that was stopped
by an earlier command is "stopped" and resumed once more.

`run_state_kept_iff` says exactly, for each command and every answer of the system, when the run
state survives.
-/

namespace Ps5Debugger

open Lib

/-! ## The commands -/

/-- A register command with its body, what the client sends behind it, and what the system
answers. -/
inductive RegCommand where
  | getfpregs (data : Option UInt32) (os : RegOs)
  | setfpregs (data : Option SetregPacket) (stream : List Byte) (os : RegOs)
  | getdbregs (data : Option UInt32) (fw : Bool) (os : RegOs)
  | setdbregs (data : Option SetregPacket) (stream : List Byte) (raw : Blob .dbregs) (continues : Bool)
      (os : RegOs)
  | getfsgsbase (data : Option UInt32) (os : RegOs)
  | setfsgsbase (data : Option SetregPacket) (stream : List Byte) (os : RegOs)
  | getThreadList (os : Tracee.ListOs)
  | setWatchpoint (data : Option WatchptPacket) (elev : Bool) (os : Tracee.ListOs) (loads : Bool)

/-- The handler behind a command. -/
def RegCommand.handle (t : Tracee) : RegCommand → RegOutcome
  | .getfpregs data os => t.debugGetfpregsHandle data os
  | .setfpregs data stream os => t.debugSetfpregsHandle data stream os
  | .getdbregs data fw os => t.debugGetdbregsHandle data fw os
  | .setdbregs data stream raw continues os => t.debugSetdbregsHandle data stream raw continues os
  | .getfsgsbase data os => t.debugGetfsgsbaseHandle data os
  | .setfsgsbase data stream os => t.debugSetfsgsbaseHandle data stream os
  | .getThreadList os => t.debugGetThreadListHandle os
  | .setWatchpoint data elev os loads => t.debugSetWatchpointHandle data elev os loads

/-! ## When the run state survives -/

/-- `is_process_stopped` answers yes: there is an unreported stop by signal 17. -/
def RunState.seen (r : RunState) (os : StopOs) : Prop := os.waits = true ∧ r.report = some 17

/-- Stopping and resuming: a target that runs has to be set going again if it was stopped, one that
is stopped must not be. -/
def RunState.bracketed (r : RunState) (os : StopOs) : Prop :=
  r.seen os ∨ if r.running then os.kills = true → os.resumes = true else os.resumes = false

/-- Stopping without resuming. -/
def RunState.leftStopped (r : RunState) (os : StopOs) : Prop :=
  r.seen os ∨ (r.running = true → os.kills = false)

/-- The body of a writing command came in full. -/
def SetregPacket.received (sp : SetregPacket) (stream : List Byte) : Prop :=
  sp.length.toNat ≤ stream.length

/-- The lists that find the target running. -/
def RunState.listed (r : RunState) (os : Tracee.ListOs) : Prop :=
  os.count = .error Tracee.EBUSY →
    if r.running then os.kills = true → os.resumes = true else os.resumes = false

/-- GETDBREGS is refused by the kernel, by memory or by ptrace. -/
def Tracee.dbregsRefused (t : Tracee) (lwpid : UInt32) (fw : Bool) (os : RegOs) : Bool :=
  if fw then !t.kernThread lwpid os.kern else os.ptrace.refused

/-- **The condition of a command**, on the target before it and the answers of the system. A command
that is turned away has none. -/
def RegCommand.safe (t : Tracee) : RegCommand → Prop
  | .getfpregs data os | .getfsgsbase data os => data ≠ none → t.run.bracketed os.stop
  | .setfpregs data stream os => ∀ sp ∈ data, sp.length.toNat ≤ RegSet.size .fpregs →
      sp.received stream → t.run.bracketed os.stop
  | .setfsgsbase data stream os => ∀ sp ∈ data, sp.length.toNat = RegSet.size .fsgsbase →
      sp.received stream → t.run.bracketed os.stop
  | .getdbregs data fw os => ∀ lwpid ∈ data,
      if t.dbregsRefused lwpid fw os then t.run.leftStopped os.stop else t.run.bracketed os.stop
  | .setdbregs data _ _ continues os => data ≠ none →
      if os.ptrace.refused then
        if t.run.running then os.stop.kills = false else continues = true → os.stop.kills = true
      else if t.run.running then os.stop.kills = true → os.stop.resumes = true
      else os.stop.resumes = false ∧ (continues = true → os.stop.kills = true)
  | .getThreadList os => t.run.listed os
  | .setWatchpoint data elev os _ => ∀ wp ∈ data, wp.index ≤ 3 → elev = true → t.run.listed os

section Lemmas

variable (r : RunState) (b : Bool)

@[simp] theorem waited_running : r.waited.running = r.running := rfl

@[simp] theorem wait4Timeout_running : (r.wait4Timeout b).running = r.running := by
  cases b <;> rfl

@[simp] theorem sigstop_running : (r.sigstop b).running = (!b && r.running) := by
  cases b <;> rfl

@[simp] theorem continued_running : (r.continued b).running = (b || r.running) := by
  cases b <;> rfl

theorem isProcessStopped_running (waits : Bool) : (r.isProcessStopped waits).2.running = r.running := by
  cases waits <;> rfl

end Lemmas

section Bracket

variable {r : RunState} {os : StopOs}

theorem isProcessStopped_iff : (r.isProcessStopped os.waits).1 = true ↔ r.seen os := by
  rw [RunState.isProcessStopped, RunState.seen]
  cases os.waits with
  | true => simp
  | false => simp

/-- The target after `if (is_process_stopped(pid) == 0) …`. -/
theorem stopped_of_seen (h : r.seen os) : r.stopped os = (r.waited, false) := by
  have hp : r.isProcessStopped os.waits = (true, r.waited) := by
    rw [RunState.isProcessStopped, if_pos h.1, h.2]
    rfl
  rw [RunState.stopped, hp]
  rfl

theorem stopped_of_unseen (h : ¬ r.seen os) : (r.stopped os).2 = true ∧
    (r.stopped os).1.running = (!os.kills && r.running) := by
  have hp : (r.isProcessStopped os.waits).1 = false := by
    rw [← Bool.not_eq_true, isProcessStopped_iff]
    exact h
  rw [RunState.stopped]
  simp only [hp, Bool.false_eq_true, if_false, wait4Timeout_running, sigstop_running,
    isProcessStopped_running, and_self]

/-- **Stop and resume** keep the run state exactly under `bracketed`. -/
theorem resumed_running_iff :
    ((r.stopped os).1.resumed (r.stopped os).2 os).running = r.running ↔ r.bracketed os := by
  by_cases h : r.seen os
  · rw [stopped_of_seen h]
    exact iff_of_true rfl (.inl h)
  · obtain ⟨hwe, hrun⟩ := stopped_of_unseen h
    rw [RunState.resumed, hwe, if_pos rfl, continued_running, hrun, RunState.bracketed, or_iff_right h]
    cases os.kills <;> cases os.resumes <;> cases r.running <;> decide

/-- Stopping alone keeps it exactly under `leftStopped`. -/
theorem stopped_running_iff : (r.stopped os).1.running = r.running ↔ r.leftStopped os := by
  by_cases h : r.seen os
  · rw [stopped_of_seen h]
    exact iff_of_true rfl (.inl h)
  · obtain ⟨_, hrun⟩ := stopped_of_unseen h
    rw [hrun, RunState.leftStopped, or_iff_right h]
    cases os.kills <;> cases r.running <;> decide

end Bracket

/-! ## Command by command -/

section Commands

variable (t : Tracee)

@[simp] theorem setRun_run (r : RunState) : (t.setRun r).run = r := rfl

@[simp] theorem setRegs_run (k : RegSet) (lwp : UInt32) (b : Blob k) : (t.setRegs k lwp b).run = t.run := rfl

@[simp] theorem ptraceSet_run (k : RegSet) (id : UInt32) (res : PtraceRes) (buf : Blob k) :
    (t.ptraceSet k id res buf).run = t.run := by
  unfold Tracee.ptraceSet
  split <;> rfl

variable {t}

/-- A command that stops and resumes the target if it gets that far. -/
theorem running_iff_of_reached {o : RegOutcome} {os : StopOs} {P : Prop}
    (hyes : P → o.tracee.run = (t.run.stopped os).1.resumed (t.run.stopped os).2 os)
    (hno : ¬ P → o.tracee.run = t.run) :
    o.tracee.run.running = t.run.running ↔ (P → t.run.bracketed os) := by
  by_cases hP : P
  · rw [hyes hP, resumed_running_iff]
    exact ⟨fun h _ => h, fun h => h hP⟩
  · rw [hno hP]
    exact iff_of_true rfl fun h => absurd h hP

theorem getfpregs_running_iff (data : Option UInt32) (os : RegOs) :
    (t.debugGetfpregsHandle data os).tracee.run.running = t.run.running ↔
      (data ≠ none → t.run.bracketed os.stop) := by
  refine running_iff_of_reached (fun h => ?_) fun h => ?_
  · obtain ⟨lwpid, rfl⟩ := Option.ne_none_iff_exists'.mp h
    unfold Tracee.debugGetfpregsHandle
    dsimp only
    split <;> rfl
  · rw [not_not.mp h]
    rfl

theorem getfsgsbase_running_iff (data : Option UInt32) (os : RegOs) :
    (t.debugGetfsgsbaseHandle data os).tracee.run.running = t.run.running ↔
      (data ≠ none → t.run.bracketed os.stop) := by
  refine running_iff_of_reached (fun h => ?_) fun h => ?_
  · obtain ⟨lwpid, rfl⟩ := Option.ne_none_iff_exists'.mp h
    unfold Tracee.debugGetfsgsbaseHandle
    dsimp only
    split <;> rfl
  · rw [not_not.mp h]
    rfl

/-- A length that the handlers accept is received as it stands. -/
theorem recvLen_toNat {sp : SetregPacket} (h : sp.length.toNat < 2 ^ 31) :
    sp.recvLen.toNat = sp.length.toNat := by
  have hlt : 2 * sp.length.toBitVec.toNat < 2 ^ 32 := by
    rw [UInt32.toNat_toBitVec]
    omega
  show sp.length.toBitVec.toInt.toNat = _
  rw [BitVec.toInt_eq_toNat_of_lt hlt, Int.toNat_natCast, UInt32.toNat_toBitVec]

theorem recv_ok_iff {sp : SetregPacket} (h : sp.length.toNat < 2 ^ 31) (stream : List Byte) :
    (netRecvAll stream sp.recvLen).ok = true ↔ sp.received stream := by
  rw [netRecvAll_eq, recvLen_toNat h, SetregPacket.received, decide_eq_true_iff]

theorem setfpregs_running_iff (data : Option SetregPacket) (stream : List Byte) (os : RegOs) :
    (t.debugSetfpregsHandle data stream os).tracee.run.running = t.run.running ↔
      (∀ sp ∈ data, sp.length.toNat ≤ RegSet.size .fpregs → sp.received stream →
        t.run.bracketed os.stop) := by
  cases data with
  | none => exact iff_of_true rfl nofun
  | some sp =>
    simp only [Option.mem_some_iff, forall_eq']
    rw [← and_imp]
    refine running_iff_of_reached (fun h => ?_) fun h => ?_
    · have hok := (recv_ok_iff (Nat.lt_of_le_of_lt h.1 (by decide)) stream).mpr h.2
      unfold Tracee.debugSetfpregsHandle
      dsimp only
      rw [if_neg (Nat.not_lt.mpr h.1), if_neg (by rw [hok]; decide)]
      rfl
    · unfold Tracee.debugSetfpregsHandle
      dsimp only
      by_cases hlen : sp.length.toNat ≤ RegSet.size .fpregs
      · have hfail : (netRecvAll stream sp.recvLen).ok = false := by
          rw [← Bool.not_eq_true, recv_ok_iff (Nat.lt_of_le_of_lt hlen (by decide))]
          exact fun hr => h ⟨hlen, hr⟩
        rw [if_neg (Nat.not_lt.mpr hlen), if_pos hfail, receiving_tracee, reply_tracee]
      · rw [if_pos (Nat.lt_of_not_le hlen), reply_tracee]

theorem setfsgsbase_running_iff (data : Option SetregPacket) (stream : List Byte) (os : RegOs) :
    (t.debugSetfsgsbaseHandle data stream os).tracee.run.running = t.run.running ↔
      (∀ sp ∈ data, sp.length.toNat = RegSet.size .fsgsbase → sp.received stream →
        t.run.bracketed os.stop) := by
  cases data with
  | none => exact iff_of_true rfl nofun
  | some sp =>
    simp only [Option.mem_some_iff, forall_eq']
    rw [← and_imp]
    refine running_iff_of_reached (fun h => ?_) fun h => ?_
    · have hok := (recv_ok_iff (by rw [h.1]; decide) stream).mpr h.2
      unfold Tracee.debugSetfsgsbaseHandle
      dsimp only
      rw [if_neg (not_not.mpr h.1), if_neg (by rw [hok]; decide)]
      rfl
    · unfold Tracee.debugSetfsgsbaseHandle
      dsimp only
      by_cases hlen : sp.length.toNat = RegSet.size .fsgsbase
      · have hfail : (netRecvAll stream sp.recvLen).ok = false := by
          rw [← Bool.not_eq_true, recv_ok_iff (by rw [hlen]; decide)]
          exact fun hr => h ⟨hlen, hr⟩
        rw [if_neg (not_not.mpr hlen), if_pos hfail, receiving_tracee, reply_tracee]
      · rw [if_pos hlen, reply_tracee]

/-- GETDBREGS: the error exit does not resume. -/
theorem getdbregs_running_iff (data : Option UInt32) (fw : Bool) (os : RegOs) :
    (t.debugGetdbregsHandle data fw os).tracee.run.running = t.run.running ↔
      (∀ lwpid ∈ data, if t.dbregsRefused lwpid fw os then t.run.leftStopped os.stop
        else t.run.bracketed os.stop) := by
  cases data with
  | none => exact iff_of_true rfl nofun
  | some lwpid =>
    simp only [Option.mem_some_iff, forall_eq']
    unfold Tracee.debugGetdbregsHandle
    dsimp only
    rw [← Tracee.dbregsRefused]
    by_cases href : t.dbregsRefused lwpid fw os = true
    · rw [if_pos href, if_pos href, ← stopped_running_iff]
      rfl
    · rw [if_neg href, if_neg href, ← resumed_running_iff]
      rfl

/-- SETDBREGS: continued, stopped, and resumed unless ptrace refuses. -/
theorem setdbregs_running_iff (data : Option SetregPacket) (stream : List Byte) (raw : Blob .dbregs)
    (continues : Bool) (os : RegOs) :
    (t.debugSetdbregsHandle data stream raw continues os).tracee.run.running = t.run.running ↔
      (data ≠ none → if os.ptrace.refused then
        if t.run.running then os.stop.kills = false else continues = true → os.stop.kills = true
      else if t.run.running then os.stop.kills = true → os.stop.resumes = true
      else os.stop.resumes = false ∧ (continues = true → os.stop.kills = true)) := by
  cases data with
  | none => exact iff_of_true rfl fun h => absurd rfl h
  | some sp =>
    rw [forall_prop_of_true (by exact nofun)]
    unfold Tracee.debugSetdbregsHandle
    dsimp only
    by_cases href : os.ptrace.refused = true
    · rw [if_pos href, if_pos href]
      simp only [receiving_tracee, reply_tracee, setRun_run, wait4Timeout_running, sigstop_running, continued_running]
      cases os.stop.kills <;> cases continues <;> cases t.run.running <;> decide
    · rw [if_neg href, if_neg href]
      simp only [receiving_tracee, reply_tracee, setRun_run, wait4Timeout_running, sigstop_running, continued_running]
      cases os.stop.kills <;> cases os.stop.resumes <;> cases continues <;> cases t.run.running <;> decide

/-- The target after a list that finds it running. -/
theorem listed_running_iff (os : Tracee.ListOs) (h : os.count = .error Tracee.EBUSY) :
    ((os.stop t.run).continued os.resumes).running = t.run.running ↔ t.run.listed os := by
  rw [Tracee.ListOs.stop, continued_running, wait4Timeout_running, sigstop_running, RunState.listed,
    forall_prop_of_true h]
  cases os.kills <;> cases os.resumes <;> cases t.run.running <;> decide

theorem listed_of_ne {os : Tracee.ListOs} (h : os.count ≠ .error Tracee.EBUSY) : t.run.listed os :=
  fun hc => absurd hc h

theorem getThreadList_running_iff (os : Tracee.ListOs) :
    (t.debugGetThreadListHandle os).tracee.run.running = t.run.running ↔ t.run.listed os := by
  unfold Tracee.debugGetThreadListHandle
  dsimp only
  cases hc : os.count with
  | ok n =>
    refine iff_of_true ?_ (listed_of_ne (by rw [hc]; exact nofun))
    dsimp only
    split <;> rfl
  | error errno =>
    dsimp only
    by_cases hb : errno = Tracee.EBUSY
    · subst hb
      rw [if_neg (not_not.mpr rfl), ← listed_running_iff os hc]
      split <;> rfl
    · rw [if_pos hb]
      exact iff_of_true rfl (listed_of_ne (by rw [hc]; exact fun h => hb (Except.error.inj h)))

theorem setWatchpoint_running_iff (data : Option WatchptPacket) (elev : Bool) (os : Tracee.ListOs)
    (loads : Bool) :
    (t.debugSetWatchpointHandle data elev os loads).tracee.run.running = t.run.running ↔
      (∀ wp ∈ data, wp.index ≤ 3 → elev = true → t.run.listed os) := by
  cases data with
  | none => exact iff_of_true rfl nofun
  | some wp =>
    simp only [Option.mem_some_iff, forall_eq']
    unfold Tracee.debugSetWatchpointHandle
    dsimp only
    by_cases hi : wp.index ≤ 3
    · rw [if_neg (UInt32.not_lt.mpr hi), forall_prop_of_true hi]
      cases elev with
      | false => exact iff_of_true rfl nofun
      | true =>
        rw [if_neg (by decide), forall_prop_of_true rfl]
        cases hc : os.count with
        | ok n => exact iff_of_true rfl (listed_of_ne (by rw [hc]; exact nofun))
        | error errno =>
          dsimp only
          by_cases hb : errno = Tracee.EBUSY
          · subst hb
            rw [if_neg (not_not.mpr rfl), ← listed_running_iff os hc]
            rfl
          · rw [if_pos hb]
            exact iff_of_true rfl (listed_of_ne (by rw [hc]; exact fun h => hb (Except.error.inj h)))
    · rw [if_pos (UInt32.not_le.mp hi)]
      exact iff_of_true rfl fun h => absurd h hi

end Commands

/-! ## All commands -/

/-- **When a register command preserves the run state.** For every target, every command, every
body and every answer of the system: the target runs after the reply if and only if it ran before,
exactly under the condition of the command. -/
theorem run_state_kept_iff (t : Tracee) (cmd : RegCommand) :
    (cmd.handle t).tracee.run.running = t.run.running ↔ cmd.safe t := by
  cases cmd with
  | getfpregs data os => exact getfpregs_running_iff data os
  | setfpregs data stream os => exact setfpregs_running_iff data stream os
  | getdbregs data fw os => exact getdbregs_running_iff data fw os
  | setdbregs data stream raw continues os => exact setdbregs_running_iff data stream raw continues os
  | getfsgsbase data os => exact getfsgsbase_running_iff data os
  | setfsgsbase data stream os => exact setfsgsbase_running_iff data stream os
  | getThreadList os => exact getThreadList_running_iff os
  | setWatchpoint data elev os loads => exact setWatchpoint_running_iff data elev os loads

/-- A target of one thread, running. -/
def runningTracee : Tracee where
  pid := 7
  first := 100001
  others := []
  pidFree := by decide
  regs := fun k _ => Blob.zero k
  run := ⟨true, none, fun _ => rfl⟩

/-- GETDBREGS of a thread the kernel does not know freezes a running target: it is stopped for the
command, the reply is an error, and nothing resumes it. -/
theorem failed_getdbregs_freezes :
    let cmd : RegCommand := .getdbregs (some 100002) true ⟨⟨true, true, true, true⟩, true, .ok⟩
    runningTracee.run.running = true ∧ (cmd.handle runningTracee).replies = [CMD_ERROR] ∧
      (cmd.handle runningTracee).tracee.run.running = false := by
  decide

end Ps5Debugger

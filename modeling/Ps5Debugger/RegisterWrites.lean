import Ps5Debugger.DebugRunState

/-!
# Register writes and the thread they name

SETREGS and SETFPREGS name a thread, and GETREGS and GETFPREGS read the thread they name. The two
writing handlers give ptrace the id of the process, so their request acts on its first thread;
only a floating-point blob of full length reaches the named thread, through kernel memory. With one
thread all of this is the same.

`register_writes_hit_iff` says when a write that replies success can be read back from the thread it
names and leaves the other threads alone.
-/

namespace Ps5Debugger

open Lib

/-! ## Writing and reading back -/

/-- The two register sets that have a writing and a reading command. -/
inductive RegWrite where
  | setregs
  | setfpregs
  deriving DecidableEq

def RegWrite.set : RegWrite → RegSet
  | .setregs => .regs
  | .setfpregs => .fpregs

/-- The handler that writes; `raw` is what its `buf` held before, as far as it was not cleared. -/
def RegWrite.handle (w : RegWrite) (t : Tracee) (sp : SetregPacket) (stream : List Byte) (raw : Nat → Byte)
    (os : RegOs) : RegOutcome :=
  match w with
  | .setregs => t.debugSetregsHandle (some sp) stream (fun i => raw i) os
  | .setfpregs => t.debugSetfpregsHandle (some sp) stream os

/-- The handler that reads. -/
def RegWrite.read (w : RegWrite) (t : Tracee) (lwpid : UInt32) (os : RegOs) : RegOutcome :=
  match w with
  | .setregs => t.debugGetregsHandle (some lwpid) os
  | .setfpregs => t.debugGetfpregsHandle (some lwpid) os

/-- What the reading handler sends comes from the target: ptrace went through, or for
floating-point registers the kernel's copy was read. -/
def RegWrite.reads (w : RegWrite) (os : RegOs) : Bool :=
  os.ptrace == .ok || (w == .setfpregs && os.kern)

/-- The blob the client sent is at the front of what comes back. -/
def Blob.Shows {k : RegSet} (blob : Blob k) (b : List Byte) : Prop := b <+: blob.bytes

instance {k : RegSet} (blob : Blob k) (b : List Byte) : Decidable (blob.Shows b) :=
  inferInstanceAs (Decidable (b <+: _))

/-- A blob of bytes `b` for a thread, and what the client sends after it. -/
structure WriteReq where
  lwpid : UInt32
  b : List Byte
  rest : List Byte
  /-- its length is a packet field -/
  fits : b.length < 2 ^ 32

def WriteReq.packet (r : WriteReq) : SetregPacket := ⟨r.lwpid, UInt32.ofNat r.b.length⟩

/-- **What a write promises.** If it replies success, the next read of that thread returns the blob,
and no other thread's registers change. -/
structure WriteReq.Hits (r : WriteReq) (w : RegWrite) (t : Tracee) (raw : Nat → Byte) (os : RegOs) : Prop where
  back : (w.handle t r.packet (r.b ++ r.rest) raw os).replies = [CMD_SUCCESS, CMD_SUCCESS] →
    ∀ os', w.reads os' = true →
      r.b <+: (w.read (w.handle t r.packet (r.b ++ r.rest) raw os).tracee r.lwpid os').data
  frame : (w.handle t r.packet (r.b ++ r.rest) raw os).replies = [CMD_SUCCESS, CMD_SUCCESS] →
    ∀ lwp ∈ t.threads, lwp ≠ r.lwpid → ∀ k,
      (w.handle t r.packet (r.b ++ r.rest) raw os).tracee.regs k lwp = t.regs k lwp

/-- The blob that is written: the handler's buffer with the client's bytes in front. -/
def WriteReq.blob (r : WriteReq) (w : RegWrite) (raw : Nat → Byte) : Blob w.set :=
  match w with
  | .setregs => Blob.recv (fun i => raw i) (r.b.take r.packet.recvLen.toNat)
  | .setfpregs => Blob.recv (Blob.zero _) r.b

/-- The write goes to kernel memory: a floating-point blob of full length. -/
def WriteReq.applied (r : WriteReq) (w : RegWrite) (os : RegOs) : Bool :=
  w == .setfpregs && r.b.length == RegSet.size .fpregs && os.kern

/-- **The condition.** The write is turned away or refused; or it goes to kernel memory; or ptrace takes it
and the named thread is the first one; or it changes nothing that it should not: the named thread
holds the blob already, and so does the first thread where ptrace takes the write. -/
def WriteReq.named (r : WriteReq) (w : RegWrite) (t : Tracee) (raw : Nat → Byte) (os : RegOs) : Prop :=
  (w = .setfpregs ∧ RegSet.size .fpregs < r.b.length) ∨ r.applied w os = true ∨ os.ptrace.refused = true ∨
    (os.ptrace = .ok ∧ r.lwpid = t.first ∧ r.b.length ≤ w.set.size) ∨
    (t.regs w.set r.lwpid).Shows r.b ∧ (os.ptrace = .ok → t.regs w.set t.first = r.blob w raw)

/-! ## Blobs -/

section Blobs

variable {k : RegSet} {b : List Byte} {raw : Blob k}

theorem length_blobBytes (b : Blob k) : b.bytes.length = k.size := List.length_ofFn

/-- What was received is at the front of the buffer, if it fits. -/
theorem shows_recv_iff : (raw.recv b).Shows b ↔ b.length ≤ k.size := by
  refine ⟨fun h => ?_, fun h => ?_⟩
  · rw [← length_blobBytes (raw.recv b)]
    exact h.length_le
  · rw [Blob.Shows, List.prefix_iff_eq_take]
    refine List.ext_getElem (by rw [List.length_take, length_blobBytes, min_eq_left h]) fun n hn hn' => ?_
    rw [List.getElem_take]
    simp [Blob.bytes, Blob.recv, hn]

theorem length_le_of_shows {blob : Blob k} (h : blob.Shows b) : b.length ≤ k.size := by
  rw [← length_blobBytes blob]
  exact List.IsPrefix.length_le h

end Blobs

/-! ## Targets -/

section Targets

variable {t : Tracee} {k : RegSet} {lwp : UInt32} {b : Blob k}

/-- A thread's own id names it. -/
theorem thread_of_mem (h : lwp ∈ t.threads) : t.thread lwp = some lwp := by
  have hne : lwp ≠ t.pid := fun heq => t.pidFree (heq ▸ h)
  rw [Tracee.thread, if_neg hne, if_pos h]

/-- The id of the process names the first thread. -/
theorem thread_pid (t : Tracee) : t.thread t.pid = some t.first := if_pos rfl

theorem setRegs_self : (t.setRegs k lwp b).regs k lwp = b := by
  simp only [Tracee.setRegs, Function.update_self]

theorem setRegs_ne {l : UInt32} (h : l ≠ lwp) (k' : RegSet) : (t.setRegs k lwp b).regs k' l = t.regs k' l := by
  by_cases hk : k' = k
  · subst hk
    simp only [Tracee.setRegs, Function.update_self, Function.update_of_ne h]
  · simp only [Tracee.setRegs, Function.update_of_ne hk]

theorem ptraceSet_ok (t : Tracee) (b : Blob k) : t.ptraceSet k t.pid .ok b = t.setRegs k t.first b := by
  unfold Tracee.ptraceSet
  rw [thread_pid]

theorem ptraceSet_fail (t : Tracee) (errno : UInt32) (id : UInt32) (b : Blob k) :
    t.ptraceSet k id (.fail errno) b = t := rfl

theorem ptraceGet_ok (h : lwp ∈ t.threads) (b : Blob k) : t.ptraceGet k lwp .ok b = t.regs k lwp := by
  unfold Tracee.ptraceGet
  rw [thread_of_mem h]

/-- What a reading command sends of a thread of the target. -/
theorem read_data (w : RegWrite) (h : lwp ∈ t.threads) {os : RegOs} (hos : w.reads os = true) :
    (w.read t lwp os).data = (t.regs w.set lwp).bytes := by
  cases w with
  | setregs =>
    have hok : os.ptrace = .ok := by simpa [RegWrite.reads] using hos
    have href : ¬ os.ptrace.refused = true := by rw [hok]; decide
    simp only [RegWrite.read, Tracee.debugGetregsHandle]
    rw [if_neg href, hok, ptraceGet_ok h, reply_data]
    dsimp only [RegWrite.set]
  | setfpregs =>
    simp only [RegWrite.read, Tracee.debugGetfpregsHandle]
    cases hkern : t.kernThread lwp os.kern with
    | true =>
      dsimp only [RegWrite.set]
      rw [Bool.not_true, Bool.false_and, if_neg (by decide), if_pos rfl, reply_data]
    | false =>
      have hk : os.kern = false := by simpa [Tracee.kernThread, h] using hkern
      have hok : os.ptrace = .ok := by simpa [RegWrite.reads, hk] using hos
      have href : os.ptrace.refused = false := by rw [hok]; rfl
      rw [href, hok, if_neg (by decide), if_neg (by decide), ptraceGet_ok h, reply_data]
      dsimp only [RegWrite.set]

end Targets

/-! ## What a write does -/

section Writes

variable {r : WriteReq} {w : RegWrite} {t : Tracee} {raw : Nat → Byte} {os : RegOs}

theorem packet_length (r : WriteReq) : r.packet.length.toNat = r.b.length := by
  have := r.fits
  simp [WriteReq.packet]
  omega

theorem ptraceSet_threads (k : RegSet) (id : UInt32) (res : PtraceRes) (b : Blob k) :
    (t.ptraceSet k id res b).threads = t.threads := by
  unfold Tracee.ptraceSet
  split <;> rfl

/-- SETREGS takes what it receives of the blob. -/
theorem received_setregs (r : WriteReq) : (netRecvAll (r.b ++ r.rest) r.packet.recvLen).got =
    r.b.take r.packet.recvLen.toNat := by
  have hle : r.packet.recvLen.toNat ≤ r.b.length := by
    by_cases h : r.packet.length.toNat < 2 ^ 31
    · rw [recvLen_toNat h, packet_length]
    · have hneg : r.packet.recvLen ≤ 0 := by
        show r.packet.length.toBitVec.toInt ≤ 0
        rw [BitVec.toInt_eq_toNat_cond, if_neg (by rw [UInt32.toNat_toBitVec]; omega)]
        have := r.packet.length.toNat_lt
        rw [UInt32.toNat_toBitVec]
        omega
      omega
  rw [netRecvAll_eq]
  exact List.take_append_of_le_length hle

/-- SETFPREGS receives the whole blob. -/
theorem received_setfpregs (h : r.b.length ≤ RegSet.size .fpregs) :
    netRecvAll (r.b ++ r.rest) r.packet.recvLen = ⟨r.b, true, r.rest⟩ := by
  have hsmall : r.packet.length.toNat < 2 ^ 31 := by
    rw [packet_length]
    exact Nat.lt_of_le_of_lt h (by decide)
  rw [netRecvAll_eq, recvLen_toNat hsmall, packet_length]
  simp

/-- **SETREGS**: the blob goes to the first thread, if ptrace takes it. -/
theorem setregs_outcome (r : WriteReq) (t : Tracee) (raw : Nat → Byte) (os : RegOs) :
    RegWrite.handle .setregs t r.packet (r.b ++ r.rest) raw os =
      (RegOutcome.reply (t.ptraceSet .regs t.pid os.ptrace (r.blob .setregs raw))
        [CMD_SUCCESS, if os.ptrace.refused then CMD_ERROR else CMD_SUCCESS]).receiving .regs
        (netRecvAll (r.b ++ r.rest) r.packet.recvLen) := by
  simp only [RegWrite.handle, Tracee.debugSetregsHandle, received_setregs]
  rfl

theorem setfpregs_long (h : RegSet.size .fpregs < r.b.length) :
    RegWrite.handle .setfpregs t r.packet (r.b ++ r.rest) raw os = .reply t [CMD_ERROR] := by
  simp only [RegWrite.handle, Tracee.debugSetfpregsHandle]
  rw [if_pos (by rw [packet_length]; exact h)]

/-- **SETFPREGS**: to kernel memory and the named thread if the blob is complete, else to the first
thread. -/
theorem setfpregs_outcome (ht : r.lwpid ∈ t.threads) (h : r.b.length ≤ RegSet.size .fpregs) :
    ∃ run got, RegWrite.handle .setfpregs t r.packet (r.b ++ r.rest) raw os =
      { tracee := (if r.applied .setfpregs os then t.setRegs .fpregs r.lwpid (r.blob .setfpregs raw)
          else t.ptraceSet .fpregs t.pid os.ptrace (r.blob .setfpregs raw)).setRun run
        replies := [CMD_SUCCESS,
          if !r.applied .setfpregs os && os.ptrace.refused then CMD_ERROR else CMD_SUCCESS]
        received := got } := by
  have happ : (r.packet.length.toNat == RegSet.size .fpregs && t.kernThread r.packet.lwpid os.kern) =
      r.applied .setfpregs os := by
    have hk : t.kernThread r.packet.lwpid os.kern = os.kern := by
      show (os.kern && decide (r.lwpid ∈ t.threads)) = os.kern
      rw [decide_eq_true ht, Bool.and_true]
    rw [hk, packet_length]
    rfl
  simp only [RegWrite.handle, Tracee.debugSetfpregsHandle]
  rw [if_neg (by rw [packet_length]; exact Nat.not_lt.mpr h), received_setfpregs h, happ]
  exact ⟨_, _, rfl⟩

/-- The target after a write that replies success. -/
def WriteReq.target (r : WriteReq) (w : RegWrite) (t : Tracee) (raw : Nat → Byte) (os : RegOs) : Tracee :=
  if r.applied w os then t.setRegs w.set r.lwpid (r.blob w raw)
  else t.ptraceSet w.set t.pid os.ptrace (r.blob w raw)

variable (raw os) in
/-- Both handlers: a write that is not turned away reaches its target, and replies an error if ptrace
was asked and refused. -/
theorem handle_outcome (ht : r.lwpid ∈ t.threads)
    (hlong : ¬ (w = .setfpregs ∧ RegSet.size .fpregs < r.b.length)) :
    ∃ run got, w.handle t r.packet (r.b ++ r.rest) raw os =
      { tracee := (r.target w t raw os).setRun run
        replies := [CMD_SUCCESS,
          if !r.applied w os && os.ptrace.refused then CMD_ERROR else CMD_SUCCESS]
        received := got } := by
  cases w with
  | setregs => exact ⟨_, _, setregs_outcome r t raw os⟩
  | setfpregs => exact setfpregs_outcome ht (Nat.not_lt.mp fun h => hlong ⟨rfl, h⟩)

/-- The blob that is written shows what the client sent, if that fits. -/
theorem blob_shows_iff : (r.blob w raw).Shows r.b ↔ r.b.length ≤ w.set.size := by
  cases w with
  | setfpregs => exact shows_recv_iff
  | setregs =>
    refine ⟨length_le_of_shows, fun h => ?_⟩
    have hlen : r.packet.recvLen.toNat = r.b.length := by
      rw [recvLen_toNat (by rw [packet_length]; exact Nat.lt_of_le_of_lt h (by decide)), packet_length]
    rw [WriteReq.blob, hlen, List.take_length]
    exact shows_recv_iff.mpr h

/-- What a write that replies success promises, said of its target. -/
theorem hits_iff (ht : r.lwpid ∈ t.threads)
    (hlong : ¬ (w = .setfpregs ∧ RegSet.size .fpregs < r.b.length))
    (hdone : (!r.applied w os && os.ptrace.refused) = false) :
    r.Hits w t raw os ↔ ((r.target w t raw os).regs w.set r.lwpid).Shows r.b ∧
      ∀ lwp ∈ t.threads, lwp ≠ r.lwpid → ∀ k, (r.target w t raw os).regs k lwp = t.regs k lwp := by
  obtain ⟨run, got, hout⟩ := handle_outcome raw os ht hlong
  rw [hdone, if_neg (by decide)] at hout
  have hthreads : ((r.target w t raw os).setRun run).threads = t.threads := by
    show (r.target w t raw os).threads = _
    rw [WriteReq.target]
    split
    · rfl
    · exact ptraceSet_threads ..
  have hread : ∀ os', w.reads os' = true →
      (w.read ((r.target w t raw os).setRun run) r.lwpid os').data =
        ((r.target w t raw os).regs w.set r.lwpid).bytes := fun os' hos' =>
    read_data w (by rw [hthreads]; exact ht) hos'
  refine ⟨fun h => ⟨?_, fun lwp hl hne k => ?_⟩, fun ⟨hb, hf⟩ => ⟨fun _ os' hos' => ?_, fun _ => ?_⟩⟩
  · have hany := h.back (by rw [hout]) ⟨os.stop, true, .ok⟩ (by cases w <;> rfl)
    rwa [hout, hread _ (by cases w <;> rfl)] at hany
  · have := h.frame (by rw [hout]) lwp hl hne k
    rwa [hout] at this
  · rw [hout, hread os' hos']
    exact hb
  · rw [hout]
    exact hf

end Writes

/-- A write to the first thread changes none but the named one if it changes nothing there. -/
theorem setRegs_frame_iff {t : Tracee} {k : RegSet} {b : Blob k} {lwpid : UInt32} (hne : lwpid ≠ t.first) :
    (∀ lwp ∈ t.threads, lwp ≠ lwpid → ∀ k', (t.setRegs k t.first b).regs k' lwp = t.regs k' lwp) ↔
      t.regs k t.first = b := by
  constructor
  · intro h
    have hfirst := h t.first (List.mem_cons_self ..) (Ne.symm hne) k
    rw [← hfirst, setRegs_self]
  · intro h lwp _ _ k'
    by_cases hl : lwp = t.first
    · by_cases hk : k' = k
      · subst hl hk
        rw [setRegs_self, h]
      · simp only [Tracee.setRegs, Function.update_of_ne hk]
    · exact setRegs_ne hl k'

/-- A target of two threads, stopped. -/
def pairTracee : Tracee where
  pid := 7
  first := 100001
  others := [100002]
  pidFree := by decide
  regs := fun k _ => Blob.zero k
  run := ⟨false, none, fun _ => rfl⟩

/-- Every call of the kernel goes through. -/
def goodOs : RegOs := ⟨⟨true, true, true, true⟩, true, .ok⟩

/-- One byte for the second thread. -/
def secondReq : WriteReq := ⟨100002, [1], [], by decide⟩

end Ps5Debugger

import Ps5Debugger.DebugEventPackets

/-!
# What the pump tells the client

What `dispatch_debug_events` (`debug.c`) sends over the event channel for the stops that it finds, and what it keeps
to itself: stops on its own breakpoints that are stepped over, stops of other threads while one is stepped
(`debug_step_thread_handle`), and a fault that comes again and again.

`told` says the same without packets and counters. `events_delivered`: what the client has parsed at any time is the
front of what it is to be told, however the stream is cut into reads.
-/

namespace Ps5Debugger

open Lib Rpc

namespace DebugEvents

/-! ## The pump -/

/-- What the system says about a stop. -/
structure StopOs where
  /-- from `wait4` -/
  status : UInt32
  lwpid : UInt32
  /-- `lwpi + 0x38` -/
  code : UInt32
  name : Packed 24
  /-- `kern_get_rip_fast` -/
  fastRip : Option UInt64
  /-- the registers, those of the FPU and the debug registers, if they can be read -/
  regs : Option (Packed 176 × Packed 832 × Packed 128)

/-- `sig` -/
def StopOs.sig (e : StopOs) : UInt8 := (e.status >>> 8).toUInt8

/-- What was found out. -/
def StopOs.found (e : StopOs) : Option Found :=
  e.regs.map fun r => ⟨e.lwpid, e.status, e.name, r.1, r.2.1, r.2.2⟩

/-- `g_stepping_lwpid`, and the variables of the storm. They are of the server: no session starts them anew. -/
structure Pump where
  steppingLwpid : UInt32
  stormLwpid : UInt32
  stormRip : UInt64
  stormSig : UInt8
  stormCount : UInt32

/-- The pump at start-up. -/
def Pump.start : Pump := ⟨0, 0, 0, 0, 0⟩

/-- `DBG_STORM_FATAL_SIGS` -/
def fatalSig (sig : UInt8) : Bool := sig == 11 || sig == 7 || sig == 4 || sig == 8

def DBG_STORM_LIMIT : UInt32 := 32

/-- The check for a storm: whether there is one, and the pump then. -/
def Pump.storm (p : Pump) (lwpid : UInt32) (rip : UInt64) (sig : UInt8) : Bool × Pump :=
  let matchLast := lwpid == p.stormLwpid && rip == p.stormRip && sig == p.stormSig
  let count := if fatalSig sig && matchLast then p.stormCount + 1 else 0
  if fatalSig sig && matchLast && decide (count > DBG_STORM_LIMIT) then (true, { p with stormCount := count })
  else (false, ⟨p.steppingLwpid, lwpid, rip, sig, count⟩)

/-- What a pass comes to: nothing is sent, something is, or the client is given up. -/
inductive Verdict (β : Type) : Type where
  | quiet
  | sent (b : β)
  | gone

/-- `(int)g_stepping_lwpid > 0` -/
def isStepping (lwpid : UInt32) : Bool := decide (0 < lwpid.toInt32)

/-- `dispatch_debug_events`, from the packet on. What is written to the debug registers of the threads around it is put
back before it is sent. -/
def dispatchFound (bps : BpTable) (p : Pump) (e : StopOs) (f : Found) : Pump × Verdict (Packed 1184) :=
  let pktRip := (longAt f.pkt (0x030 + 0x88)).toUInt64
  let matchedBp := (bps.matched (pktRip - 1)).isSome
  if matchedBp && e.code == 2 then (p, .quiet)
  else
    let pkt := if e.code == 2 then put64 f.pkt (0x420 + 0x30) 0 else f.pkt
    let pkt := if matchedBp then put64 pkt (0x030 + 0x88) (pktRip - 1) else pkt
    if isStepping p.steppingLwpid && (intAt pkt 0).toUInt32 != p.steppingLwpid then (p, .quiet)
    else
      let pkt := if isStepping p.steppingLwpid then put64 pkt (0x420 + 0x30) 0 else pkt
      let s := { p with steppingLwpid := 0 }.storm (intAt pkt 0).toUInt32 (longAt pkt (0x030 + 0x88)).toUInt64 e.sig
      (s.2, if s.1 then .quiet else .sent ⟨slice pkt 0 1184, length_slice pkt 0 1184⟩)

/-- `dispatch_debug_events`, from the stop that `wait4` returns. -/
def dispatchStop (bps : BpTable) (p : Pump) (e : StopOs) : Pump × Verdict (Packed 1184) :=
  if e.sig = 17 ∨ e.sig = 9 ∨ bps.absorbs ⟨e.code, e.fastRip, none⟩ = true then (p, .quiet)
  else match e.found with
  | none => (p, .gone)
  | some f => dispatchFound bps p e f

/-- What happens to the pump: a stop, with the breakpoints at that time, or a thread that is to be stepped. -/
inductive Act : Type where
  | stop (bps : BpTable) (e : StopOs)
  | stepThread (lwpid : UInt32)

/-- What the pump does in an act. -/
def Pump.step (p : Pump) : Act → Pump × Verdict (Packed 1184)
  | .stop bps e => dispatchStop bps p e
  | .stepThread lwpid => ({ p with steppingLwpid := lwpid }, .quiet)

/-- What is sent in a session. -/
def sentBy {σ β : Type} (step : σ → Act → σ × Verdict β) : σ → List Act → List β
  | _, [] => []
  | s, a :: as =>
    match (step s a).2 with
    | .quiet => sentBy step (step s a).1 as
    | .sent b => b :: sentBy step (step s a).1 as
    | .gone => []

/-! ## What there is to tell -/

/-- The thread, the place and the signal of a stop. -/
@[ext]
structure Key where
  lwpid : UInt32
  rip : UInt64
  sig : UInt8
  deriving DecidableEq

/-- The thread that is stepped, and the stops that have come through so far, the last one first. -/
structure History where
  stepping : UInt32
  stops : List Key

/-- How often the stop has just come. -/
def repeats (stops : List Key) (k : Key) : Nat := (stops.takeWhile (· = k)).length

/-- A fault that has come 33 times in a row, or `2 ^ 32` times more. -/
def IsStorm (stops : List Key) (k : Key) : Prop := fatalSig k.sig = true ∧ 32 < repeats stops k % 2 ^ 32

instance (stops : List Key) (k : Key) : Decidable (IsStorm stops k) := inferInstanceAs (Decidable (_ ∧ _))

/-- The frame has a first register, `rip`. -/
local instance frameNeZero : NeZero 5 := inferInstance

/-- The stop that is told: at the breakpoint and not behind it, without the `dr6` of a step. -/
def Ps5DebugEvent.corrected (e : Ps5DebugEvent) (hit stepped : Bool) : Ps5DebugEvent :=
  let e := if stepped then e.setDr6 0 else e
  if hit then e.setRip (e.regs.frame 0 - 1) else e

/-- What the client is told about a stop with registers. -/
def toldFound (bps : BpTable) (h : History) (e : StopOs) (f : Found) : History × Verdict Ps5DebugEvent :=
  let rip := (f.event.regs.frame 0).toUInt64
  let hit := (bps.matched (rip - 1)).isSome
  if hit = true ∧ e.code = 2 ∨ isStepping h.stepping = true ∧ f.lwpid ≠ h.stepping then (h, .quiet)
  else
    let k : Key := ⟨f.lwpid, if hit then rip - 1 else rip, e.sig⟩
    (⟨0, k :: h.stops⟩, if IsStorm h.stops k then .quiet
      else .sent (f.event.corrected hit (e.code == 2 || isStepping h.stepping)))

/-- What the client is told about a stop. -/
def told (bps : BpTable) (h : History) (e : StopOs) : History × Verdict Ps5DebugEvent :=
  if e.sig = 17 ∨ e.sig = 9 ∨ bps.absorbs ⟨e.code, e.fastRip, none⟩ = true then (h, .quiet)
  else match e.found with
  | none => (h, .gone)
  | some f => toldFound bps h e f

def History.step (h : History) : Act → History × Verdict Ps5DebugEvent
  | .stop bps e => told bps h e
  | .stepThread lwpid => (⟨lwpid, h.stops⟩, .quiet)

/-! ## The packet that is sent -/

/-- The packet once it is corrected: for a step, for a breakpoint, for the thread that is stepped. -/
def Found.corrected (f : Found) (hit step stepping : Bool) : Buf :=
  let pktRip := (longAt f.pkt (0x030 + 0x88)).toUInt64
  let pkt := if step then put64 f.pkt (0x420 + 0x30) 0 else f.pkt
  let pkt := if hit then put64 pkt (0x030 + 0x88) (pktRip - 1) else pkt
  if stepping then put64 pkt (0x420 + 0x30) 0 else pkt

theorem rip_pkt (f : Found) : longAt f.pkt (0x030 + 0x88) = f.event.regs.frame 0 := by
  rw [← parse_pkt f, parse_slice, parseGpRegs_slice (le_refl _)]
  rfl

theorem lwpid_pkt (f : Found) : intAt f.pkt 0 = f.lwpid.toInt32 := by
  have hlwpid : (Ps5DebugEvent.parse (slice f.pkt 0 1184)).lwpid = f.event.lwpid := by rw [parse_pkt]
  rwa [parse_slice] at hlwpid

section Corrected

variable (f : Found) (hit step stepping : Bool)

theorem lwpid_corrected : (intAt (f.corrected hit step stepping) 0).toUInt32 = f.lwpid := by
  have hpkt : intAt (f.corrected hit step stepping) 0 = intAt f.pkt 0 := by
    unfold Found.corrected
    cases hit <;> cases step <;> cases stepping <;>
      simp only [Bool.false_eq_true, if_false, if_true] <;>
      repeat rw [intAt_put64_of_apart (by omega)]
  rw [hpkt, lwpid_pkt, UInt32.toUInt32_toInt32]

theorem rip_corrected : (longAt (f.corrected hit step stepping) (0x030 + 0x88)).toUInt64 =
    if hit then (f.event.regs.frame 0).toUInt64 - 1 else (f.event.regs.frame 0).toUInt64 := by
  have hdr6 (b : Buf) (on : Bool) : longAt (if on then put64 b (0x420 + 0x30) 0 else b) (0x030 + 0x88) =
      longAt b (0x030 + 0x88) := by
    cases on with
    | false => rfl
    | true => exact longAt_put64_of_apart (by omega)
  rw [Found.corrected, hdr6]
  cases hit with
  | false => rw [if_neg Bool.false_ne_true, if_neg Bool.false_ne_true, hdr6, rip_pkt]
  | true => rw [if_pos rfl, if_pos rfl, longAt_put64, rip_pkt, UInt64.toUInt64_toInt64]

theorem parse_corrected : Ps5DebugEvent.parse (slice (f.corrected hit step stepping) 0 1184) =
    f.event.corrected hit (step || stepping) := by
  have hdr6 (b : Buf) (on : Bool) : Ps5DebugEvent.parse (slice (if on then put64 b (0x420 + 0x30) 0 else b) 0 1184) =
      if on then (Ps5DebugEvent.parse (slice b 0 1184)).setDr6 0 else Ps5DebugEvent.parse (slice b 0 1184) := by
    cases on with
    | false => rfl
    | true => exact parse_put_dr6 b 0
  have hrip : ((f.event.regs.frame 0).toUInt64 - 1).toInt64 = f.event.regs.frame 0 - 1 := by
    rw [UInt64.toInt64_sub, Int64.toInt64_toUInt64]
    rfl
  rw [Found.corrected, hdr6]
  cases hit with
  | false =>
    rw [if_neg Bool.false_ne_true, hdr6, parse_pkt]
    cases step <;> cases stepping <;> simp [Ps5DebugEvent.corrected, Ps5DebugEvent.setDr6]
  | true =>
    rw [if_pos rfl, parse_put_rip, hdr6, parse_pkt, rip_pkt, hrip]
    cases step <;> cases stepping <;>
      simp [Ps5DebugEvent.corrected, Ps5DebugEvent.setDr6, Ps5DebugEvent.setRip]

end Corrected

/-! ## The storm -/

/-- The key that the pump has noted. -/
def lastOf : List Key → Key
  | [] => ⟨0, 0, 0⟩
  | k :: _ => k

/-- The count that it has noted. -/
def countOf : List Key → UInt32
  | [] => 0
  | k :: rest => if fatalSig k.sig then UInt32.ofNat (repeats rest k) else 0

/-- The pump has noted what came last, and how often. -/
def Pump.Tracks (p : Pump) (h : History) : Prop :=
  p.steppingLwpid = h.stepping ∧ (⟨p.stormLwpid, p.stormRip, p.stormSig⟩ : Key) = lastOf h.stops ∧
    p.stormCount = countOf h.stops

theorem repeats_of_ne {stops : List Key} {k : Key} (h : lastOf stops ≠ k) : repeats stops k = 0 := by
  cases stops with
  | nil => rfl
  | cons l rest =>
    have hne : l ≠ k := h
    rw [repeats, List.takeWhile_cons_of_neg (by simpa using hne), List.length_nil]

/-- Counting on. -/
theorem countOf_cons {stops : List Key} {k : Key} (hfatal : fatalSig k.sig = true) :
    countOf (k :: stops) = if lastOf stops = k then countOf stops + 1 else 0 := by
  rw [countOf, if_pos hfatal]
  by_cases hlast : lastOf stops = k
  · rw [if_pos hlast]
    cases stops with
    | nil =>
      subst hlast
      exact absurd hfatal (by decide)
    | cons l rest =>
      obtain rfl : l = k := hlast
      rw [countOf, if_pos hfatal, repeats, List.takeWhile_cons_of_pos (by simp), List.length_cons, UInt32.ofNat_add]
      rfl
  · rw [if_neg hlast, repeats_of_ne hlast]
    rfl

theorem storm_tracks {p : Pump} {h : History} (hp : p.Tracks h) (k : Key) :
    (p.storm k.lwpid k.rip k.sig).1 = decide (IsStorm h.stops k) ∧
      (p.storm k.lwpid k.rip k.sig).2.Tracks ⟨h.stepping, k :: h.stops⟩ := by
  obtain ⟨hstepping, hlast, hcount⟩ := hp
  have hmatch : (k.lwpid == p.stormLwpid && k.rip == p.stormRip && k.sig == p.stormSig) =
      decide (k = ⟨p.stormLwpid, p.stormRip, p.stormSig⟩) := by
    rw [Bool.eq_iff_iff]
    simp [Key.ext_iff, and_assoc]
  simp only [hlast] at hmatch
  cases hfatal : fatalSig k.sig with
  | false =>
    have hzero : countOf (k :: h.stops) = 0 := by rw [countOf, hfatal, if_neg Bool.false_ne_true]
    have hno : ¬ IsStorm h.stops k := fun hstorm => by rw [hstorm.1] at hfatal; cases hfatal
    rw [Pump.storm, hfatal, decide_eq_false hno]
    exact ⟨rfl, hstepping, rfl, hzero.symm⟩
  | true =>
    have hnext : countOf (k :: h.stops) = if lastOf h.stops = k then countOf h.stops + 1 else 0 := countOf_cons hfatal
    have hval : countOf (k :: h.stops) = UInt32.ofNat (repeats h.stops k) := by rw [countOf, if_pos hfatal]
    have hlimit : (countOf (k :: h.stops) > DBG_STORM_LIMIT) ↔ IsStorm h.stops k := by
      rw [hval, gt_iff_lt, UInt32.lt_iff_toNat_lt, IsStorm, hfatal, eq_self_iff_true, true_and]
      rfl
    by_cases heq : lastOf h.stops = k
    · rw [if_pos heq, ← hcount] at hnext
      rw [Pump.storm, hfatal, hmatch, decide_eq_true heq.symm]
      simp only [Bool.and_self, Bool.true_and, if_true, ← hnext, hlimit]
      by_cases hstorm : IsStorm h.stops k
      · rw [decide_eq_true hstorm]
        refine ⟨rfl, hstepping, ?_, rfl⟩
        rw [lastOf, ← heq]
        exact hlast
      · rw [decide_eq_false hstorm]
        exact ⟨rfl, hstepping, rfl, rfl⟩
    · have hno : ¬ IsStorm h.stops k := by
        rw [IsStorm, repeats_of_ne heq]
        exact fun hstorm => absurd hstorm.2 (by decide)
      rw [if_neg heq] at hnext
      rw [Pump.storm, hfatal, hmatch, decide_eq_false (Ne.symm heq), decide_eq_false hno]
      exact ⟨rfl, hstepping, rfl, hnext.symm⟩

/-! ## The two pumps -/

/-- Verdicts that say the same. -/
def Verdict.map {β γ : Type} (g : β → γ) : Verdict β → Verdict γ
  | .quiet => .quiet
  | .sent b => .sent (g b)
  | .gone => .gone

/-- **Simulation**, of what is sent. -/
theorem map_sentBy {σ τ β γ : Type} {f : σ → Act → σ × Verdict β} {f' : τ → Act → τ × Verdict γ} {g : β → γ}
    (rel : σ → τ → Prop) (hstep : ∀ s t a, rel s t → rel (f s a).1 (f' t a).1 ∧ (f s a).2.map g = (f' t a).2)
    (acts : List Act) : ∀ {s : σ} {t : τ}, rel s t → (sentBy f s acts).map g = sentBy f' t acts := by
  induction acts with
  | nil => intro s t _; rfl
  | cons a acts ih =>
    intro s t hrel
    obtain ⟨hnext, hverdict⟩ := hstep s t a hrel
    rw [sentBy, sentBy, ← hverdict]
    cases (f s a).2 with
    | quiet => exact ih hnext
    | sent b => exact congrArg (g b :: ·) (ih hnext)
    | gone => rfl

section Found

variable {bps : BpTable} {p : Pump} {h : History} {e : StopOs} {f : Found} {hit : Bool}

theorem dispatchFound_quiet (hhit : (bps.matched ((f.event.regs.frame 0).toUInt64 - 1)).isSome = hit)
    (hquiet : hit = true ∧ e.code = 2 ∨ isStepping p.steppingLwpid = true ∧ f.lwpid ≠ p.steppingLwpid) :
    dispatchFound bps p e f = (p, .quiet) := by
  have hlwpid := lwpid_corrected f hit (e.code == 2) false
  rw [Found.corrected, if_neg Bool.false_ne_true, rip_pkt] at hlwpid
  simp only [dispatchFound, rip_pkt, hhit, hlwpid]
  by_cases hstep : (hit && e.code == 2) = true
  · rw [if_pos hstep]
  · have hother : (isStepping p.steppingLwpid && f.lwpid != p.steppingLwpid) = true := by
      rcases hquiet with hq | hq
      · exact absurd (by simpa using hq) hstep
      · simpa using hq
    rw [if_neg hstep, if_pos hother]

theorem dispatchFound_through (hhit : (bps.matched ((f.event.regs.frame 0).toUInt64 - 1)).isSome = hit)
    (hthrough : ¬ (hit = true ∧ e.code = 2 ∨ isStepping p.steppingLwpid = true ∧ f.lwpid ≠ p.steppingLwpid)) :
    dispatchFound bps p e f =
      let s := { p with steppingLwpid := 0 }.storm f.lwpid
        (if hit then (f.event.regs.frame 0).toUInt64 - 1 else (f.event.regs.frame 0).toUInt64) e.sig
      let pkt := f.corrected hit (e.code == 2) (isStepping p.steppingLwpid)
      (s.2, if s.1 then .quiet else .sent ⟨slice pkt 0 1184, length_slice pkt 0 1184⟩) := by
  have hlwpid := lwpid_corrected f hit (e.code == 2) false
  have hlwpid' := lwpid_corrected f hit (e.code == 2) (isStepping p.steppingLwpid)
  have hrip := rip_corrected f hit (e.code == 2) (isStepping p.steppingLwpid)
  obtain ⟨hstep, hother⟩ := not_or.mp hthrough
  rw [Found.corrected, if_neg Bool.false_ne_true, rip_pkt] at hlwpid
  rw [Found.corrected, rip_pkt] at hlwpid' hrip
  simp only [dispatchFound, rip_pkt, hhit, hlwpid]
  rw [if_neg (by simpa using hstep), if_neg (by simpa using hother)]
  simp only [hlwpid', hrip, Found.corrected, rip_pkt]

theorem toldFound_quiet (hhit : (bps.matched ((f.event.regs.frame 0).toUInt64 - 1)).isSome = hit)
    (hquiet : hit = true ∧ e.code = 2 ∨ isStepping h.stepping = true ∧ f.lwpid ≠ h.stepping) :
    toldFound bps h e f = (h, .quiet) := by
  simp only [toldFound, hhit]
  rw [if_pos hquiet]

theorem toldFound_through (hhit : (bps.matched ((f.event.regs.frame 0).toUInt64 - 1)).isSome = hit)
    (hthrough : ¬ (hit = true ∧ e.code = 2 ∨ isStepping h.stepping = true ∧ f.lwpid ≠ h.stepping)) {k : Key}
    (hk : k = ⟨f.lwpid, if hit then (f.event.regs.frame 0).toUInt64 - 1 else (f.event.regs.frame 0).toUInt64, e.sig⟩) :
    toldFound bps h e f =
      (⟨0, k :: h.stops⟩, if IsStorm h.stops k then .quiet
        else .sent (f.event.corrected hit (e.code == 2 || isStepping h.stepping))) := by
  subst hk
  simp only [toldFound, hhit]
  rw [if_neg hthrough]

/-- A stop with registers is sent as it is told. -/
theorem dispatchFound_told (hp : p.Tracks h) :
    (dispatchFound bps p e f).1.Tracks (toldFound bps h e f).1 ∧
      (dispatchFound bps p e f).2.map (fun packet => Ps5DebugEvent.parse packet.val) = (toldFound bps h e f).2 := by
  obtain ⟨hit, hhit⟩ : ∃ hit, (bps.matched ((f.event.regs.frame 0).toUInt64 - 1)).isSome = hit := ⟨_, rfl⟩
  by_cases hquiet : hit = true ∧ e.code = 2 ∨ isStepping p.steppingLwpid = true ∧ f.lwpid ≠ p.steppingLwpid
  · rw [dispatchFound_quiet hhit hquiet, toldFound_quiet hhit (hp.1 ▸ hquiet)]
    exact ⟨hp, rfl⟩
  · obtain ⟨k, hk⟩ : ∃ k : Key, k = ⟨f.lwpid,
      if hit then (f.event.regs.frame 0).toUInt64 - 1 else (f.event.regs.frame 0).toUInt64, e.sig⟩ := ⟨_, rfl⟩
    have hcleared : Pump.Tracks { p with steppingLwpid := 0 } ⟨0, h.stops⟩ := ⟨rfl, hp.2⟩
    obtain ⟨hstorm, htracks⟩ := storm_tracks hcleared k
    rw [dispatchFound_through hhit hquiet, toldFound_through hhit (hp.1 ▸ hquiet) hk]
    subst hk
    refine ⟨htracks, ?_⟩
    dsimp only at hstorm ⊢
    rw [hstorm]
    by_cases hs : IsStorm h.stops ⟨f.lwpid,
      if hit then (f.event.regs.frame 0).toUInt64 - 1 else (f.event.regs.frame 0).toUInt64, e.sig⟩
    · rw [if_pos hs, if_pos (decide_eq_true hs), Verdict.map]
    · rw [if_neg hs, if_neg (by simpa using hs), Verdict.map, parse_corrected, hp.1]

end Found

/-- The pump does what there is to tell. -/
theorem step_told {p : Pump} {h : History} (a : Act) (hp : p.Tracks h) :
    (p.step a).1.Tracks (h.step a).1 ∧
      (p.step a).2.map (fun packet => Ps5DebugEvent.parse packet.val) = (h.step a).2 := by
  cases a with
  | stepThread lwpid => exact ⟨⟨rfl, hp.2⟩, rfl⟩
  | stop bps e =>
    rw [Pump.step, History.step, dispatchStop, told]
    split
    · exact ⟨hp, rfl⟩
    · cases e.found with
      | none => exact ⟨hp, rfl⟩
      | some f => exact dispatchFound_told hp

/-- The pump, after what has happened to it in earlier sessions. -/
def Pump.after (past : List Act) : Pump := past.foldl (fun p a => (p.step a).1) .start

/-- What has happened in them. -/
def History.after (past : List Act) : History := past.foldl (fun h a => (h.step a).1) ⟨0, []⟩

theorem after_tracks (past : List Act) : (Pump.after past).Tracks (History.after past) := by
  induction past using List.reverseRecOn with
  | nil => exact ⟨rfl, rfl, rfl⟩
  | append_singleton past a ih =>
    unfold Pump.after History.after at ih ⊢
    rw [List.foldl_append, List.foldl_append]
    exact (step_told a ih).1

/-- **The client is told what there is to tell.** In every session of the pump, whatever sessions came before it and
however the stream is cut into reads, what the client has parsed at any time is the front of what it is to be told, by
as much as has come in whole. -/
theorem events_delivered (past acts : List Act) (reads : List (List Byte))
    (hreads : Along Channel.read Channel.Asks ⟨[], []⟩ reads)
    (hsent : reads.flatten <+: (sentBy Pump.step (.after past) acts).flatMap Subtype.val) :
    (reads.foldl Channel.read ⟨[], []⟩).events =
      (sentBy History.step (.after past) acts).take (reads.flatten.length / 1184) := by
  have htold : (sentBy Pump.step (.after past) acts).map (fun packet => Ps5DebugEvent.parse packet.val) =
      sentBy History.step (.after past) acts :=
    map_sentBy Pump.Tracks (fun _ _ a => step_told a) acts (after_tracks past)
  rw [channel_receives _ reads hreads hsent, List.map_take, htold]

/-- A fault at the address 0. -/
def oneStop : StopOs :=
  ⟨0x0B00, 7, 0, ⟨List.replicate 24 0, List.length_replicate⟩, none,
    some (⟨List.replicate 176 0, List.length_replicate⟩, ⟨List.replicate 832 0, List.length_replicate⟩,
      ⟨List.replicate 128 0, List.length_replicate⟩)⟩

def oneFound : Found :=
  ⟨7, 0x0B00, ⟨List.replicate 24 0, List.length_replicate⟩, ⟨List.replicate 176 0, List.length_replicate⟩,
    ⟨List.replicate 832 0, List.length_replicate⟩, ⟨List.replicate 128 0, List.length_replicate⟩⟩

def oneAct : Act := .stop (fun _ => .zero) oneStop

theorem oneAct_told : sentBy History.step ⟨0, []⟩ [oneAct] = [oneFound.event] := by
  have hrip : (oneFound.event.regs.frame 0).toUInt64 = 0 := by decide +kernel
  have hhit : (BpTable.matched (fun _ => .zero) ((oneFound.event.regs.frame 0).toUInt64 - 1)).isSome = false := by
    rw [hrip]
    decide
  have hstep : (⟨0, []⟩ : History).step oneAct = toldFound (fun _ => .zero) ⟨0, []⟩ oneStop oneFound := rfl
  have hcalm (k : Key) : ¬ IsStorm [] k := fun hstorm => Nat.not_lt_zero 32 hstorm.2
  rw [sentBy, hstep, toldFound_through hhit (by decide) rfl, if_neg (hcalm _)]
  rfl

/-- Its packet comes in with two reads. -/
theorem events_delivered_oneStop : ∃ first second : List Byte, first.length = 1000 ∧ second.length = 184 ∧
    (((⟨[], []⟩ : Channel).read first).read second).events = [oneFound.event] := by
  obtain ⟨packet, hpacket⟩ : ∃ packet, sentBy Pump.step .start [oneAct] = [packet] := by
    have hmap := map_sentBy Pump.Tracks (fun _ _ a => step_told a) [oneAct]
      (⟨rfl, rfl, rfl⟩ : Pump.Tracks .start ⟨0, []⟩)
    rw [oneAct_told] at hmap
    exact List.length_eq_one_iff.mp (by simpa using congrArg List.length hmap)
  have hlen := packet.property
  have hreads : Along Channel.read Channel.Asks ⟨[], []⟩ [packet.val.take 1000, packet.val.drop 1000] := by
    refine ⟨by simp [Channel.Asks], ?_, trivial⟩
    simp [Channel.read, Channel.Asks, hlen]
  have hall : [packet.val.take 1000, packet.val.drop 1000].flatten = packet.val := by simp
  have hsent : [packet.val.take 1000, packet.val.drop 1000].flatten <+:
      (sentBy Pump.step .start [oneAct]).flatMap Subtype.val := by
    rw [hall, hpacket, List.flatMap_singleton]
  have hevents := events_delivered [] [oneAct] _ hreads hsent
  rw [hall, hlen, show History.after [] = ⟨0, []⟩ from rfl, oneAct_told] at hevents
  exact ⟨_, _, by rw [List.length_take, hlen]; rfl, by rw [List.length_drop, hlen], hevents⟩

end DebugEvents

end Ps5Debugger

import Ps5Debugger.DebugThreads

/-!
# Debugged programs

The threads of `DebugThreads` over a whole session: breakpoints come and go while the threads run and the pump makes
its passes, and in the end the teardown takes the breakpoints out and puts the threads in front of them
(`int3_scan_stuck`, `int3_iterative_sweep`, `debug_full_teardown`). Each thread then stands where the program has
brought it, and the text is the one of the program (`debugging_transparent`).

The scan of the teardown does not find every thread. It collects sixteen addresses at most, and it takes a thread that
stands within fifteen bytes behind a breakpoint to be dealt with: `teardown_puts_back_iff` says which threads it finds.
-/

namespace Ps5Debugger

open Lib

namespace Threads

variable {ι ρ δ : Type} [DecidableEq ι]

/-! ## The scan for stuck threads -/

/-- The loop over the breakpoints for one thread of `int3_scan_stuck`: the thread after it, and whether it was hit. -/
def scanThread (th : Lwp ρ) : List UInt64 → Lwp ρ × Bool
  | [] => (th, false)
  | a :: bp_addrs =>
    if th.rip = a + 1 then
      if th.pending = some .brkpt then ({ th with rip := a }, true) else scanThread th bp_addrs
    else if th.rip = a ∨ (a + 1 < th.rip ∧ th.rip < a + 16) then (th, true)
    else scanThread th bp_addrs

/-- `int3_scan_stuck`, with the threads of the list whose registers can be read and written. -/
def int3ScanStuck (bp_addrs : List UInt64) (listed : List ι) (t : Target ι ρ δ) : Target ι ρ δ × Bool :=
  ({ t with lwps := fun j => if j ∈ listed then (scanThread (t.lwps j) bp_addrs).1 else t.lwps j },
    listed.any fun j => (scanThread (t.lwps j) bp_addrs).2)

/-- What `int3_resume_lwps` brings about: threads run, or are continued without their traps. -/
inductive Resume (ι : Type) where
  | run (j : ι)
  | drop (j : ι)

def resumeStep (exec : Exec ρ δ) (t : Target ι ρ δ) : Resume ι → Target ι ρ δ
  | .run j => runLwp exec t j
  | .drop j => waitFor t j

/-- A round of the sweep. -/
structure Round (ι : Type) where
  listed : List ι
  resumed : List (Resume ι)

/-- The rounds of a teardown. -/
def sweep (exec : Exec ρ δ) (bp_addrs : List UInt64) : List (Round ι) → Target ι ρ δ → Target ι ρ δ
  | [], t => t
  | r :: rounds, t =>
    let s := int3ScanStuck bp_addrs r.listed t
    if s.2 then sweep exec bp_addrs rounds (r.resumed.foldl (resumeStep exec) s.1) else s.1

/-- `int3_iterative_sweep` -/
def int3IterativeSweep (exec : Exec ρ δ) (bp_addrs : List UInt64) (rounds : List (Round ι)) (t : Target ι ρ δ) :
    Target ι ρ δ :=
  sweep exec bp_addrs (rounds.take 4) t

/-! ## Sessions -/

/-- A debugged target with the table of its breakpoints. -/
structure Session (ι ρ δ : Type) where
  target : Target ι ρ δ
  bps : BpTable

/-- `debug_set_breakpoint_handle` in a session: the threads behind a breakpoint that goes are put in front of it. -/
def setBreakpoint (s : Session ι ρ δ) (bp : BreakptPacket) (listed : List ι) : Session ι ρ δ :=
  if h : bp.index.toNat < 30 then
    let i : Fin 30 := ⟨bp.index.toNat, h⟩
    if bp.enabled ≠ 0 then
      ⟨{ s.target with text := poke s.target.text bp.address INT3 }, s.bps.arm s.target.text i bp.address⟩
    else if (s.bps i).enabled = true ∧ (s.bps i).address ≠ 0 then
      let t := (int3ScanStuck [(s.bps i).address] listed s.target).1
      ⟨{ t with text := poke t.text (s.bps i).address (s.bps i).saved }, s.bps.disarm i⟩
    else ⟨s.target, s.bps.disarm i⟩
  else s

/-- What happens in a session: something to the threads, a thread that is continued without its trap, a packet. -/
inductive SessionEvent (ι : Type) where
  | thread (e : Event ι)
  | drop (j : ι)
  | packet (bp : BreakptPacket) (listed : List ι)

/-- What an event does to a session. -/
def Session.step (exec : Exec ρ δ) (s : Session ι ρ δ) : SessionEvent ι → Session ι ρ δ
  | .thread e => ⟨Threads.step exec s.bps s.target e, s.bps⟩
  | .drop j => ⟨waitFor s.target j, s.bps⟩
  | .packet bp listed => setBreakpoint s bp listed

/-- The slots whose threads the teardown looks for: `INT3_REWIND_MAX` of those up to the first one without an
address. -/
def teardownSlots (bps : BpTable) : List (Fin 30) :=
  ((List.finRange 30).takeWhile fun i => (bps i).address ≠ 0).take 16

/-- `debug_full_teardown`: the bytes go back, the threads are swept, and the target is let go with no trap and no step
left. -/
def fullTeardown (exec : Exec ρ δ) (s : Session ι ρ δ) (rounds : List (Round ι)) : Target ι ρ δ :=
  let t := { s.target with text := pokeAll s.target.text s.bps.teardownWrites }
  let t := int3IterativeSweep exec ((teardownSlots s.bps).map fun i => (s.bps i).address) rounds t
  { t with lwps := fun j => { t.lwps j with tf := false, pending := none } }

/-- The threads as they stand, with nobody debugging. -/
def Target.bare (t : Target ι ρ δ) : Program ι ρ δ := ⟨fun j => ((t.lwps j).rip, (t.lwps j).regs), t.data⟩

/-! ## Clean sessions -/

/-- A packet that enables takes a slot that is not in use and an address that is mapped, is no `int3` of the program,
is neither at nor next to another breakpoint, and has no thread with a breakpoint trap behind it. One that disables
finds all threads behind the breakpoint. -/
def cleanPacket (covered : UInt64 → Prop) (s : Session ι ρ δ) (bp : BreakptPacket) (listed : List ι) : Prop :=
  ∀ i : Fin 30, i.val = bp.index.toNat →
    if bp.enabled ≠ 0 then
      (s.bps i).enabled = false ∧ bp.address ≠ 0 ∧ covered bp.address ∧
        (s.target.text bp.address).isSome ∧ s.target.text bp.address ≠ some INT3 ∧
        ¬Armed s.bps bp.address ∧ ¬Armed s.bps (bp.address + 1) ∧ ¬Armed s.bps (bp.address - 1) ∧
        ∀ j, ¬stuck s.target j (bp.address + 1)
    else (s.bps i).enabled = true → ∀ j, stuck s.target j ((s.bps i).address + 1) → j ∈ listed

instance [Fintype ι] (covered : UInt64 → Prop) [DecidablePred covered] (s : Session ι ρ δ) (bp : BreakptPacket)
    (listed : List ι) : Decidable (cleanPacket covered s bp listed) := by
  unfold cleanPacket
  infer_instance

def SessionEvent.clean (covered : UInt64 → Prop) (exec : Exec ρ δ) (s : Session ι ρ δ) : SessionEvent ι → Prop
  | .thread e => e.clean exec s.bps s.target
  | .drop j => ¬Behind s.bps (s.target.lwps j)
  | .packet bp listed => cleanPacket covered s bp listed

instance [Fintype ι] (covered : UInt64 → Prop) [DecidablePred covered] (exec : Exec ρ δ) (s : Session ι ρ δ)
    (e : SessionEvent ι) : Decidable (e.clean covered exec s) :=
  match e with
  | .thread e => inferInstanceAs (Decidable (e.clean exec s.bps s.target))
  | .drop j => inferInstanceAs (Decidable (¬Behind s.bps (s.target.lwps j)))
  | .packet bp listed => inferInstanceAs (Decidable (cleanPacket covered s bp listed))

/-- The program under a session: text and breakpoints fit, and the threads have come from `p₀` to their places. -/
structure Session.Inv (orig : TargetMem) (covered : UInt64 → Prop) (exec : Exec ρ δ) (p₀ : Program ι ρ δ)
    (s : Session ι ρ δ) : Prop where
  patched : Patched INT3 orig s.target.text s.bps.entries
  placed : s.bps.Placed
  apart : Apart s.bps
  covered : ∀ a, Armed s.bps a → covered a
  noInt3 : ∀ a, Armed s.bps a → orig a ≠ some INT3
  steps : Steps orig exec p₀ (s.target.program s.bps)

/-! ## Tables that change -/

section Tables

variable {bps : BpTable} {orig text : TargetMem}

theorem armed_iff {a : UInt64} : Armed bps a ↔ ∃ i, (bps i).address ≠ 0 ∧ (bps i).address = a := by
  constructor
  · intro h
    obtain ⟨i, hi⟩ := Option.isSome_iff_exists.mp h
    exact ⟨i, matched_address hi, address_of_matched hi⟩
  · rintro ⟨i, hi, rfl⟩
    exact armed_address hi

theorem armed_arm_iff {i : Fin 30} (hidle : (bps i).enabled = false) {a : UInt64} (ha : a ≠ 0) {x : UInt64} :
    Armed (bps.arm text i a) x ↔ x = a ∨ Armed bps x := by
  rw [armed_iff, armed_iff]
  constructor
  · rintro ⟨j, hj, rfl⟩
    by_cases hji : j = i
    · subst hji
      left
      simp [BpTable.arm]
    · right
      refine ⟨j, ?_, ?_⟩ <;> simp_all [BpTable.arm]
  · rintro (rfl | ⟨j, hj, rfl⟩)
    · exact ⟨i, by simp [BpTable.arm, ha], by simp [BpTable.arm]⟩
    · have hji : j ≠ i := by
        rintro rfl
        exact hj ((bps j).idle hidle)
      exact ⟨j, by simp [BpTable.arm, hji, hj], by simp [BpTable.arm, hji]⟩

/-- A slot is cleared; no other one has its address. -/
theorem armed_disarm_iff (hp : Patched INT3 orig text bps.entries) (i : Fin 30) {x : UInt64} :
    Armed (bps.disarm i) x ↔ Armed bps x ∧ x ≠ (bps i).address := by
  rw [armed_iff, armed_iff]
  constructor
  · rintro ⟨j, hj, rfl⟩
    by_cases hji : j = i
    · subst hji
      simp [BpTable.disarm] at hj
    · simp only [BpTable.disarm, Function.update_of_ne hji] at hj ⊢
      refine ⟨⟨j, hj, rfl⟩, fun e => hji ?_⟩
      have hi : (bps i).address ≠ 0 := e ▸ hj
      have hentry := entries_of_enabled (enabled_of_address hj)
      rw [e] at hentry
      exact hp.inj hentry (entries_of_enabled (enabled_of_address hi))
  · rintro ⟨⟨j, hj, rfl⟩, hne⟩
    have hji : j ≠ i := fun e => hne (by rw [e])
    exact ⟨j, by simp [BpTable.disarm, hji, hj], by simp [BpTable.disarm, hji]⟩

/-- A thread sees of a table what stands at it and before it. -/
theorem behind_congr {bps' : BpTable} {th : Lwp ρ} (hat : Armed bps' th.rip ↔ Armed bps th.rip)
    (hprev : Armed bps' (th.rip - 1) ↔ Armed bps (th.rip - 1)) : Behind bps' th ↔ Behind bps th := by
  unfold Behind
  rw [hat, hprev]

theorem place_congr {bps' : BpTable} {th : Lwp ρ} (h : Behind bps' th ↔ Behind bps th) :
    place bps' th = place bps th := by
  unfold place
  simp only [h]

end Tables

/-! ## What the scan does -/

/-- The loop over the breakpoints ends at this one: the thread is stuck behind it, at it, or not far behind. -/
def Stops (th : Lwp ρ) (a : UInt64) : Prop :=
  if th.rip = a + 1 then th.pending = some .brkpt else th.rip = a ∨ (a + 1 < th.rip ∧ th.rip < a + 16)

instance (th : Lwp ρ) (a : UInt64) : Decidable (Stops th a) := by
  unfold Stops
  infer_instance

theorem scanThread_eq (th : Lwp ρ) (bp_addrs : List UInt64) :
    scanThread th bp_addrs =
      match bp_addrs.find? fun a => Stops th a with
      | none => (th, false)
      | some a => (if th.rip = a + 1 then { th with rip := a } else th, true) := by
  induction bp_addrs with
  | nil => rfl
  | cons a bp_addrs ih =>
    rw [scanThread, List.find?_cons]
    by_cases hstop : Stops th a
    · rw [decide_eq_true hstop]
      unfold Stops at hstop
      split at hstop
      · rename_i hrip
        rw [if_pos hrip, if_pos hstop]
        dsimp only
        rw [if_pos hrip]
      · rename_i hrip
        rw [if_neg hrip, if_pos hstop]
        dsimp only
        rw [if_neg hrip]
    · rw [decide_eq_false hstop]
      unfold Stops at hstop
      split at hstop
      · rename_i hrip
        rw [if_pos hrip, if_neg hstop, ih]
      · rename_i hrip
        rw [if_neg hrip, if_neg hstop, ih]

/-- The scan leaves a thread, or puts one back that is stuck behind one of the breakpoints. -/
theorem scanThread_cases (th : Lwp ρ) (bp_addrs : List UInt64) :
    (scanThread th bp_addrs).1 = th ∨
      ∃ a ∈ bp_addrs, th.rip = a + 1 ∧ th.pending = some .brkpt ∧
        (scanThread th bp_addrs).1 = { th with rip := a } := by
  rw [scanThread_eq]
  cases hf : bp_addrs.find? fun a => Stops th a with
  | none => exact .inl rfl
  | some a =>
    dsimp only
    by_cases hrip : th.rip = a + 1
    · have hstop := List.find?_some hf
      simp only [Stops, hrip, if_true, decide_eq_true_eq] at hstop
      exact .inr ⟨a, List.mem_of_find?_eq_some hf, hrip, hstop, if_pos hrip⟩
    · exact .inl (if_neg hrip)

section Scans

variable {bps : BpTable} {bp_addrs : List UInt64}

/-- A scan for threads that are behind breakpoints keeps their places. -/
theorem place_scanThread (hapart : Apart bps) (harmed : ∀ a ∈ bp_addrs, Armed bps a) (th : Lwp ρ) :
    place bps (scanThread th bp_addrs).1 = place bps th ∧ (scanThread th bp_addrs).1.regs = th.regs := by
  rcases scanThread_cases th bp_addrs with h | ⟨a, ha, hrip, hpend, h⟩
  · rw [h]
    exact ⟨rfl, rfl⟩
  · rw [h, place_of_behind (behind_of_rip (harmed a ha) (hapart a (harmed a ha)) hrip hpend), hrip,
      UInt64.add_sub_cancel]
    exact ⟨place_of_not_behind fun hb => hb.2.1 (harmed a ha), rfl⟩

theorem program_int3ScanStuck (hapart : Apart bps) (harmed : ∀ a ∈ bp_addrs, Armed bps a) (listed : List ι)
    (t : Target ι ρ δ) : (int3ScanStuck bp_addrs listed t).1.program bps = t.program bps := by
  unfold Target.program int3ScanStuck
  congr 1
  funext j
  dsimp only
  split
  · rw [(place_scanThread hapart harmed (t.lwps j)).1, (place_scanThread hapart harmed (t.lwps j)).2]
  · rfl

/-- With no thread behind a breakpoint the scan does nothing. -/
theorem int3ScanStuck_of_front (hapart : Apart bps) (harmed : ∀ a ∈ bp_addrs, Armed bps a) (listed : List ι)
    {t : Target ι ρ δ} (hfront : ∀ j, ¬Behind bps (t.lwps j)) : (int3ScanStuck bp_addrs listed t).1 = t := by
  have hlwps : (int3ScanStuck bp_addrs listed t).1.lwps = t.lwps := by
    funext j
    unfold int3ScanStuck
    dsimp only
    split
    · rcases scanThread_cases (t.lwps j) bp_addrs with h | ⟨a, ha, hrip, hpend, -⟩
      · exact h
      · exact absurd (behind_of_rip (harmed a ha) (hapart a (harmed a ha)) hrip hpend) (hfront j)
    · rfl
  unfold int3ScanStuck at hlwps ⊢
  dsimp only at hlwps ⊢
  rw [hlwps]

end Scans

/-! ## A step of a session -/

section Steps

variable {exec : Exec ρ δ} {orig : TargetMem} {covered : UInt64 → Prop} {p₀ : Program ι ρ δ} {s : Session ι ρ δ}

theorem Session.Inv.shows (h : s.Inv orig covered exec p₀) : Shows s.bps orig s.target.text :=
  shows_of_patched h.patched h.placed

/-- An address without a breakpoint shows what the program has there. -/
theorem Session.Inv.text_eq (h : s.Inv orig covered exec p₀) {a : UInt64} (ha : ¬Armed s.bps a) :
    s.target.text a = orig a := by
  rcases h.shows a with hr | hr
  · exact hr
  · exact absurd hr.1 ha

theorem Session.Inv.enable (h : s.Inv orig covered exec p₀) {bp : BreakptPacket} {i : Fin 30}
    (hidle : (s.bps i).enabled = false) (ha : bp.address ≠ 0) (hcov : covered bp.address)
    (hmap : (s.target.text bp.address).isSome) (hint3 : s.target.text bp.address ≠ some INT3)
    (hfree : ¬Armed s.bps bp.address) (hnext : ¬Armed s.bps (bp.address + 1))
    (hprev : ¬Armed s.bps (bp.address - 1)) (hnone : ∀ j, ¬stuck s.target j (bp.address + 1)) :
    Session.Inv orig covered exec p₀
      ⟨{ s.target with text := poke s.target.text bp.address INT3 }, s.bps.arm s.target.text i bp.address⟩ := by
  have harm : ∀ x, Armed (s.bps.arm s.target.text i bp.address) x ↔ x = bp.address ∨ Armed s.bps x :=
    fun x => armed_arm_iff hidle ha
  have hplace : ∀ j,
      place (s.bps.arm s.target.text i bp.address) (s.target.lwps j) = place s.bps (s.target.lwps j) := by
    intro j
    refine place_congr ⟨?_, ?_⟩
    · rintro ⟨hpend, hat, hbefore⟩
      rcases (harm _).mp hbefore with hb | hb
      · refine absurd ⟨?_, hpend⟩ (hnone j)
        rw [← hb, UInt64.sub_add_cancel]
      · exact ⟨hpend, fun hc => hat ((harm _).mpr (.inr hc)), hb⟩
    · rintro ⟨hpend, hat, hbefore⟩
      refine ⟨hpend, fun hc => ?_, (harm _).mpr (.inr hbefore)⟩
      rcases (harm _).mp hc with hc | hc
      · exact hprev (hc ▸ hbefore)
      · exact hat hc
  exact
    { patched := patched_arm h.patched hidle
        (fun j hen hj => hfree (armed_iff.mpr ⟨j, h.placed j hen, hj⟩)) hmap
      placed := h.placed.update i fun _ => ha
      apart := by
        intro x hx hx'
        rcases (harm x).mp hx with rfl | hx
        · rcases (harm _).mp hx' with he | hx'
          · simp at he
          · exact hnext hx'
        · rcases (harm _).mp hx' with he | hx'
          · refine hprev ?_
            rwa [← he, UInt64.add_sub_cancel]
          · exact h.apart x hx hx'
      covered := by
        intro x hx
        rcases (harm x).mp hx with rfl | hx
        · exact hcov
        · exact h.covered x hx
      noInt3 := by
        intro x hx
        rcases (harm x).mp hx with rfl | hx
        · rwa [← h.text_eq hfree]
        · exact h.noInt3 x hx
      steps := by
        have hsame : (Session.target ⟨{ s.target with text := poke s.target.text bp.address INT3 },
            s.bps.arm s.target.text i bp.address⟩).program (s.bps.arm s.target.text i bp.address) =
            s.target.program s.bps := by
          unfold Target.program
          congr 1
          funext j
          rw [hplace j]
        exact hsame ▸ h.steps }

/-- The threads that are behind a breakpoint when it goes have been put in front of it. -/
theorem Session.Inv.disable (h : s.Inv orig covered exec p₀) {i : Fin 30} (hi : (s.bps i).address ≠ 0)
    {listed : List ι} (hlisted : ∀ j, stuck s.target j ((s.bps i).address + 1) → j ∈ listed) :
    let t := (int3ScanStuck [(s.bps i).address] listed s.target).1
    Session.Inv orig covered exec p₀
      ⟨{ t with text := poke t.text (s.bps i).address (s.bps i).saved }, s.bps.disarm i⟩ := by
  intro t
  set a := (s.bps i).address
  have harmed : ∀ x ∈ [a], Armed s.bps x := by
    intro x hx
    rw [List.mem_singleton.mp hx]
    exact armed_address hi
  have hdis : ∀ x, Armed (s.bps.disarm i) x ↔ Armed s.bps x ∧ x ≠ a := fun x => armed_disarm_iff h.patched i
  have hgone : ∀ j, ¬stuck t j (a + 1) := by
    rintro j ⟨hrip, hpend⟩
    have hmoved : (t.lwps j).rip =
        if j ∈ listed then (scanThread (s.target.lwps j) [a]).1.rip else (s.target.lwps j).rip := by
      show (if j ∈ listed then (scanThread (s.target.lwps j) [a]).1 else s.target.lwps j).rip = _
      split <;> rfl
    have hpend' : (s.target.lwps j).pending = some .brkpt := by
      have hsame : (t.lwps j).pending = (s.target.lwps j).pending := by
        show (if j ∈ listed then (scanThread (s.target.lwps j) [a]).1 else s.target.lwps j).pending = _
        split
        · rcases scanThread_cases (s.target.lwps j) [a] with hc | ⟨_, _, _, _, hc⟩ <;> rw [hc]
        · rfl
      rwa [← hsame]
    by_cases hj : j ∈ listed
    · rw [if_pos hj] at hmoved
      rcases scanThread_cases (s.target.lwps j) [a] with hc | ⟨x, hx, _, _, hc⟩
      · rw [hc, hrip] at hmoved
        rw [scanThread, if_pos hmoved.symm, if_pos hpend'] at hc
        have := congrArg Lwp.rip hc
        simp [← hmoved] at this
      · rw [hc, hrip, List.mem_singleton.mp hx] at hmoved
        simp at hmoved
    · rw [if_neg hj] at hmoved
      exact hj (hlisted j ⟨by rw [← hmoved, hrip], hpend'⟩)
  have hplace : ∀ j, place (s.bps.disarm i) (t.lwps j) = place s.bps (t.lwps j) := by
    intro j
    refine place_congr ⟨?_, ?_⟩
    · rintro ⟨hpend, -, hbefore⟩
      have hb := ((hdis _).mp hbefore).1
      refine ⟨hpend, ?_, hb⟩
      have := h.apart _ hb
      rwa [UInt64.sub_add_cancel] at this
    · rintro ⟨hpend, hat, hbefore⟩
      refine ⟨hpend, fun hc => hat ((hdis _).mp hc).1, (hdis _).mpr ⟨hbefore, fun he => hgone j ⟨?_, hpend⟩⟩⟩
      rw [← he, UInt64.sub_add_cancel]
  have hpatched := patched_disarm h.patched h.placed i
  rw [BpTable.disarmWrites, if_pos ⟨enabled_of_address hi, hi⟩] at hpatched
  exact
    { patched := hpatched
      placed := h.placed.update i fun he => Bool.noConfusion he
      apart := fun x hx hx' => h.apart x ((hdis x).mp hx).1 ((hdis _).mp hx').1
      covered := fun x hx => h.covered x ((hdis x).mp hx).1
      noInt3 := fun x hx => h.noInt3 x ((hdis x).mp hx).1
      steps := by
        have hsame : t.program (s.bps.disarm i) = s.target.program s.bps := by
          rw [← program_int3ScanStuck h.apart harmed listed s.target]
          unfold Target.program
          congr 1
          funext j
          rw [hplace j]
        have hsteps := h.steps
        rw [← hsame] at hsteps
        exact hsteps }

/-- **A clean step** keeps text, table and program together. -/
theorem Session.Inv.step (hblind : Blind exec covered orig) (h : s.Inv orig covered exec p₀) {e : SessionEvent ι}
    (hclean : e.clean covered exec s) : (s.step exec e).Inv orig covered exec p₀ := by
  cases e with
  | thread e =>
    obtain ⟨htext, hsteps⟩ := step_matched hblind h.covered h.apart h.placed h.patched hclean
    exact
      { patched := by
          show Patched INT3 orig (Threads.step exec s.bps s.target e).text s.bps.entries
          rw [htext]
          exact h.patched
        placed := h.placed
        apart := h.apart
        covered := h.covered
        noInt3 := h.noInt3
        steps := h.steps.trans hsteps }
  | drop j =>
    have hfront : ¬Behind s.bps (s.target.lwps j) := hclean
    have hsame : place s.bps { s.target.lwps j with pending := none } = place s.bps (s.target.lwps j) := by
      rw [place_of_not_behind hfront]
      exact place_of_not_brkpt (by simp)
    have hprogram : (waitFor s.target j).program s.bps = s.target.program s.bps := program_setLwp_same hsame rfl
    exact ⟨h.patched, h.placed, h.apart, h.covered, h.noInt3, hprogram ▸ h.steps⟩
  | packet bp listed =>
    show (setBreakpoint s bp listed).Inv orig covered exec p₀
    unfold setBreakpoint
    by_cases hidx : bp.index.toNat < 30
    · rw [dif_pos hidx]
      have hc := hclean ⟨bp.index.toNat, hidx⟩ rfl
      dsimp only
      by_cases hen : bp.enabled ≠ 0
      · rw [if_pos hen] at hc ⊢
        obtain ⟨hidle, ha, hcov, hmap, hint3, hfree, hnext, hprev, hnone⟩ := hc
        exact h.enable hidle ha hcov hmap hint3 hfree hnext hprev hnone
      · rw [if_neg hen] at hc ⊢
        by_cases huse : (s.bps ⟨bp.index.toNat, hidx⟩).enabled = true ∧ (s.bps ⟨bp.index.toNat, hidx⟩).address ≠ 0
        · rw [if_pos huse]
          exact h.disable huse.2 (hc huse.1)
        · -- a slot that is not in use is cleared
          rw [if_neg huse]
          have hzero : (s.bps ⟨bp.index.toNat, hidx⟩).address = 0 := by
            by_contra hne
            exact huse ⟨enabled_of_address hne, hne⟩
          have hdis : ∀ x, Armed (s.bps.disarm ⟨bp.index.toNat, hidx⟩) x ↔ Armed s.bps x := by
            intro x
            rw [armed_disarm_iff h.patched, hzero]
            refine and_iff_left_of_imp fun hx => ?_
            obtain ⟨k, hk, rfl⟩ := armed_iff.mp hx
            exact hk
          have hpatched := patched_disarm h.patched h.placed ⟨bp.index.toNat, hidx⟩
          rw [BpTable.disarmWrites, if_neg huse] at hpatched
          have hsame : s.target.program (s.bps.disarm ⟨bp.index.toNat, hidx⟩) = s.target.program s.bps := by
            unfold Target.program
            congr 1
            funext j
            rw [place_congr (behind_congr (hdis _) (hdis _))]
          exact
            { patched := hpatched
              placed := h.placed.update _ fun he => Bool.noConfusion he
              apart := fun x hx hx' => h.apart x ((hdis x).mp hx) ((hdis _).mp hx')
              covered := fun x hx => h.covered x ((hdis x).mp hx)
              noInt3 := fun x hx => h.noInt3 x ((hdis x).mp hx)
              steps := hsame ▸ h.steps }
    · rw [dif_neg hidx]
      exact h

theorem Session.Inv.run (hblind : Blind exec covered orig) (h : s.Inv orig covered exec p₀)
    (evs : List (SessionEvent ι)) (hclean : Along (Session.step exec) (fun u e => e.clean covered exec u) s evs) :
    (evs.foldl (Session.step exec) s).Inv orig covered exec p₀ :=
  Along.keeps (fun u => Session.Inv orig covered exec p₀ u) (fun _ _ hu hok => hu.step hblind hok) evs h hclean

end Steps

/-! ## The teardown -/

section Teardown

variable {bps : BpTable} {orig : TargetMem}

theorem distinct_of_patched {text : TargetMem} (hp : Patched INT3 orig text bps.entries) : bps.Distinct := by
  intro i j hi hj he
  have hentry := entries_of_enabled hi
  rw [he] at hentry
  exact hp.inj hentry (entries_of_enabled hj)

/-- The bytes go back. -/
theorem teardown_text {text : TargetMem} (hp : Patched INT3 orig text bps.entries)
    (hgap : ∀ i, (bps i).enabled = true → ∀ k ≤ i, (bps k).address ≠ 0) :
    pokeAll text bps.teardownWrites = orig := by
  have hd := distinct_of_patched hp
  funext x
  by_cases hx : ∃ i, (bps i).enabled = true ∧ (bps i).address = x
  · obtain ⟨i, hi, rfl⟩ := hx
    have hentry := entries_of_enabled hi
    rw [pokeAll_of_mem (nodup_teardownWrites hd) ((mem_teardownWrites hd hi).mpr (hgap i hi)), hp.covered hentry,
      hp.saved hentry, Option.map_some]
  · rw [pokeAll_of_notMem, hp.free]
    · intro i b hi
      by_cases hen : (bps i).enabled = true
      · rw [entries_of_enabled hen] at hi
        cases hi
        exact hx ⟨i, hen, rfl⟩
      · rw [entries_of_disabled (by simpa using hen)] at hi
        cases hi
    · rw [teardownWrites_eq, List.map_map, List.mem_map]
      rintro ⟨i, hi, rfl⟩
      exact hx ⟨i, enabled_of_address (mem_reached.mp hi i le_rfl), rfl⟩

theorem mem_teardownSlots {i : Fin 30} (hi : i ∈ teardownSlots bps) : (bps i).address ≠ 0 :=
  mem_reached.mp (List.mem_of_mem_take hi) i le_rfl

theorem armed_teardownSlots {a : UInt64} (ha : a ∈ (teardownSlots bps).map fun i => (bps i).address) :
    Armed bps a := by
  obtain ⟨i, hi, rfl⟩ := List.mem_map.mp ha
  exact armed_address (mem_teardownSlots hi)

end Teardown

section Sweep

variable {exec : Exec ρ δ} {orig : TargetMem} {covered : UInt64 → Prop} {bps : BpTable}

/-- A target whose text is the program's, and whose threads are not behind breakpoints. -/
structure Swept (orig : TargetMem) (bps : BpTable) (t : Target ι ρ δ) : Prop where
  text : t.text = orig
  front : ∀ j, ¬Behind bps (t.lwps j)

omit [DecidableEq ι] in
theorem Swept.program_eq {t : Target ι ρ δ} (h : Swept orig bps t) : t.program bps = t.bare := by
  unfold Target.program Target.bare
  congr 1
  funext j
  rw [place_of_not_behind (h.front j)]

theorem Swept.runLwp (hnoInt3 : ∀ a, Armed bps a → orig a ≠ some INT3) {t : Target ι ρ δ} (h : Swept orig bps t)
    (j : ι) : Swept orig bps (runLwp exec t j) := by
  refine ⟨(runLwp_text exec t j).trans h.text, fun k => ?_⟩
  unfold Threads.runLwp
  dsimp only
  split
  · exact h.front k
  · by_cases hk : k = j
    · subst hk
      split
      · rename_i hint3
        rw [setLwp_lwps, Function.update_self]
        rintro ⟨-, -, hbefore⟩
        dsimp only at hbefore
        rw [UInt64.add_sub_cancel] at hbefore
        exact hnoInt3 _ hbefore (h.text ▸ hint3)
      · dsimp only
        rw [setLwp_lwps, Function.update_self]
        rintro ⟨hpend, -, -⟩
        dsimp only at hpend
        split at hpend <;> cases hpend
    · split
      · rw [setLwp_lwps, Function.update_of_ne hk]
        exact h.front k
      · dsimp only
        rw [setLwp_lwps, Function.update_of_ne hk]
        exact h.front k

theorem Swept.resumed (hblind : Blind exec covered orig) (hcov : ∀ a, Armed bps a → covered a) (hapart : Apart bps)
    (hnoInt3 : ∀ a, Armed bps a → orig a ≠ some INT3) (l : List (Resume ι)) :
    ∀ {t : Target ι ρ δ}, Swept orig bps t →
      Swept orig bps (l.foldl (resumeStep exec) t) ∧ Steps orig exec t.bare (l.foldl (resumeStep exec) t).bare := by
  induction l with
  | nil => intro t h; exact ⟨h, Steps.refl orig exec _⟩
  | cons r l ih =>
    intro t h
    have hone : Swept orig bps (resumeStep exec t r) ∧ Steps orig exec t.bare (resumeStep exec t r).bare := by
      cases r with
      | run j =>
        have hrun : Swept orig bps (Threads.runLwp exec t j) := h.runLwp hnoInt3 j
        refine ⟨hrun, ?_⟩
        show Steps orig exec t.bare (Threads.runLwp exec t j).bare
        rw [← h.program_eq, ← hrun.program_eq]
        exact runLwp_matched hblind hcov hapart (fun a => .inl (congrFun h.text a)) j
      | drop j =>
        have hdrop : Swept orig bps (waitFor t j) := by
          refine ⟨h.text, fun k => ?_⟩
          rw [waitFor, setLwp_lwps]
          by_cases hk : k = j
          · subst hk
            rw [Function.update_self]
            rintro ⟨hpend, -, -⟩
            cases hpend
          · rw [Function.update_of_ne hk]
            exact h.front k
        refine ⟨hdrop, ?_⟩
        have hsame : place bps { t.lwps j with pending := none } = place bps (t.lwps j) := by
          rw [place_of_not_behind (h.front j)]
          exact place_of_not_brkpt (by simp)
        show Steps orig exec t.bare (waitFor t j).bare
        rw [← h.program_eq, ← hdrop.program_eq, waitFor, program_setLwp_same hsame rfl]
        exact Steps.refl orig exec _
    obtain ⟨hlast, hsteps⟩ := ih hone.1
    exact ⟨hlast, hone.2.trans hsteps⟩

theorem Swept.sweep (hblind : Blind exec covered orig) (hcov : ∀ a, Armed bps a → covered a) (hapart : Apart bps)
    (hnoInt3 : ∀ a, Armed bps a → orig a ≠ some INT3) {bp_addrs : List UInt64} (harmed : ∀ a ∈ bp_addrs, Armed bps a)
    (rounds : List (Round ι)) : ∀ {t : Target ι ρ δ}, Swept orig bps t →
      Swept orig bps (sweep exec bp_addrs rounds t) ∧ Steps orig exec t.bare (sweep exec bp_addrs rounds t).bare := by
  induction rounds with
  | nil => intro t h; exact ⟨h, Steps.refl orig exec _⟩
  | cons r rounds ih =>
    intro t h
    rw [Threads.sweep, int3ScanStuck_of_front hapart harmed r.listed h.front]
    split
    · obtain ⟨hres, hsteps⟩ := h.resumed hblind hcov hapart hnoInt3 r.resumed
      obtain ⟨hlast, hmore⟩ := ih hres
      exact ⟨hlast, hsteps.trans hmore⟩
    · exact ⟨h, Steps.refl orig exec _⟩

/-- A round that puts all threads that are behind breakpoints in front of one. -/
def Finds (bps : BpTable) (t : Target ι ρ δ) (r : Round ι) : Prop :=
  let bp_addrs := (teardownSlots bps).map fun i => (bps i).address
  ∀ j, Behind bps (t.lwps j) → j ∈ r.listed ∧ (scanThread (t.lwps j) bp_addrs).1.rip ∈ bp_addrs

instance [Fintype ι] (bps : BpTable) (t : Target ι ρ δ) (r : Round ι) : Decidable (Finds bps t r) := by
  unfold Finds
  infer_instance

/-- The scan that finds them all leaves none. -/
theorem swept_of_finds {t : Target ι ρ δ} (htext : t.text = orig) {r : Round ι} (hfinds : Finds bps t r) :
    Swept orig bps (int3ScanStuck ((teardownSlots bps).map fun i => (bps i).address) r.listed t).1 := by
  set bp_addrs := (teardownSlots bps).map fun i => (bps i).address
  refine ⟨htext, fun j hb => ?_⟩
  have hmoved : (int3ScanStuck bp_addrs r.listed t).1.lwps j =
      if j ∈ r.listed then (scanThread (t.lwps j) bp_addrs).1 else t.lwps j := rfl
  by_cases hj : Behind bps (t.lwps j)
  · obtain ⟨hlisted, ha⟩ := hfinds j hj
    rw [hmoved, if_pos hlisted] at hb
    exact hb.2.1 (armed_teardownSlots ha)
  · rw [hmoved] at hb
    split at hb
    · rcases scanThread_cases (t.lwps j) bp_addrs with h | ⟨a, ha, -, -, h⟩
      · exact hj (h ▸ hb)
      · rw [h] at hb
        exact hb.2.1 (armed_teardownSlots ha)
    · exact hj hb

end Sweep

/-! ## The program after debugging -/

section Transparent

variable {exec : Exec ρ δ} {orig : TargetMem}

theorem Session.Inv.teardown {covered : UInt64 → Prop} (hblind : Blind exec covered orig) {p₀ : Program ι ρ δ}
    {s : Session ι ρ δ} (h : s.Inv orig covered exec p₀)
    (hgap : ∀ i, (s.bps i).enabled = true → ∀ k ≤ i, (s.bps k).address ≠ 0)
    {r : Round ι} (hfinds : Finds s.bps s.target r) (rounds : List (Round ι)) :
    (fullTeardown exec s (r :: rounds)).text = orig ∧
      Steps orig exec p₀ (fullTeardown exec s (r :: rounds)).bare := by
  set bp_addrs := (teardownSlots s.bps).map fun i => (s.bps i).address
  set t : Target ι ρ δ := { s.target with text := pokeAll s.target.text s.bps.teardownWrites }
  have htext : t.text = orig := teardown_text h.patched hgap
  have harmed : ∀ a ∈ bp_addrs, Armed s.bps a := fun a ha => armed_teardownSlots ha
  have hfirst : Swept orig s.bps (int3ScanStuck bp_addrs r.listed t).1 := swept_of_finds htext hfinds
  have hscan : Steps orig exec p₀ (int3ScanStuck bp_addrs r.listed t).1.bare := by
    rw [← hfirst.program_eq, program_int3ScanStuck h.apart harmed]
    exact h.steps
  have hsweep : Swept orig s.bps (int3IterativeSweep exec bp_addrs (r :: rounds) t) ∧
      Steps orig exec p₀ (int3IterativeSweep exec bp_addrs (r :: rounds) t).bare := by
    unfold int3IterativeSweep
    rw [List.take_succ_cons, Threads.sweep]
    split
    · obtain ⟨hres, hsteps⟩ := hfirst.resumed hblind h.covered h.apart h.noInt3 r.resumed
      obtain ⟨hlast, hmore⟩ := hres.sweep hblind h.covered h.apart h.noInt3 harmed (rounds.take 3)
      exact ⟨hlast, hscan.trans (hsteps.trans hmore)⟩
    · exact ⟨hfirst, hscan⟩
  exact ⟨hsweep.1.text, hsweep.2⟩

/-- **Debugging is transparent.** Breakpoints come and go, threads run, step, trap and are continued in any order, and
the pump makes its passes; then the debugger is detached. As long as every step is clean, and at the end there is no
gap in the table and the first scan finds the threads that are behind breakpoints, the text is the one of the program,
and every thread stands, with its registers, where instructions of the program have brought it. -/
theorem debugging_transparent (covered : UInt64 → Prop) {s : Session ι ρ δ} (hblind : Blind exec covered s.target.text)
    (hfresh : ∀ i, (s.bps i).enabled = false) (evs : List (SessionEvent ι))
    (hclean : Along (Session.step exec) (fun u e => e.clean covered exec u) s evs) (r : Round ι)
    (rounds : List (Round ι)) :
    let u := evs.foldl (Session.step exec) s
    (∀ i, (u.bps i).enabled = true → ∀ k ≤ i, (u.bps k).address ≠ 0) → Finds u.bps u.target r →
      let t := fullTeardown exec u (r :: rounds)
      t.text = s.target.text ∧ ∃ acts : List ι, t.bare = acts.foldl (progStep s.target.text exec) s.target.bare := by
  intro u hgap hfinds
  have hnone : ∀ a, ¬Armed s.bps a := by
    intro a ha
    obtain ⟨i, hi, -⟩ := armed_iff.mp ha
    exact hi ((s.bps i).idle (hfresh i))
  have hfront : s.target.program s.bps = s.target.bare := by
    unfold Target.program Target.bare
    congr 1
    funext j
    rw [place_of_not_behind fun hb => hnone _ hb.2.2]
  have hinit : s.Inv s.target.text covered exec s.target.bare :=
    { patched := Patched.empty INT3 _ fun i => entries_of_disabled (hfresh i)
      placed := fun i hi => absurd hi (by simp [hfresh i])
      apart := fun a ha => absurd ha (hnone a)
      covered := fun a ha => absurd ha (hnone a)
      noInt3 := fun a ha => absurd ha (hnone a)
      steps := hfront ▸ Steps.refl _ exec _ }
  exact (hinit.run hblind evs hclean).teardown hblind hgap hfinds rounds

end Transparent

/-- Two threads at the start of `nop`s, and no breakpoints. -/
def nopThreads : Session (Fin 2) Unit Unit where
  target := { text := nopText, lwps := fun _ => { rip := 0x1000, regs := () }, data := () }
  bps := fun _ => .zero

/-- There is a first of two threads. -/
local instance lwpsNeZero : NeZero 2 := inferInstance

/-- Both threads run into a breakpoint; one trap is taken in the step of the other thread. -/
def bothHit : List (SessionEvent (Fin 2)) :=
  [.packet ⟨0, 1, 0x1000⟩ [], .packet ⟨1, 1, 0x2000⟩ [], .thread (.run 0), .thread (.run 1),
    .thread (.pass ⟨0, [], 1, true, true, []⟩), .thread (.run 1), .packet ⟨1, 0, 0⟩ [0, 1]]

theorem debugging_transparent_two :
    let t := fullTeardown nopExec (bothHit.foldl (Session.step nopExec) nopThreads) [⟨[0, 1], [.run 1]⟩]
    t.text = nopText ∧ ∃ acts : List (Fin 2), t.bare = acts.foldl (progStep nopText nopExec) nopThreads.target.bare :=
  debugging_transparent (fun a => a = 0x1000 ∨ a = 0x2000) (fun _ _ _ _ _ _ => rfl) (fun _ => rfl) bothHit
    (by decide +kernel) ⟨[0, 1], [.run 1]⟩ [] (by decide +kernel) (by decide +kernel)

/-! ## Which threads the teardown finds -/

section Found

variable {bps : BpTable}

/-- A thread behind the breakpoint at `a` is taken to belong to the one at `a'`. -/
def Shadows (a' a : UInt64) : Prop := a' = a + 1 ∨ (a' + 1 < a + 1 ∧ a + 1 < a' + 16)

instance (a' a : UInt64) : Decidable (Shadows a' a) := inferInstanceAs (Decidable (_ ∨ _))

theorem stops_iff {th : Lwp ρ} {a : UInt64} (hrip : th.rip = a + 1) (hpend : th.pending = some .brkpt) (a' : UInt64) :
    Stops th a' ↔ a' = a ∨ Shadows a' a := by
  unfold Stops Shadows
  rw [hrip]
  by_cases h : a = a'
  · subst h
    simp [hpend]
  · have hne : ¬a + 1 = a' + 1 := fun e => h (by simpa using e)
    rw [if_neg hne]
    constructor
    · rintro (h1 | h2)
      · exact .inr (.inl h1.symm)
      · exact .inr (.inr h2)
    · rintro (h1 | h2 | h3)
      · exact absurd h1.symm h
      · exact .inl h2.symm
      · exact .inr h3

/-- **Which threads the teardown puts back.** A thread that has run into a breakpoint is put in front of it if and only
if the slot of the breakpoint is one of the first sixteen with no gap before it, and no slot before it has a breakpoint
right behind this one, or in front of it by less than fifteen bytes. -/
theorem teardown_puts_back_iff (hd : bps.Distinct) {i : Fin 30} (hi : (bps i).address ≠ 0) {th : Lwp ρ}
    (hrip : th.rip = (bps i).address + 1) (hpend : th.pending = some .brkpt) :
    (scanThread th ((teardownSlots bps).map fun k => (bps k).address)).1.rip = (bps i).address ↔
      i.val < 16 ∧ (∀ k ≤ i, (bps k).address ≠ 0) ∧ ∀ k < i, ¬Shadows (bps k).address (bps i).address := by
  have hsorted : (teardownSlots bps).Pairwise (· < ·) :=
    (List.pairwise_lt_finRange 30).sublist ((List.take_sublist _ _).trans (List.takeWhile_sublist _))
  have hmem : ∀ k, k ∈ teardownSlots bps ↔ k.val < 16 ∧ ∀ m ≤ k, (bps m).address ≠ 0 := by
    intro k
    rw [teardownSlots, mem_take_takeWhile_finRange]
    simp only [decide_eq_true_eq]
  have hfind : (scanThread th ((teardownSlots bps).map fun k => (bps k).address)).1.rip = (bps i).address ↔
      (teardownSlots bps).find? (fun k => decide (Stops th (bps k).address)) = some i := by
    rw [scanThread_eq, List.find?_map]
    change _ ↔ (teardownSlots bps).find? ((fun a => decide (Stops th a)) ∘ fun k => (bps k).address) = some i
    cases hf : (teardownSlots bps).find? ((fun a => decide (Stops th a)) ∘ fun k => (bps k).address) with
    | none =>
      simp [hrip]
    | some k =>
      dsimp only [Option.map_some]
      have hk := mem_teardownSlots (List.mem_of_find?_eq_some hf)
      constructor
      · intro h
        split at h
        · exact congrArg some (hd k i (enabled_of_address hk) (enabled_of_address hi) h)
        · rw [hrip] at h
          simp at h
      · intro h
        cases h
        rw [if_pos hrip]
  rw [hfind, find?_eq_some_iff_of_pairwise hsorted, hmem]
  simp only [decide_eq_true_eq, decide_eq_false_iff_not, stops_iff hrip hpend, true_or, true_and]
  constructor
  · rintro ⟨⟨hlt, hgap⟩, hless⟩
    refine ⟨hlt, hgap, fun k hk hs => hless k ((hmem k).mpr ⟨?_, fun m hm => hgap m (hm.trans hk.le)⟩) hk (.inr hs)⟩
    exact lt_trans hk hlt
  · rintro ⟨hlt, hgap, hless⟩
    refine ⟨⟨hlt, hgap⟩, fun k hk hki => ?_⟩
    rintro (he | hs)
    · exact absurd (hd k i (enabled_of_address (mem_teardownSlots hk)) (enabled_of_address hi) he) hki.ne
    · exact hless k hki hs

end Found

/-- There is a first breakpoint slot. -/
local instance bpsNeZero : NeZero 30 := inferInstance

/-- Breakpoints at 0x1000 and, four bytes further on, at 0x1004. -/
def nearBps : BpTable := oneBp.arm oneText 1 0x1004

/-- The thread behind the second one is taken to belong to the first. -/
theorem teardown_puts_back_iff_near :
    let th : Lwp Unit := { rip := 0x1005, regs := (), pending := some .brkpt }
    (scanThread th ((teardownSlots nearBps).map fun k => (nearBps k).address)).1.rip ≠ 0x1004 := by
  intro th
  have hd : nearBps.Distinct := by decide
  have hi : (nearBps 1).address ≠ 0 := by decide
  have hrip : th.rip = (nearBps 1).address + 1 := by decide
  exact fun e => absurd ((teardown_puts_back_iff hd hi hrip rfl).mp e) (by decide)

end Threads

end Ps5Debugger

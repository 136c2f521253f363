import Mathlib
import Ps5Debugger.DebugBreakpoints

/-!
# The threads of a target that hit breakpoints

The event pump steps a thread over the instruction under a breakpoint while the other threads run, and what it waits
for after the step can be the trap of another thread (`dispatch_debug_events`, `debug.c`). `pass` is one pass of the
pump over the threads; the debug registers are taken to be unused, and no request to fail but those of the pass that
are named.

A thread that has run into an `int3` stands behind it, and is in front of it in the program (`place`). As long as no
pass takes the trap of another thread that stands behind another `int3` (`Event.clean`), and no breakpoint stands right
behind another one, each thread runs through the instructions of the program (`breakpoints_transparent`). A pass that
does take such a trap, or fails to put the thread back, lets the thread go on behind the `int3` (`putBack_keeps_iff`).

What the kernel does is the documented behaviour of `ptrace`: a trap is reported to one `wait4`, a thread with a trap
does not run, and one that makes a single step traps after it.
-/

namespace Ps5Debugger

open Lib

namespace Threads

variable {ι ρ δ : Type} [DecidableEq ι]

/-! ## Threads -/

/-- The traps, by their codes in `PT_LWPINFO`. -/
inductive TrapKind where
  | brkpt
  | trace
  deriving DecidableEq

/-- `TRAP_BRKPT`, `TRAP_TRACE` -/
def TrapKind.code : TrapKind → UInt32
  | .brkpt => 1
  | .trace => 2

/-- A thread: the instruction pointer, the other registers, whether it makes a single step, and its trap until that is
waited for. -/
structure Lwp (ρ : Type) where
  rip : UInt64
  regs : ρ
  tf : Bool := false
  pending : Option TrapKind := none

/-- The text of the target, its threads, and the memory that they work on. -/
structure Target (ι ρ δ : Type) where
  text : TargetMem
  lwps : ι → Lwp ρ
  data : δ

/-- What the instruction at an address does, by the text, the registers and the memory. -/
abbrev Exec (ρ δ : Type) : Type := TargetMem → UInt64 → ρ → δ → UInt64 × ρ × δ

def Target.setLwp (t : Target ι ρ δ) (i : ι) (th : Lwp ρ) : Target ι ρ δ :=
  { t with lwps := Function.update t.lwps i th }

/-- A thread runs one instruction, unless it has a trap. -/
def runLwp (exec : Exec ρ δ) (t : Target ι ρ δ) (i : ι) : Target ι ρ δ :=
  let th := t.lwps i
  if th.pending.isSome then t
  else if t.text th.rip = some INT3 then t.setLwp i { th with rip := th.rip + 1, pending := some .brkpt }
  else
    let r := exec t.text th.rip th.regs t.data
    { t.setLwp i ⟨r.1, r.2.1, false, if th.tf then some .trace else none⟩ with data := r.2.2 }

/-- `PT_STEP` of a thread. -/
def singleStep (t : Target ι ρ δ) (i : ι) : Target ι ρ δ := t.setLwp i { t.lwps i with tf := true }

/-- `wait4` reports the trap of a thread. -/
def waitFor (t : Target ι ρ δ) (i : ι) : Target ι ρ δ := t.setLwp i { t.lwps i with pending := none }

/-! ## The pump -/

/-- What a pass meets: the thread whose trap it waits for; the threads that run until a trap is waited for again,
and whose that is; whether `PT_LWPINFO` then says so and the registers of that thread can be read; and the threads of
the list whose registers can be read. -/
structure Pass (ι : Type) where
  lwpid : ι
  during : List ι
  consumed : ι
  peeked : Bool
  read : Bool
  listed : List ι

/-- A thread that has run into the `int3` in front of `target_rip`. -/
def stuck (t : Target ι ρ δ) (j : ι) (target_rip : UInt64) : Prop :=
  (t.lwps j).rip = target_rip ∧ (t.lwps j).pending = some .brkpt

instance (t : Target ι ρ δ) (j : ι) (target_rip : UInt64) : Decidable (stuck t j target_rip) :=
  inferInstanceAs (Decidable (_ ∧ _))

/-- A thread behind the address goes back to it. -/
def rewind (bp_addr : UInt64) (t : Target ι ρ δ) (j : ι) : Target ι ρ δ :=
  if stuck t j (bp_addr + 1) then t.setLwp j { t.lwps j with rip := bp_addr } else t

/-- The threads that are looked at when the trap is, or may be, the one of another thread: that thread, or all the
others when it is not stuck. -/
def siblings (bp_addr : UInt64) (p : Pass ι) (t : Target ι ρ δ) : List ι :=
  if p.peeked ∧ p.consumed = p.lwpid then []
  else if p.peeked ∧ p.read ∧ stuck t p.consumed (bp_addr + 1) then [p.consumed]
  else p.listed.filter fun j => j ≠ p.lwpid ∧ ¬(p.peeked ∧ j = p.consumed)

/-- The thread is put in front of the instruction, whose byte is back, and makes its step while others run. -/
def stepOver (exec : Exec ρ δ) (bps : BpTable) (i : Fin 30) (p : Pass ι) (t : Target ι ρ δ) : Target ι ρ δ :=
  let t := { t with text := poke t.text (bps i).address (bps i).saved }
  let t := t.setLwp p.lwpid { t.lwps p.lwpid with rip := (t.lwps p.lwpid).rip - 1 }
  p.during.foldl (runLwp exec) (singleStep t p.lwpid)

/-- The rest of the pass: threads are put back, the trap has been waited for, and the `int3` is back. -/
def putBack (bps : BpTable) (i : Fin 30) (p : Pass ι) (t : Target ι ρ δ) : Target ι ρ δ :=
  let t := (siblings (bps i).address p t).foldl (rewind (bps i).address) t
  let t := waitFor t p.consumed
  { t with text := poke t.text (bps i).address INT3 }

/-- The trap of a thread as the pump sees it. -/
def trapOf (th : Lwp ρ) (kind : TrapKind) : Trap := ⟨kind.code, some th.rip, some th.rip⟩

/-- The breakpoint that a pass steps over. -/
def hitOf (bps : BpTable) (th : Lwp ρ) : Option (Fin 30) :=
  match th.pending with
  | none => none
  | some kind =>
    if bps.absorbs (trapOf th kind) then none
    else if kind = .trace then none else bps.matched (th.rip - 1)

/-- `dispatch_debug_events` -/
def pass (exec : Exec ρ δ) (bps : BpTable) (t : Target ι ρ δ) (p : Pass ι) : Target ι ρ δ :=
  match hitOf bps (t.lwps p.lwpid) with
  | none => waitFor t p.lwpid
  | some i => putBack bps i p (stepOver exec bps i p (waitFor t p.lwpid))

/-- What goes on: a thread runs, the client has a thread make a single step, the pump makes a pass. -/
inductive Event (ι : Type) where
  | run (i : ι)
  | singleStep (i : ι)
  | pass (p : Pass ι)

/-- What an event does. -/
def step (exec : Exec ρ δ) (bps : BpTable) (t : Target ι ρ δ) : Event ι → Target ι ρ δ
  | .run i => runLwp exec t i
  | .singleStep i => singleStep t i
  | .pass p => pass exec bps t p

/-! ## The program -/

/-- The program without breakpoints: where each thread stands, its registers, and the memory. -/
structure Program (ι ρ δ : Type) where
  threads : ι → UInt64 × ρ
  data : δ

def Program.setThread (q : Program ι ρ δ) (i : ι) (th : UInt64 × ρ) : Program ι ρ δ :=
  { q with threads := Function.update q.threads i th }

/-- A thread runs one instruction of the program. Behind an `int3` of its own it goes on. -/
def progStep (orig : TargetMem) (exec : Exec ρ δ) (q : Program ι ρ δ) (i : ι) : Program ι ρ δ :=
  let th := q.threads i
  if orig th.1 = some INT3 then q.setThread i (th.1 + 1, th.2)
  else
    let r := exec orig th.1 th.2 q.data
    { q.setThread i (r.1, r.2.1) with data := r.2.2 }

/-- The program gets from one state to the other, whichever threads run. -/
def Steps (orig : TargetMem) (exec : Exec ρ δ) (q q' : Program ι ρ δ) : Prop :=
  ∃ acts : List ι, q' = acts.foldl (progStep orig exec) q

theorem Steps.refl (orig : TargetMem) (exec : Exec ρ δ) (q : Program ι ρ δ) : Steps orig exec q q := ⟨[], rfl⟩

theorem Steps.one (orig : TargetMem) (exec : Exec ρ δ) (q : Program ι ρ δ) (i : ι) :
    Steps orig exec q (progStep orig exec q i) := ⟨[i], rfl⟩

theorem Steps.trans {orig : TargetMem} {exec : Exec ρ δ} {q q' q'' : Program ι ρ δ} (h : Steps orig exec q q')
    (h' : Steps orig exec q' q'') : Steps orig exec q q'' := by
  obtain ⟨acts, rfl⟩ := h
  obtain ⟨more, rfl⟩ := h'
  exact ⟨acts ++ more, List.foldl_append.symm⟩

/-- There is a breakpoint at the address. -/
def Armed (bps : BpTable) (a : UInt64) : Prop := (bps.matched a).isSome

instance (bps : BpTable) (a : UInt64) : Decidable (Armed bps a) := inferInstanceAs (Decidable (_ = true))

/-- A thread that has run into an `int3` of the debugger, and has not been put back. -/
def Behind (bps : BpTable) (th : Lwp ρ) : Prop :=
  th.pending = some .brkpt ∧ ¬Armed bps th.rip ∧ Armed bps (th.rip - 1)

instance (bps : BpTable) (th : Lwp ρ) : Decidable (Behind bps th) := inferInstanceAs (Decidable (_ ∧ _))

/-- Where a thread stands in the program. -/
def place (bps : BpTable) (th : Lwp ρ) : UInt64 := if Behind bps th then th.rip - 1 else th.rip

/-- What the target shows of the program. -/
def Target.program (bps : BpTable) (t : Target ι ρ δ) : Program ι ρ δ :=
  ⟨fun i => (place bps (t.lwps i), (t.lwps i).regs), t.data⟩

/-- No pass takes the trap of a thread behind an `int3`, but of one that it has put back in front: the thread is behind
the breakpoint that is stepped over, and the pump finds it there. -/
def Event.clean (exec : Exec ρ δ) (bps : BpTable) (t : Target ι ρ δ) : Event ι → Prop
  | .pass p => ∀ i, hitOf bps (t.lwps p.lwpid) = some i → p.consumed ≠ p.lwpid →
      let th := (stepOver exec bps i p (waitFor t p.lwpid)).lwps p.consumed
      Behind bps th → th.rip = (bps i).address + 1 ∧ if p.peeked then p.read = true else p.consumed ∈ p.listed
  | _ => True

instance (exec : Exec ρ δ) (bps : BpTable) (t : Target ι ρ δ) (e : Event ι) : Decidable (e.clean exec bps t) :=
  match e with
  | .pass p => inferInstanceAs (Decidable (∀ i, hitOf bps (t.lwps p.lwpid) = some i → p.consumed ≠ p.lwpid →
      let th := (stepOver exec bps i p (waitFor t p.lwpid)).lwps p.consumed
      Behind bps th → th.rip = (bps i).address + 1 ∧ if p.peeked then p.read = true else p.consumed ∈ p.listed))
  | .run _ | .singleStep _ => inferInstanceAs (Decidable True)

/-! ## The text -/

/-- The text is the one of the program but for breakpoints. -/
def Shows (bps : BpTable) (orig text : TargetMem) : Prop := ∀ a, text a = orig a ∨ Armed bps a ∧ text a = some INT3

/-- No instruction depends, but for its own first byte, on what stands at the given addresses: there are no breakpoints
inside of instructions, and none on what instructions read. -/
def Blind (exec : Exec ρ δ) (covered : UInt64 → Prop) (orig : TargetMem) : Prop :=
  ∀ text rip regs data, (∀ a, text a = orig a ∨ covered a) → text rip = orig rip →
    exec text rip regs data = exec orig rip regs data

theorem armed_of_matched {bps : BpTable} {a : UInt64} {i : Fin 30} (h : bps.matched a = some i) : Armed bps a := by
  rw [Armed, h]
  rfl

theorem armed_address {bps : BpTable} {i : Fin 30} (h : (bps i).address ≠ 0) : Armed bps (bps i).address := by
  rw [Armed, BpTable.matched, List.find?_isSome]
  exact ⟨i, List.mem_finRange i, by simp [h]⟩

theorem address_of_matched {bps : BpTable} {a : UInt64} {i : Fin 30} (h : bps.matched a = some i) :
    (bps i).address = a := by
  have := List.find?_some h
  simp only [decide_eq_true_eq] at this
  exact this.2

section Text

variable {bps : BpTable} {orig text : TargetMem}

theorem shows_of_patched (hp : Patched INT3 orig text bps.entries) (hplaced : bps.Placed) : Shows bps orig text := by
  intro a
  by_cases h : ∃ i b, bps.entries i = some (a, b)
  · obtain ⟨i, b, hi⟩ := h
    have hen : (bps i).enabled = true := by
      by_contra hne
      rw [entries_of_disabled (by simpa using hne)] at hi
      cases hi
    rw [entries_of_enabled hen] at hi
    cases hi
    exact .inr ⟨armed_address (hplaced i hen), hp.covered (entries_of_enabled hen)⟩
  · exact .inl (hp.free fun i b hi => h ⟨i, b, hi⟩)

/-- The saved byte is back at one of the breakpoints. -/
theorem shows_poke (hp : Patched INT3 orig text bps.entries) (hplaced : bps.Placed) {i : Fin 30}
    (hi : (bps i).address ≠ 0) :
    let text' := poke text (bps i).address (bps i).saved
    Shows bps orig text' ∧ text' (bps i).address = orig (bps i).address := by
  have hentry := entries_of_enabled (enabled_of_address hi)
  have hback : poke text (bps i).address (bps i).saved (bps i).address = orig (bps i).address := by
    rw [poke_self, hp.covered hentry, hp.saved hentry, Option.map_some]
  refine ⟨fun a => ?_, hback⟩
  by_cases ha : a = (bps i).address
  · rw [ha]
    exact .inl hback
  · rw [poke_ne _ _ ha]
    exact shows_of_patched hp hplaced a

end Text

/-! ## Places -/

section Places

variable {bps : BpTable} {th : Lwp ρ}

theorem place_of_not_behind (h : ¬Behind bps th) : place bps th = th.rip := if_neg h

theorem place_of_not_brkpt (h : th.pending ≠ some .brkpt) : place bps th = th.rip :=
  place_of_not_behind fun hb => h hb.1

theorem place_of_behind (h : Behind bps th) : place bps th = th.rip - 1 := if_pos h

theorem ne_sub_one (a : UInt64) : a ≠ a - 1 := by
  intro h
  have : a + 1 = a := by rw [h, UInt64.sub_add_cancel, ← h]
  simp at this

theorem behind_of_rip {a : UInt64} (hbp : Armed bps a) (hnext : ¬Armed bps (a + 1)) (hrip : th.rip = a + 1)
    (hpend : th.pending = some .brkpt) : Behind bps th := by
  refine ⟨hpend, hrip ▸ hnext, ?_⟩
  rwa [hrip, UInt64.add_sub_cancel]

end Places

/-! ## Threads run -/

@[simp]
theorem setLwp_text (t : Target ι ρ δ) (i : ι) (th : Lwp ρ) : (t.setLwp i th).text = t.text := rfl

@[simp]
theorem setLwp_lwps (t : Target ι ρ δ) (i : ι) (th : Lwp ρ) :
    (t.setLwp i th).lwps = Function.update t.lwps i th := rfl

theorem program_setLwp (bps : BpTable) (t : Target ι ρ δ) (i : ι) (th : Lwp ρ) :
    (t.setLwp i th).program bps = (t.program bps).setThread i (place bps th, th.regs) := by
  unfold Target.program Program.setThread Target.setLwp
  congr 1
  funext j
  by_cases hj : j = i
  · subst hj
    simp
  · simp [hj]

/-- A thread whose place and registers stay shows nothing. -/
theorem program_setLwp_same {bps : BpTable} {t : Target ι ρ δ} {i : ι} {th : Lwp ρ}
    (hplace : place bps th = place bps (t.lwps i)) (hregs : th.regs = (t.lwps i).regs) :
    (t.setLwp i th).program bps = t.program bps := by
  rw [program_setLwp, hplace, hregs]
  unfold Program.setThread
  congr 1
  exact Function.update_eq_self i _

@[simp]
theorem runLwp_text (exec : Exec ρ δ) (t : Target ι ρ δ) (i : ι) : (runLwp exec t i).text = t.text := by
  unfold runLwp
  dsimp only
  split
  · rfl
  · split <;> rfl

theorem foldl_runLwp_text (exec : Exec ρ δ) (l : List ι) :
    ∀ t : Target ι ρ δ, (l.foldl (runLwp exec) t).text = t.text := by
  induction l with
  | nil => intro t; rfl
  | cons i l ih => intro t; exact (ih _).trans (runLwp_text exec t i)

section Runs

variable {exec : Exec ρ δ} {bps : BpTable} {orig : TargetMem} {covered : UInt64 → Prop}

/-- No breakpoint stands right behind another one. -/
def Apart (bps : BpTable) : Prop := ∀ a, Armed bps a → ¬Armed bps (a + 1)

/-- **A run of a thread** shows an instruction of the program, or nothing. -/
theorem runLwp_matched (hblind : Blind exec covered orig) (hcov : ∀ a, Armed bps a → covered a) (hapart : Apart bps)
    {t : Target ι ρ δ} (hshow : Shows bps orig t.text) (i : ι) :
    Steps orig exec (t.program bps) ((runLwp exec t i).program bps) := by
  unfold runLwp
  dsimp only
  split
  · exact Steps.refl orig exec _
  · rename_i hpend
    have hidle : (t.lwps i).pending = none := by simpa using hpend
    have hplace : place bps (t.lwps i) = (t.lwps i).rip := place_of_not_brkpt (by rw [hidle]; simp)
    split
    · rename_i hint3
      by_cases harm : Armed bps (t.lwps i).rip
      · -- an `int3` of the debugger: the thread is behind it, and in front of it in the program
        have hbehind : Behind bps { t.lwps i with rip := (t.lwps i).rip + 1, pending := some .brkpt } :=
          behind_of_rip harm (hapart _ harm) rfl rfl
        have hsame : place bps { t.lwps i with rip := (t.lwps i).rip + 1, pending := some .brkpt } =
            place bps (t.lwps i) := by
          rw [place_of_behind hbehind, hplace]
          exact UInt64.add_sub_cancel _ _
        rw [program_setLwp_same hsame rfl]
        exact Steps.refl orig exec _
      · -- an `int3` of the program
        have horig : orig (t.lwps i).rip = some INT3 := by
          rcases hshow (t.lwps i).rip with h | h
          · rw [← h, hint3]
          · exact absurd h.1 harm
        have hfront : ¬Behind bps { t.lwps i with rip := (t.lwps i).rip + 1, pending := some .brkpt } := by
          rintro ⟨-, -, h⟩
          refine harm ?_
          rwa [← UInt64.add_sub_cancel (t.lwps i).rip 1]
        convert Steps.one orig exec (t.program bps) i using 1
        rw [program_setLwp, place_of_not_behind hfront, progStep]
        simp only [Target.program, hplace, horig, if_true]
    · rename_i hint3
      have htext : t.text (t.lwps i).rip = orig (t.lwps i).rip := by
        rcases hshow (t.lwps i).rip with h | h
        · exact h
        · exact absurd h.2 hint3
      have hstep : progStep orig exec (t.program bps) i =
          let r := exec orig (t.lwps i).rip (t.lwps i).regs t.data
          { (t.program bps).setThread i (r.1, r.2.1) with data := r.2.2 } := by
        simp only [progStep, Target.program, hplace]
        exact if_neg (htext ▸ hint3)
      convert Steps.one orig exec (t.program bps) i using 1
      rw [hstep, hblind _ _ _ _ (fun a => (hshow a).imp_right fun h => hcov a h.1) htext]
      dsimp only
      set r := exec orig (t.lwps i).rip (t.lwps i).regs t.data
      have hthread : place bps ⟨r.1, r.2.1, false, if (t.lwps i).tf then some TrapKind.trace else none⟩ = r.1 := by
        refine place_of_not_brkpt ?_
        dsimp only
        split <;> simp
      have hset := program_setLwp bps t i ⟨r.1, r.2.1, false, if (t.lwps i).tf then some .trace else none⟩
      rw [hthread] at hset
      exact congrArg (fun q : Program ι ρ δ => { q with data := r.2.2 }) hset

theorem runLwp_matched_foldl (hblind : Blind exec covered orig) (hcov : ∀ a, Armed bps a → covered a)
    (hapart : Apart bps) (l : List ι) :
    ∀ {t : Target ι ρ δ}, Shows bps orig t.text →
      Steps orig exec (t.program bps) ((l.foldl (runLwp exec) t).program bps) := by
  induction l with
  | nil => intro t _; exact Steps.refl orig exec _
  | cons i l ih =>
    intro t hshow
    exact (runLwp_matched hblind hcov hapart hshow i).trans (ih (by rwa [runLwp_text]))

/-- The thread that makes the step: in front of the instruction, through with it, or behind an `int3` that is the
program's own. -/
def Stepping (orig : TargetMem) (a : UInt64) (th : Lwp ρ) : Prop :=
  (th.rip = a ∧ th.pending = none ∧ th.tf = true) ∨ th.pending = some .trace ∨
    (th.pending = some .brkpt ∧ th.rip = a + 1 ∧ orig a = some INT3)

theorem Stepping.runLwp {a : UInt64} {t : Target ι ρ δ} {i : ι} (htext : t.text a = orig a)
    (h : Stepping orig a (t.lwps i)) (j : ι) : Stepping orig a ((runLwp exec t j).lwps i) := by
  by_cases hj : j = i
  · subst hj
    unfold Threads.runLwp
    dsimp only
    split
    · exact h
    · rename_i hpend
      have hidle : (t.lwps j).pending = none := by simpa using hpend
      obtain ⟨hrip, -, htf⟩ | h | ⟨h, -, -⟩ := h
      · split
        · rename_i hint3
          rw [setLwp_lwps, Function.update_self]
          exact .inr (.inr ⟨rfl, by rw [← hrip], by rw [← htext, ← hrip, hint3]⟩)
        · dsimp only
          rw [setLwp_lwps, Function.update_self]
          exact .inr (.inl rfl)
      · rw [hidle] at h
        cases h
      · rw [hidle] at h
        cases h
  · have hother : (Threads.runLwp exec t j).lwps i = t.lwps i := by
      unfold Threads.runLwp
      dsimp only
      split
      · rfl
      · split
        · exact Function.update_of_ne (fun e => hj e.symm) _ _
        · exact Function.update_of_ne (fun e => hj e.symm) _ _
    rwa [hother]

theorem Stepping.foldl_runLwp {a : UInt64} {i : ι} (l : List ι) :
    ∀ {t : Target ι ρ δ}, t.text a = orig a → Stepping orig a (t.lwps i) →
      Stepping orig a ((l.foldl (Threads.runLwp exec) t).lwps i) := by
  induction l with
  | nil => intro t _ h; exact h
  | cons j l ih =>
    intro t htext h
    exact ih ((congrFun (runLwp_text exec t j) a).trans htext) (h.runLwp htext j)

/-! ## A pass -/

theorem hitOf_some {th : Lwp ρ} {i : Fin 30} (h : hitOf bps th = some i) :
    th.pending = some .brkpt ∧ ¬Armed bps th.rip ∧ bps.matched (th.rip - 1) = some i := by
  unfold hitOf at h
  cases hp : th.pending with
  | none =>
    rw [hp] at h
    cases h
  | some kind =>
    rw [hp] at h
    dsimp only at h
    cases kind with
    | trace => split at h <;> simp at h
    | brkpt =>
      split at h
      · cases h
      · rename_i habs
        refine ⟨rfl, fun harm => habs ?_, by simpa using h⟩
        rw [BpTable.absorbs, trapOf]
        simp only [TrapKind.code]
        rw [Armed] at harm
        simp [harm]

theorem not_behind_of_hitOf_none {th : Lwp ρ} (h : hitOf bps th = none) : ¬Behind bps th := by
  rintro ⟨hpend, hrip, hprev⟩
  rw [hitOf, hpend] at h
  dsimp only at h
  rw [if_neg ?_, if_neg (by simp)] at h
  · rw [Armed, h] at hprev
    cases hprev
  · rw [BpTable.absorbs, trapOf]
    simp only [TrapKind.code]
    rw [Armed] at hrip
    simp [hrip]

theorem behind_of_hitOf {th : Lwp ρ} {i : Fin 30} (h : hitOf bps th = some i) : Behind bps th :=
  ⟨(hitOf_some h).1, (hitOf_some h).2.1, armed_of_matched (hitOf_some h).2.2⟩

/-- There is no breakpoint right behind the one that is stepped over: the trap would have been taken for its own. -/
theorem not_armed_next {th : Lwp ρ} {i : Fin 30} (h : hitOf bps th = some i) : ¬Armed bps ((bps i).address + 1) := by
  obtain ⟨-, hrip, hm⟩ := hitOf_some h
  rwa [address_of_matched hm, UInt64.sub_add_cancel]

/-- Threads that are put back, or not. -/
theorem foldl_rewind_lwps (a : UInt64) (l : List ι) : ∀ (t : Target ι ρ δ) (j : ι),
    (l.foldl (rewind a) t).lwps j =
      if j ∈ l ∧ stuck t j (a + 1) then { t.lwps j with rip := a } else t.lwps j := by
  induction l with
  | nil => intro t j; rfl
  | cons k l ih =>
    intro t j
    rw [List.foldl_cons, ih]
    by_cases hj : j = k
    · subst hj
      by_cases hs : stuck t j (a + 1)
      · have hfront : ¬stuck (rewind a t j) j (a + 1) := by
          rw [rewind, if_pos hs, stuck, setLwp_lwps, Function.update_self]
          simp
        rw [if_neg fun h => hfront h.2, if_pos ⟨List.mem_cons_self, hs⟩, rewind, if_pos hs, setLwp_lwps,
          Function.update_self]
      · rw [rewind, if_neg hs, if_neg fun h => hs h.2, if_neg fun h => hs h.2]
    · have hsame : (rewind a t k).lwps j = t.lwps j := by
        rw [rewind]
        split
        · exact Function.update_of_ne hj _ _
        · rfl
      simp only [stuck, hsame, List.mem_cons, hj, false_or]

theorem foldl_rewind_text (a : UInt64) (l : List ι) :
    ∀ t : Target ι ρ δ, (l.foldl (rewind a) t).text = t.text ∧ (l.foldl (rewind a) t).data = t.data := by
  induction l with
  | nil => intro t; exact ⟨rfl, rfl⟩
  | cons k l ih =>
    intro t
    have hone : (rewind a t k).text = t.text ∧ (rewind a t k).data = t.data := by
      rw [rewind]
      split <;> exact ⟨rfl, rfl⟩
    exact ⟨(ih _).1.trans hone.1, (ih _).2.trans hone.2⟩

/-- The start of the step: one thread is put in front of the instruction, and the saved byte is back. -/
theorem stepOver_eq (exec : Exec ρ δ) (bps : BpTable) (i : Fin 30) (p : Pass ι) (t : Target ι ρ δ) :
    stepOver exec bps i p (waitFor t p.lwpid) =
      p.during.foldl (runLwp exec)
        { t.setLwp p.lwpid
            { t.lwps p.lwpid with rip := (t.lwps p.lwpid).rip - 1, tf := true, pending := none } with
          text := poke t.text (bps i).address (bps i).saved } := by
  unfold stepOver singleStep waitFor Target.setLwp
  simp only [Function.update_self, Function.update_idem]

theorem stepOver_text (exec : Exec ρ δ) (bps : BpTable) (i : Fin 30) (p : Pass ι) (t : Target ι ρ δ) :
    (stepOver exec bps i p (waitFor t p.lwpid)).text = poke t.text (bps i).address (bps i).saved := by
  rw [stepOver_eq, foldl_runLwp_text]

theorem putBack_text (bps : BpTable) (i : Fin 30) (p : Pass ι) (t : Target ι ρ δ) :
    (putBack bps i p t).text = poke t.text (bps i).address INT3 := by
  unfold putBack
  dsimp only
  rw [waitFor, setLwp_text, (foldl_rewind_text _ _ t).1]

/-- A pass leaves the text that the server leaves (`dispatchTrap`). -/
theorem pass_text (exec : Exec ρ δ) (bps : BpTable) (t : Target ι ρ δ) (p : Pass ι) :
    (pass exec bps t p).text =
      match hitOf bps (t.lwps p.lwpid) with
      | none => t.text
      | some i => pokeAll t.text (bps.hitWrites i) := by
  unfold pass
  cases hitOf bps (t.lwps p.lwpid) with
  | none => rfl
  | some i =>
    dsimp only
    rw [putBack_text, stepOver_text]
    rfl

theorem pass_text_dispatchTrap {s : ServerState} {c : ClientId} {exec : Exec ρ δ} {t : Target ι ρ δ} {p : Pass ι}
    {kind : TrapKind} (htext : t.text = s.mem (s.clients c).dbgctx.pid)
    (hkind : (t.lwps p.lwpid).pending = some kind) :
    (pass exec (s.clients c).dbgctx.bps t p).text =
      (dispatchTrap s c (trapOf (t.lwps p.lwpid) kind)).server.mem (s.clients c).dbgctx.pid := by
  rw [pass_text, hitOf, hkind, htext]
  unfold dispatchTrap
  dsimp only
  by_cases habs : (s.clients c).dbgctx.bps.absorbs (trapOf (t.lwps p.lwpid) kind) = true
  · rw [if_pos habs, if_pos habs]
  · rw [if_neg habs, if_neg habs, trapOf]
    dsimp only
    cases hm : (s.clients c).dbgctx.bps.matched ((t.lwps p.lwpid).rip - 1) with
    | none => cases kind <;> rfl
    | some i =>
      cases kind with
      | brkpt => simp [TrapKind.code, ServerState.writeAll]
      | trace => rfl

/-- The thread is among those that are put back. -/
theorem mem_siblings_iff {a : UInt64} {p : Pass ι} {t : Target ι ρ δ} (hne : p.consumed ≠ p.lwpid) :
    p.consumed ∈ siblings a p t ∧ stuck t p.consumed (a + 1) ↔
      stuck t p.consumed (a + 1) ∧ if p.peeked then p.read = true else p.consumed ∈ p.listed := by
  unfold siblings
  cases hpeek : p.peeked with
  | false => simp [hne, and_comm]
  | true =>
    simp only [hne, and_false, if_false, true_and, if_true]
    by_cases h : p.read = true ∧ stuck t p.consumed (a + 1)
    · simp [h]
    · rw [if_neg h]
      simp only [List.mem_filter, ne_eq, not_true_eq_false, and_false, decide_false, Bool.false_eq_true, false_and,
        false_iff]
      exact fun h' => h ⟨h'.2, h'.1⟩

theorem notMem_siblings_lwpid {a : UInt64} {p : Pass ι} {t : Target ι ρ δ} (heq : p.consumed = p.lwpid) :
    p.lwpid ∉ siblings a p t := by
  unfold siblings
  cases hpeek : p.peeked with
  | false => simp
  | true => simp [heq]

theorem putBack_lwps (bps : BpTable) (i : Fin 30) (p : Pass ι) (t : Target ι ρ δ) (j : ι) :
    (putBack bps i p t).lwps j =
      let a := (bps i).address
      let th := if j ∈ siblings a p t ∧ stuck t j (a + 1) then { t.lwps j with rip := a } else t.lwps j
      if j = p.consumed then { th with pending := none } else th := by
  unfold putBack waitFor
  dsimp only
  rw [setLwp_lwps]
  by_cases hj : j = p.consumed
  · rw [hj, Function.update_self, foldl_rewind_lwps, if_pos rfl]
  · rw [Function.update_of_ne hj, foldl_rewind_lwps, if_neg hj]

omit [DecidableEq ι] in
/-- A thread that is put back stays where it is in the program. -/
theorem place_rewound {a : UInt64} (ha : Armed bps a) (hnext : ¬Armed bps (a + 1)) {t : Target ι ρ δ} {j : ι}
    (hs : stuck t j (a + 1)) :
    place bps { t.lwps j with rip := a } = place bps (t.lwps j) := by
  rw [place_of_behind (behind_of_rip ha hnext hs.1 hs.2), hs.1, UInt64.add_sub_cancel]
  exact place_of_not_behind fun h => h.2.1 ha

/-- Every thread but the one whose trap is taken keeps its place. -/
theorem place_putBack_of_ne {i : Fin 30} (hi : (bps i).address ≠ 0) (hnext : ¬Armed bps ((bps i).address + 1))
    {p : Pass ι} {t : Target ι ρ δ} {j : ι} (hj : j ≠ p.consumed) :
    place bps ((putBack bps i p t).lwps j) = place bps (t.lwps j) := by
  rw [putBack_lwps]
  dsimp only
  rw [if_neg hj]
  split
  · rename_i h
    exact place_rewound (armed_address hi) hnext h.2
  · rfl

theorem regs_putBack (bps : BpTable) (i : Fin 30) (p : Pass ι) (t : Target ι ρ δ) (j : ι) :
    ((putBack bps i p t).lwps j).regs = (t.lwps j).regs := by
  rw [putBack_lwps]
  dsimp only
  split <;> split <;> rfl

theorem putBack_data (bps : BpTable) (i : Fin 30) (p : Pass ι) (t : Target ι ρ δ) :
    (putBack bps i p t).data = t.data := by
  unfold putBack
  exact (foldl_rewind_text _ _ t).2

/-- The one whose trap is taken keeps it exactly when it is not behind an `int3`, or is put back. -/
theorem place_putBack_consumed_iff {i : Fin 30} (hi : (bps i).address ≠ 0)
    (hnext : ¬Armed bps ((bps i).address + 1)) {p : Pass ι} {t : Target ι ρ δ} (hne : p.consumed ≠ p.lwpid) :
    let th := t.lwps p.consumed
    place bps ((putBack bps i p t).lwps p.consumed) = place bps th ↔
      (Behind bps th → th.rip = (bps i).address + 1 ∧ if p.peeked then p.read = true else p.consumed ∈ p.listed) := by
  dsimp only
  rw [putBack_lwps]
  dsimp only
  rw [if_pos rfl, place_of_not_brkpt (by simp)]
  by_cases hput : p.consumed ∈ siblings (bps i).address p t ∧ stuck t p.consumed ((bps i).address + 1)
  · have hfound := (mem_siblings_iff hne).mp hput
    have hfront : place bps { t.lwps p.consumed with rip := (bps i).address } = (bps i).address :=
      place_of_not_behind fun h => h.2.1 (armed_address hi)
    rw [if_pos hput, ← place_rewound (armed_address hi) hnext hput.2]
    exact ⟨fun _ _ => ⟨hfound.1.1, hfound.2⟩, fun _ => hfront.symm⟩
  · rw [if_neg hput]
    constructor
    · intro hplace hbehind
      rw [place_of_behind hbehind] at hplace
      exact absurd hplace (ne_sub_one _)
    · intro hfound
      have hfront : ¬Behind bps (t.lwps p.consumed) := by
        intro hbehind
        obtain ⟨hrip, hfound⟩ := hfound hbehind
        exact hput ((mem_siblings_iff hne).mpr ⟨⟨hrip, hbehind.1⟩, hfound⟩)
      exact (place_of_not_behind hfront).symm

/-- **What the end of a pass does to the threads.** When the trap that the pass has taken is the one of another
thread, all threads keep their places in the program if and only if that thread is not behind an `int3`, or stands
behind the breakpoint of this pass and is found there. -/
theorem putBack_keeps_iff {i : Fin 30} (hi : (bps i).address ≠ 0) (hnext : ¬Armed bps ((bps i).address + 1))
    {p : Pass ι} {t : Target ι ρ δ} (hne : p.consumed ≠ p.lwpid) :
    let th := t.lwps p.consumed
    (putBack bps i p t).program bps = t.program bps ↔
      (Behind bps th → th.rip = (bps i).address + 1 ∧ if p.peeked then p.read = true else p.consumed ∈ p.listed) := by
  have hconsumed := place_putBack_consumed_iff hi hnext hne (t := t)
  dsimp only at hconsumed ⊢
  rw [← hconsumed]
  constructor
  · intro h
    exact congrArg (fun q : Program ι ρ δ => (q.threads p.consumed).1) h
  · intro h
    unfold Target.program
    rw [putBack_data]
    congr 1
    funext j
    rw [regs_putBack]
    by_cases hj : j = p.consumed
    · rw [hj, h]
    · rw [place_putBack_of_ne hi hnext hj]

/-- The trap of the step itself. -/
theorem putBack_matched_own {i : Fin 30} (hi : (bps i).address ≠ 0) (hnext : ¬Armed bps ((bps i).address + 1))
    {p : Pass ι} {t : Target ι ρ δ} (heq : p.consumed = p.lwpid)
    (hstep : Stepping orig (bps i).address (t.lwps p.lwpid)) :
    Steps orig exec (t.program bps) ((putBack bps i p t).program bps) := by
  have hown : (putBack bps i p t).lwps p.lwpid = { t.lwps p.lwpid with pending := none } := by
    rw [putBack_lwps]
    dsimp only
    rw [if_pos heq.symm, if_neg fun h => notMem_siblings_lwpid heq h.1]
  have hprogram : (putBack bps i p t).program bps =
      (t.program bps).setThread p.lwpid ((t.lwps p.lwpid).rip, (t.lwps p.lwpid).regs) := by
    unfold Target.program Program.setThread
    rw [putBack_data]
    congr 1
    funext j
    by_cases hj : j = p.lwpid
    · subst hj
      rw [hown, Function.update_self, place_of_not_brkpt (by simp)]
    · rw [Function.update_of_ne hj, regs_putBack, place_putBack_of_ne hi hnext (heq ▸ hj)]
  by_cases hbehind : Behind bps (t.lwps p.lwpid)
  · -- the program has an `int3` of its own under the breakpoint
    obtain ⟨-, h, -⟩ | h | ⟨-, hrip, hint3⟩ := hstep
    · exact absurd (hbehind.1.symm.trans h) (by simp)
    · exact absurd (hbehind.1.symm.trans h) (by simp)
    · have hplace : place bps (t.lwps p.lwpid) = (bps i).address := by
        rw [place_of_behind hbehind, hrip, UInt64.add_sub_cancel]
      convert Steps.one orig exec (t.program bps) p.lwpid using 1
      rw [hprogram, progStep]
      simp only [Target.program, hplace, hint3, if_true, hrip]
  · have hsame : (putBack bps i p t).program bps = t.program bps := by
      rw [hprogram]
      unfold Program.setThread Target.program
      congr 1
      rw [← place_of_not_behind hbehind]
      exact Function.update_eq_self p.lwpid fun j => (place bps (t.lwps j), (t.lwps j).regs)
    rw [hsame]
    exact Steps.refl orig exec _

end Runs

section Passes

variable {exec : Exec ρ δ} {bps : BpTable} {orig : TargetMem} {covered : UInt64 → Prop}

/-- A clean pass shows steps of the program, and leaves the text. -/
theorem pass_matched (hblind : Blind exec covered orig) (hcov : ∀ a, Armed bps a → covered a) (hapart : Apart bps)
    (hplaced : bps.Placed) {t : Target ι ρ δ} (hp : Patched INT3 orig t.text bps.entries) {p : Pass ι}
    (hclean : Event.clean exec bps t (.pass p)) :
    (pass exec bps t p).text = t.text ∧
      Steps orig exec (t.program bps) ((pass exec bps t p).program bps) := by
  have htext := pass_text exec bps t p
  unfold pass at htext ⊢
  cases hh : hitOf bps (t.lwps p.lwpid) with
  | none =>
    refine ⟨rfl, ?_⟩
    dsimp only
    have hfront := not_behind_of_hitOf_none hh
    have hsame : place bps { t.lwps p.lwpid with pending := none } = place bps (t.lwps p.lwpid) := by
      rw [place_of_not_behind hfront]
      exact place_of_not_brkpt (by simp)
    rw [waitFor, program_setLwp_same hsame rfl]
    exact Steps.refl orig exec _
  | some i =>
    rw [hh] at htext
    dsimp only at htext ⊢
    obtain ⟨hpend, hrip, hm⟩ := hitOf_some hh
    have haddr := matched_address hm
    have hat := address_of_matched hm
    have hentry := entries_of_enabled (enabled_of_address haddr)
    have hnext := not_armed_next hh
    refine ⟨htext.trans (hp.step_over hentry), ?_⟩
    obtain ⟨hshow, hback⟩ := shows_poke hp hplaced haddr
    have hover : Steps orig exec (t.program bps) ((stepOver exec bps i p (waitFor t p.lwpid)).program bps) := by
      rw [stepOver_eq]
      refine Steps.trans ?_ (runLwp_matched_foldl hblind hcov hapart p.during hshow)
      have hsame : place bps { t.lwps p.lwpid with rip := (t.lwps p.lwpid).rip - 1, tf := true, pending := none } =
          place bps (t.lwps p.lwpid) := by
        rw [place_of_behind (behind_of_hitOf hh)]
        exact place_of_not_brkpt (by simp)
      have hstart := program_setLwp_same (t := t) hsame rfl
      convert Steps.refl orig exec (t.program bps) using 1
      exact hstart
    refine hover.trans ?_
    by_cases heq : p.consumed = p.lwpid
    · refine putBack_matched_own haddr hnext heq ?_
      rw [stepOver_eq]
      refine Stepping.foldl_runLwp p.during hback (.inl ?_)
      dsimp only
      rw [setLwp_lwps, Function.update_self]
      exact ⟨hat.symm, rfl, rfl⟩
    · rw [(putBack_keeps_iff haddr hnext heq).mpr (hclean i hh heq)]
      exact Steps.refl orig exec _

theorem step_matched (hblind : Blind exec covered orig) (hcov : ∀ a, Armed bps a → covered a) (hapart : Apart bps)
    (hplaced : bps.Placed) {t : Target ι ρ δ} (hp : Patched INT3 orig t.text bps.entries) {e : Event ι}
    (hclean : e.clean exec bps t) :
    (step exec bps t e).text = t.text ∧ Steps orig exec (t.program bps) ((step exec bps t e).program bps) := by
  cases e with
  | run i => exact ⟨runLwp_text exec t i, runLwp_matched hblind hcov hapart (shows_of_patched hp hplaced) i⟩
  | singleStep i =>
    refine ⟨rfl, ?_⟩
    have hsame : place bps { t.lwps i with tf := true } = place bps (t.lwps i) := rfl
    rw [step, singleStep, program_setLwp_same hsame rfl]
    exact Steps.refl orig exec _
  | pass p => exact pass_matched hblind hcov hapart hplaced hp hclean

variable (exec) in
/-- **What a pass loses.** When the trap that is waited for at the end of the step is the one of another thread, the
rest of the pass keeps the places of all threads if and only if that thread is not behind an `int3`, or stands behind
the breakpoint of this pass and is found there. Otherwise it goes on behind the `int3`: no trap is left of it. -/
theorem pass_keeps_iff {t : Target ι ρ δ} {p : Pass ι} {i : Fin 30}
    (hhit : hitOf bps (t.lwps p.lwpid) = some i) (hne : p.consumed ≠ p.lwpid) :
    let u := stepOver exec bps i p (waitFor t p.lwpid)
    let th := u.lwps p.consumed
    let found :=
      Behind bps th → th.rip = (bps i).address + 1 ∧ if p.peeked then p.read = true else p.consumed ∈ p.listed
    ((pass exec bps t p).program bps = u.program bps ↔ found) ∧
      (¬found → (pass exec bps t p).lwps p.consumed = { th with pending := none } ∧ Armed bps (th.rip - 1)) := by
  dsimp only
  have haddr := matched_address (hitOf_some hhit).2.2
  have hpass : pass exec bps t p = putBack bps i p (stepOver exec bps i p (waitFor t p.lwpid)) := by
    unfold pass
    rw [hhit]
  rw [hpass]
  refine ⟨putBack_keeps_iff haddr (not_armed_next hhit) hne, fun hlost => ?_⟩
  obtain ⟨hbehind, hlost⟩ := Classical.not_imp.mp hlost
  refine ⟨?_, hbehind.2.2⟩
  rw [putBack_lwps]
  dsimp only
  rw [if_pos rfl, if_neg fun h => hlost ?_]
  obtain ⟨hs, hfound⟩ := (mem_siblings_iff hne).mp h
  exact ⟨hs.1, hfound⟩

end Passes

/-! Two threads that run through `nop`s, with breakpoints at 0x1000 and 0x2000. -/

def nopText : TargetMem := fun _ => some 0x90

/-- Instructions of one byte that do nothing. -/
def nopExec : Exec Unit Unit := fun _ rip regs data => (rip + 1, regs, data)

def oneBp : BpTable := BpTable.arm (fun _ => .zero) nopText 0 0x1000

def oneText : TargetMem := pokeAll nopText [(0x1000, INT3)]

def twoBps : BpTable := oneBp.arm oneText 1 0x2000

def twoText : TargetMem := pokeAll oneText [(0x2000, INT3)]

/-- The second thread runs into the other breakpoint in the step of the first one. -/
def otherHit : Target (Fin 2) Unit Unit where
  text := twoText
  lwps := fun i =>
    if i = 0 then { rip := 0x1001, regs := (), pending := some .brkpt } else { rip := 0x2000, regs := () }
  data := ()

theorem pass_keeps_iff_two :
    let p : Pass (Fin 2) := ⟨0, [1], 1, true, true, [0, 1]⟩
    (pass nopExec twoBps otherHit p).program twoBps ≠
        (stepOver nopExec twoBps 0 p (waitFor otherHit 0)).program twoBps ∧
      (pass nopExec twoBps otherHit p).lwps 1 = ⟨0x2001, (), false, none⟩ := by
  have hhit : hitOf twoBps (otherHit.lwps 0) = some 0 := by decide
  have h := @pass_keeps_iff _ _ _ _ nopExec twoBps otherHit ⟨0, [1], 1, true, true, [0, 1]⟩ _ hhit (by decide)
  exact ⟨fun e => absurd (h.1.mp e) (by decide), (h.2 (by decide)).1⟩

end Threads

end Ps5Debugger

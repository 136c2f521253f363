import Mathlib.Logic.Function.Basic
import Ps5Debugger.Watchlist

/-!
# The loop that keeps values frozen

`WatchlistManager` and `CheatManager` write what is frozen to the game again and again, in a loop that the first
`freeze` launches and the last `unfreeze` cancels (`WatchlistManager.kt`, `CheatManager.kt`). The map of what is
frozen has a lock; the flag `isFreezeLoopRunning` and `freezeJob` have none, and a loop that ends writes the
flag once more. The model is that of both: the keys `κ` are addresses and the values `ν` their bytes in
`WatchlistManager`; in `CheatManager`, which never clears its map, they are the ids of cheats and their writes.

`freeze_loop_runs` says what it takes for exactly one loop to run while something is frozen: what a start or a
stop does to the flag and to the job is not interrupted by another, and a start, and a loop that ends, find the
flag false when they write it.
-/

namespace Ps5Debugger

open Lib

namespace FreezeLoop

variable {κ ν : Type}

/-! ## The state -/

/-- Where a loop is: dispatched, at the two conditions of its `while`, at the lock, with the lock, at the write
to the game, in `delay`, behind the `while`, and at its end. -/
inductive JobPc : Type where
  | dispatch | isActive | isRunning | lock | collect | write | delay | leave | done
  deriving DecidableEq

/-- A loop, and whether it has been cancelled. -/
structure Job where
  cancelled : Bool
  pc : JobPc
  deriving DecidableEq

/-- Where an operation is. `freeze` starts the loop behind its lock, `unfreeze` and `clearFrozen` stop it
under theirs. -/
inductive Pc (κ ν : Type) : Type where
  | freezeLock (key : κ) (value : ν)
  | freezePut (key : κ) (value : ν)
  | freezeUnlock
  | startRead
  | startSet
  | startLaunch
  | startStore (job : Nat)
  | unfreezeLock (key : κ)
  | unfreezeRemove (key : κ)
  | clearLock
  | clearMap
  | stopSet
  | stopCancel
  | stopDrop
  | unlock

/-- Who has the lock. -/
inductive Owner : Type where
  | op (i : Nat)
  | job (j : Nat)
  deriving DecidableEq

/-- The map, `freezeMutex`, the flag, `freezeJob`, the loops that have been launched, and the operations in
progress. -/
structure State (κ ν : Type) where
  frozen : List (κ × ν)
  freezeMutex : Option Owner
  isFreezeLoopRunning : Bool
  freezeJob : Option Nat
  jobs : List Job
  ops : Nat → Option (Pc κ ν)

def State.init : State κ ν := ⟨[], none, false, none, [], fun _ => none⟩

/-- The operations. -/
inductive Call (κ ν : Type) : Type where
  | freeze (key : κ) (value : ν)
  | unfreeze (key : κ)
  | clearFrozen

/-- An operation is called, an operation goes on, a loop goes on, or a cancelled loop throws where it waits. -/
inductive Step (κ ν : Type) : Type where
  | call (i : Nat) (c : Call κ ν)
  | op (i : Nat)
  | job (j : Nat)
  | jobThrows (j : Nat)

/-! ## The steps -/

/-- The operation goes to another place, or has completed. -/
def State.goto (s : State κ ν) (i : Nat) (pc : Option (Pc κ ν)) : State κ ν :=
  { s with ops := Function.update s.ops i pc }

def State.setJob (s : State κ ν) (j : Nat) (job : Job) : State κ ν := { s with jobs := s.jobs.set j job }

/-- `freezeJob?.cancel()` -/
def State.cancel (s : State κ ν) : State κ ν :=
  match s.freezeJob with
  | some j => { s with jobs := s.jobs.modify j fun job => { job with cancelled := true } }
  | none => s

def Call.start : Call κ ν → Pc κ ν
  | .freeze key value => .freezeLock key value
  | .unfreeze key => .unfreezeLock key
  | .clearFrozen => .clearLock

/-- `freezeMutex.lock()`, which waits as long as the lock is taken. -/
def State.lock (s : State κ ν) (o : Owner) (next : State κ ν → State κ ν) : State κ ν :=
  if s.freezeMutex = none then next { s with freezeMutex := some o } else s

def opStep [DecidableEq κ] (s : State κ ν) (i : Nat) : Pc κ ν → State κ ν
  | .freezeLock key value => s.lock (.op i) (·.goto i (some (.freezePut key value)))
  | .freezePut key value =>
    { s.goto i (some .freezeUnlock) with frozen := (key, value) :: s.frozen.filter (·.1 ≠ key) }
  | .freezeUnlock => { s.goto i (some .startRead) with freezeMutex := none }
  | .startRead => s.goto i (if s.isFreezeLoopRunning then none else some .startSet)
  | .startSet => { s.goto i (some .startLaunch) with isFreezeLoopRunning := true }
  | .startLaunch => { s.goto i (some (.startStore s.jobs.length)) with jobs := s.jobs ++ [⟨false, .dispatch⟩] }
  | .startStore job => { s.goto i none with freezeJob := some job }
  | .unfreezeLock key => s.lock (.op i) (·.goto i (some (.unfreezeRemove key)))
  | .unfreezeRemove key =>
    let frozen := s.frozen.filter (·.1 ≠ key)
    { s.goto i (some (if frozen.isEmpty then .stopSet else .unlock)) with frozen }
  | .clearLock => s.lock (.op i) (·.goto i (some .clearMap))
  | .clearMap => { s.goto i (some .stopSet) with frozen := [] }
  | .stopSet => { s.goto i (some .stopCancel) with isFreezeLoopRunning := false }
  | .stopCancel => s.cancel.goto i (some .stopDrop)
  | .stopDrop => { s.goto i (some .unlock) with freezeJob := none }
  | .unlock => { s.goto i none with freezeMutex := none }

/-- `writeMemoryMulti` may throw what it likes, and a cancellation too: it is caught. -/
def jobStep (s : State κ ν) (j : Nat) (job : Job) : State κ ν :=
  match job.pc with
  | .dispatch => s.setJob j { job with pc := if job.cancelled then .done else .isActive }
  | .isActive => s.setJob j { job with pc := if job.cancelled then .leave else .isRunning }
  | .isRunning => s.setJob j { job with pc := if s.isFreezeLoopRunning then .lock else .leave }
  | .lock => s.lock (.job j) (·.setJob j { job with pc := .collect })
  | .collect => { s.setJob j { job with pc := .write } with freezeMutex := none }
  | .write => s.setJob j { job with pc := .delay }
  | .delay => s.setJob j { job with pc := if job.cancelled then .done else .isActive }
  | .leave => { s.setJob j { job with pc := .done } with isFreezeLoopRunning := false }
  | .done => s

/-- What the scheduler lets happen; where nothing can, nothing does. -/
def step [DecidableEq κ] (s : State κ ν) : Step κ ν → State κ ν
  | .call i c =>
    match s.ops i with
    | none => s.goto i (some c.start)
    | some _ => s
  | .op i =>
    match s.ops i with
    | some pc => opStep s i pc
    | none => s
  | .job j =>
    match s.jobs[j]? with
    | some job => jobStep s j job
    | none => s
  | .jobThrows j =>
    match s.jobs[j]? with
    | some job =>
      if job.cancelled ∧ (job.pc = .lock ∨ job.pc = .delay) then s.setJob j { job with pc := .done } else s
    | none => s

/-! ## What is right -/

/-- The loop has not been cancelled and has not left its `while`. -/
def Job.Live (job : Job) : Prop := job.cancelled = false ∧ job.pc ≠ .leave ∧ job.pc ≠ .done

def Live (s : State κ ν) (j : Nat) : Prop := ∃ job, s.jobs[j]? = some job ∧ job.Live

/-- With no operation in progress, the flag is true and one loop is live, if something is frozen. -/
def Runs (s : State κ ν) : Prop :=
  (∀ i, s.ops i = none) → s.frozen ≠ [] → s.isFreezeLoopRunning = true ∧ ∃ j, Live s j ∧ ∀ j', Live s j' → j' = j

/-- The places of `startFreezeLoop` and `stopFreezeLoop` between their write of the flag and the last that they
do to the job. -/
def Pc.switches : Pc κ ν → Bool
  | .startLaunch | .startStore _ | .stopCancel | .stopDrop => true
  | _ => false

/-- No operation is in the middle of a start or a stop of the loop. -/
def Unswitched (s : State κ ν) : Prop := ∀ i pc, s.ops i = some pc → pc.switches = false

/-- A start and a stop write the flag while no other is between its own write and the last that it does to the
job, and a start and a loop that ends find the flag false when they write it. -/
def InTurn (s : State κ ν) : Step κ ν → Prop
  | .op i =>
    match s.ops i with
    | some .startSet => Unswitched s ∧ s.isFreezeLoopRunning = false
    | some .stopSet => Unswitched s
    | _ => True
  | .job j => ∀ job ∈ s.jobs[j]?, job.pc = .leave → s.isFreezeLoopRunning = false
  | _ => True

/-! ## The lock -/

/-- The operation has the lock. -/
def Pc.holds : Pc κ ν → Bool
  | .freezePut .. | .freezeUnlock | .unfreezeRemove _ | .clearMap | .stopSet | .stopCancel | .stopDrop | .unlock => true
  | _ => false

/-- The loop has the lock. -/
def Collects (s : State κ ν) (j : Nat) : Prop := ∃ job, s.jobs[j]? = some job ∧ job.pc = .collect

/-- Who is behind the lock has it. -/
structure Locked (s : State κ ν) : Prop where
  op : ∀ i pc, s.ops i = some pc → pc.holds = true → s.freezeMutex = some (.op i)
  job : ∀ j, Collects s j → s.freezeMutex = some (.job j)

section Goto

variable {s s' : State κ ν} {i : Nat} {x : Option (Pc κ ν)}

theorem at_place {p : Pc κ ν → Prop} {pc : Pc κ ν} (hx : x = some pc) (hp : p pc) : ∀ pc ∈ x, p pc := by
  rintro pc' rfl
  exact Option.some.inj hx ▸ hp

theorem goto_cases (hops : s'.ops = Function.update s.ops i x) {i' : Nat} {pc : Pc κ ν} (h : s'.ops i' = some pc) :
    (i' = i ∧ x = some pc) ∨ (i' ≠ i ∧ s.ops i' = some pc) := by
  rw [hops] at h
  by_cases hi : i' = i
  · rw [hi, Function.update_self] at h
    exact .inl ⟨hi, h⟩
  · rw [Function.update_of_ne hi] at h
    exact .inr ⟨hi, h⟩

/-- One operation moves; the lock of no other changes. -/
theorem Locked.goto (h : Locked s) (hops : s'.ops = Function.update s.ops i x)
    (hjobs : ∀ j, Collects s' j → Collects s j)
    (hlock : ∀ o, o ≠ .op i → s.freezeMutex = some o → s'.freezeMutex = some o)
    (hx : ∀ pc ∈ x, pc.holds = true → s'.freezeMutex = some (.op i)) : Locked s' := by
  constructor
  · intro i' pc hpc hholds
    rcases goto_cases hops hpc with ⟨rfl, hmoved⟩ | ⟨hi, hold⟩
    · exact hx pc hmoved hholds
    · exact hlock _ (fun heq => hi (Owner.op.inj heq)) (h.op i' pc hold hholds)
  · intro j hcollects
    exact hlock _ nofun (h.job j (hjobs j hcollects))

/-! ## The map -/

/-- The operation stops the loop next, or is about to. -/
def Pc.stops : Pc κ ν → Bool
  | .stopSet | .stopCancel | .stopDrop => true
  | _ => false

/-- The operation has put something into the map and has not set the flag since. -/
def Pc.starts : Pc κ ν → Bool
  | .freezeUnlock | .startRead | .startSet => true
  | _ => false

/-- A stop finds the map empty, and while it is not the flag is true or about to be set. -/
structure Fed (s : State κ ν) : Prop where
  stops : ∀ i pc, s.ops i = some pc → pc.stops = true → s.frozen = []
  starts : s.frozen ≠ [] → s.isFreezeLoopRunning = true ∨ ∃ i pc, s.ops i = some pc ∧ pc.starts = true

theorem holds_of_stops {pc : Pc κ ν} (h : pc.stops = true) : pc.holds = true := by
  cases pc with
  | stopSet | stopCancel | stopDrop => rfl
  | _ => exact absurd h nofun

/-- One operation moves, with the map as it is. -/
theorem Fed.goto (h : Fed s) {pc : Pc κ ν} (hpc : s.ops i = some pc) (hops : s'.ops = Function.update s.ops i x)
    (hfrozen : s'.frozen = s.frozen) (hx : ∀ pc ∈ x, pc.stops = true → s'.frozen = [])
    (hflag : s'.frozen ≠ [] → s.isFreezeLoopRunning = true → s'.isFreezeLoopRunning = true)
    (hstarts : pc.starts = true → s'.isFreezeLoopRunning = true ∨ ∃ pc ∈ x, pc.starts = true) : Fed s' := by
  constructor
  · intro i' pc' hpc' hstops
    rcases goto_cases hops hpc' with ⟨rfl, hmoved⟩ | ⟨-, hold⟩
    · exact hx pc' hmoved hstops
    · exact hfrozen.trans (h.stops i' pc' hold hstops)
  · intro hne
    rcases h.starts (hfrozen ▸ hne) with hrun | ⟨i', pc', hold, hstart⟩
    · exact .inl (hflag hne hrun)
    · by_cases hi : i' = i
      · rw [hi, hpc] at hold
        obtain rfl := Option.some.inj hold
        refine (hstarts hstart).imp_right ?_
        rintro ⟨pc', rfl, hstart'⟩
        exact ⟨i, pc', by rw [hops, Function.update_self], hstart'⟩
      · exact .inr ⟨i', pc', by rw [hops, Function.update_of_ne hi]; exact hold, hstart⟩

/-- The operation that has the lock changes the map. -/
theorem Fed.change (h : Fed s) (hlocked : Locked s) {pc : Pc κ ν} (hpc : s.ops i = some pc) (hholds : pc.holds = true)
    (hops : s'.ops = Function.update s.ops i x) (hx : ∀ pc ∈ x, pc.stops = true → s'.frozen = [])
    (hflag : s'.isFreezeLoopRunning = s.isFreezeLoopRunning)
    (hstarts : s'.frozen ≠ [] → (s.frozen ≠ [] ∧ pc.starts = false) ∨ ∃ pc ∈ x, pc.starts = true) : Fed s' := by
  constructor
  · intro i' pc' hpc' hstops
    rcases goto_cases hops hpc' with ⟨rfl, hmoved⟩ | ⟨hi, hold⟩
    · exact hx pc' hmoved hstops
    · have hother := hlocked.op i' pc' hold (holds_of_stops hstops)
      rw [hlocked.op i pc hpc hholds] at hother
      exact absurd (Owner.op.inj (Option.some.inj hother)).symm hi
  · intro hne
    rcases hstarts hne with ⟨hne', hno⟩ | ⟨pc', rfl, hstart⟩
    · rcases h.starts hne' with hrun | ⟨i', pc', hold, hstart⟩
      · exact .inl (hflag.trans hrun)
      · have hi : i' ≠ i := by
          rintro rfl
          rw [hpc] at hold
          obtain rfl := Option.some.inj hold
          rw [hno] at hstart
          exact absurd hstart nofun
        exact .inr ⟨i', pc', by rw [hops, Function.update_of_ne hi]; exact hold, hstart⟩
    · exact .inr ⟨i, pc', by rw [hops, Function.update_self], hstart⟩

/-! ## The flag and the loops -/

/-- What is so while an operation is at this place of a start or a stop, or none is at any. -/
def Mid (s : State κ ν) : Option (Pc κ ν) → Prop
  | none => (s.isFreezeLoopRunning = true → ∃ j, s.freezeJob = some j ∧ ∀ j', Live s j' ↔ j' = j) ∧
      (s.isFreezeLoopRunning = false → ∀ j, ¬ Live s j)
  | some .startLaunch => s.isFreezeLoopRunning = true ∧ ∀ j, ¬ Live s j
  | some (.startStore j) => s.isFreezeLoopRunning = true ∧ ∀ j', Live s j' ↔ j' = j
  | some .stopCancel => s.isFreezeLoopRunning = false ∧ ∀ j, Live s j → s.freezeJob = some j
  | some .stopDrop => s.isFreezeLoopRunning = false ∧ ∀ j, ¬ Live s j
  | some _ => False

/-- Loops may come to their end as long as the flag is false. -/
theorem Mid.mono {w : Option (Pc κ ν)} (h : Mid s w) (hflag : s'.isFreezeLoopRunning = s.isFreezeLoopRunning)
    (hjob : s'.freezeJob = s.freezeJob) (hless : ∀ j, Live s' j → Live s j)
    (hsame : s.isFreezeLoopRunning = true → ∀ j, Live s j → Live s' j) : Mid s' w := by
  have hiff : s.isFreezeLoopRunning = true → ∀ j, Live s' j ↔ Live s j := fun hrun j => ⟨hless j, hsame hrun j⟩
  have hnone : (∀ j, ¬ Live s j) → ∀ j, ¬ Live s' j := fun hno j hlive => hno j (hless j hlive)
  rcases w with _ | pc
  · refine ⟨fun hrun => ?_, fun hstop => hnone (h.2 (hflag ▸ hstop))⟩
    rw [hflag] at hrun
    obtain ⟨j, hj, huniq⟩ := h.1 hrun
    exact ⟨j, hjob.trans hj, fun j' => (hiff hrun j').trans (huniq j')⟩
  · cases pc with
    | startLaunch => exact ⟨hflag.trans h.1, hnone h.2⟩
    | startStore j => exact ⟨hflag.trans h.1, fun j' => (hiff h.1 j').trans (h.2 j')⟩
    | stopCancel => exact ⟨hflag.trans h.1, fun j hlive => hjob.trans (h.2 j (hless j hlive))⟩
    | stopDrop => exact ⟨hflag.trans h.1, hnone h.2⟩
    | _ => exact h.elim

/-- Which operation is in the middle of a start or a stop. -/
def Who (s : State κ ν) (w : Option (Nat × Pc κ ν)) : Prop :=
  ∀ i pc, (s.ops i = some pc ∧ pc.switches = true) ↔ w = some (i, pc)

/-- At most one is. -/
def Turn (s : State κ ν) : Prop := ∃ w, Who s w ∧ Mid s (w.map Prod.snd)

/-- An operation moves outside of the starts and the stops. -/
theorem Turn.goto (h : Turn s) (hops : s'.ops = Function.update s.ops i x)
    (hpc : ∀ pc ∈ s.ops i, pc.switches = false) (hx : ∀ pc ∈ x, pc.switches = false)
    (hflag : s'.isFreezeLoopRunning = s.isFreezeLoopRunning)
    (hjob : s'.freezeJob = s.freezeJob) (hjobs : s'.jobs = s.jobs) : Turn s' := by
  obtain ⟨w, hwho, hmid⟩ := h
  have hlive : ∀ j, Live s' j ↔ Live s j := fun j => by rw [Live, Live, hjobs]
  refine ⟨w, fun i' pc' => ?_, hmid.mono hflag hjob (fun j => (hlive j).mp) fun _ j => (hlive j).mpr⟩
  rw [← hwho i' pc', hops]
  by_cases hi : i' = i
  · subst hi
    rw [Function.update_self]
    constructor
    · rintro ⟨hmoved, hsw⟩
      exact absurd ((hx pc' hmoved).symm.trans hsw) nofun
    · rintro ⟨hold, hsw⟩
      exact absurd ((hpc pc' hold).symm.trans hsw) nofun
  · rw [Function.update_of_ne hi]

/-- The one operation in the middle of a start or a stop moves, or one gets there while none is. -/
theorem Turn.move {w : Option (Nat × Pc κ ν)} (hwho : Who s w) (hmine : ∀ p ∈ w, p.1 = i)
    (hops : s'.ops = Function.update s.ops i x) (hmid : Mid s' (x.filter Pc.switches)) : Turn s' := by
  refine ⟨(x.filter Pc.switches).map fun pc => (i, pc), fun i' pc' => ?_, ?_⟩
  · rw [hops]
    simp only [Option.map_eq_some_iff, Option.filter_eq_some_iff, Prod.mk.injEq]
    by_cases hi : i' = i
    · subst hi
      rw [Function.update_self]
      exact ⟨fun h => ⟨pc', h, rfl, rfl⟩, fun ⟨_, h, _, heq⟩ => heq ▸ h⟩
    · rw [Function.update_of_ne hi, hwho i' pc']
      constructor
      · intro hw
        exact absurd (hmine _ hw) hi
      · rintro ⟨_, -, heq, -⟩
        exact absurd heq.symm hi
  · rw [Option.map_map]
    cases hx : x.filter Pc.switches with
    | none => rw [hx] at hmid; exact hmid
    | some pc => rw [hx] at hmid; exact hmid

theorem mine_self {pc : Pc κ ν} : ∀ p ∈ some (i, pc), p.1 = i := by
  rintro p ⟨⟩
  rfl

/-- No operation is in the middle of a start or a stop. -/
theorem Turn.settled (h : Turn s) (hno : Unswitched s) : Who s none ∧ Mid s none := by
  obtain ⟨w, hwho, hmid⟩ := h
  cases w with
  | none => exact ⟨hwho, hmid⟩
  | some p =>
    obtain ⟨hpc, hsw⟩ := (hwho p.1 p.2).mpr rfl
    exact absurd ((hno p.1 p.2 hpc).symm.trans hsw) nofun

/-- This one is. -/
theorem Turn.of_switches (h : Turn s) {pc : Pc κ ν} (hpc : s.ops i = some pc) (hsw : pc.switches = true) :
    Who s (some (i, pc)) ∧ Mid s (some pc) := by
  obtain ⟨w, hwho, hmid⟩ := h
  obtain rfl := (hwho i pc).mp ⟨hpc, hsw⟩
  exact ⟨hwho, hmid⟩

end Goto

/-! ## What the steps keep -/

structure Inv (s : State κ ν) : Prop where
  locked : Locked s
  fed : Fed s
  turn : Turn s

theorem inv_init : Inv (State.init : State κ ν) := by
  refine ⟨⟨nofun, ?_⟩, ⟨nofun, fun h => absurd rfl h⟩, none, fun i pc => ⟨nofun, nofun⟩, nofun, ?_⟩
  · rintro j ⟨job, hjob, -⟩
    exact absurd hjob nofun
  · rintro - j ⟨job, hjob, -⟩
    exact absurd hjob nofun

section Ops

variable {s : State κ ν} {i : Nat}

/-- Taking the lock. -/
theorem Inv.acquire (h : Inv s) {pc next : Pc κ ν} (hpc : s.ops i = some pc) (hsw : pc.switches = false)
    (hstarts : pc.starts = false) (hnext : next.switches = false) (hstops : next.stops = false) :
    Inv (s.lock (.op i) (·.goto i (some next))) := by
  unfold State.lock
  split
  · rename_i hfree
    refine ⟨h.locked.goto rfl (fun _ => id) ?_ fun _ _ _ => rfl,
      h.fed.goto hpc rfl rfl (at_place rfl ?_) (fun _ => id) ?_,
      h.turn.goto rfl (at_place hpc hsw) (at_place rfl hnext) rfl rfl rfl⟩
    · intro o _ ho
      exact absurd (hfree.symm.trans ho) nofun
    · intro hs
      exact absurd (hstops.symm.trans hs) nofun
    · intro hs
      exact absurd (hstarts.symm.trans hs) nofun
  · exact h

/-- Giving the lock back. -/
theorem Locked.release (h : Locked s) {s' : State κ ν} {x : Option (Pc κ ν)} {pc : Pc κ ν} (hpc : s.ops i = some pc)
    (hholds : pc.holds = true) (hops : s'.ops = Function.update s.ops i x) (hjobs : s'.jobs = s.jobs)
    (hx : ∀ pc ∈ x, pc.holds = false) : Locked s' := by
  refine h.goto hops (fun j hcollects => ?_) (fun o ho hother => ?_) fun pc hmoved hs => ?_
  · rw [Collects, hjobs] at hcollects
    exact hcollects
  · rw [h.op i pc hpc hholds] at hother
    exact absurd (Option.some.inj hother).symm ho
  · exact absurd ((hx pc hmoved).symm.trans hs) nofun

/-- The lock stays as it is. -/
theorem Locked.stay (h : Locked s) {s' : State κ ν} {x : Option (Pc κ ν)} {pc : Pc κ ν} (hpc : s.ops i = some pc)
    (hops : s'.ops = Function.update s.ops i x) (hjobs : ∀ j, Collects s' j → Collects s j)
    (hmutex : s'.freezeMutex = s.freezeMutex) (hx : ∀ next ∈ x, next.holds = true → pc.holds = true) : Locked s' :=
  h.goto hops hjobs (fun _ _ hother => hmutex.trans hother) fun next hmoved hs =>
    hmutex.trans (h.op i pc hpc (hx next hmoved hs))

theorem live_launch {j : Nat} {s' : State κ ν} (hjobs : s'.jobs = s.jobs ++ [⟨false, .dispatch⟩]) :
    Live s' j ↔ Live s j ∨ j = s.jobs.length := by
  rw [Live, Live, hjobs]
  rcases Nat.lt_trichotomy j s.jobs.length with hlt | heq | hgt
  · rw [List.getElem?_append_left hlt]
    exact (or_iff_left (Nat.ne_of_lt hlt)).symm
  · rw [heq, List.getElem?_concat_length]
    exact iff_of_true ⟨_, rfl, rfl, (fun h => by cases h), (fun h => by cases h)⟩ (.inr rfl)
  · rw [List.getElem?_eq_none (by simp; omega), List.getElem?_eq_none (by omega)]
    refine iff_of_false ?_ ?_
    · rintro ⟨_, hnone, -⟩
      cases hnone
    rintro (⟨_, hnone, -⟩ | heq)
    · cases hnone
    · exact Nat.ne_of_lt hgt heq.symm

theorem collects_launch {j : Nat} {s' : State κ ν} (hjobs : s'.jobs = s.jobs ++ [⟨false, .dispatch⟩]) :
    Collects s' j → Collects s j := by
  rintro ⟨job, hjob, hpc⟩
  rw [hjobs] at hjob
  rcases Nat.lt_or_ge j s.jobs.length with hlt | hge
  · rw [List.getElem?_append_left hlt] at hjob
    exact ⟨job, hjob, hpc⟩
  · obtain rfl := List.mem_singleton.mp (List.mem_of_getElem? (List.getElem?_append_right hge ▸ hjob))
    exact absurd hpc nofun

/-- A cancelled loop is where it was. -/
theorem cancel_getElem? {j : Nat} :
    s.cancel.jobs[j]? = (s.jobs[j]?).map fun job =>
      if s.freezeJob = some j then { job with cancelled := true } else job := by
  unfold State.cancel
  cases hj : s.freezeJob with
  | none => simp
  | some j' =>
    rw [List.getElem?_modify]
    by_cases heq : j' = j
    · simp [heq]
    · simp [heq]

theorem collects_cancel {j : Nat} : Collects s.cancel j → Collects s j := by
  rintro ⟨job, hjob, hpc⟩
  rw [cancel_getElem?, Option.map_eq_some_iff] at hjob
  obtain ⟨old, hold, rfl⟩ := hjob
  refine ⟨old, hold, ?_⟩
  split at hpc <;> exact hpc

theorem live_cancel {j : Nat} : Live s.cancel j ↔ Live s j ∧ s.freezeJob ≠ some j := by
  unfold Live
  rw [cancel_getElem?]
  by_cases heq : s.freezeJob = some j
  · simp only [if_pos heq, Option.map_eq_some_iff]
    refine iff_of_false ?_ fun h => h.2 heq
    rintro ⟨_, ⟨old, -, rfl⟩, hcancelled, -⟩
    exact absurd hcancelled nofun
  · simp only [if_neg heq, Option.map_id']
    exact (and_iff_left heq).symm

@[simp] theorem cancel_ops : s.cancel.ops = s.ops := by
  unfold State.cancel
  split <;> rfl

@[simp] theorem cancel_frozen : s.cancel.frozen = s.frozen := by
  unfold State.cancel
  split <;> rfl

@[simp] theorem cancel_freezeMutex : s.cancel.freezeMutex = s.freezeMutex := by
  unfold State.cancel
  split <;> rfl

@[simp] theorem cancel_isFreezeLoopRunning : s.cancel.isFreezeLoopRunning = s.isFreezeLoopRunning := by
  unfold State.cancel
  split <;> rfl

section Positions

variable [DecidableEq κ]

/-- A start that finds the loop running is done. -/
theorem Inv.startRead (h : Inv s) (hpc : s.ops i = some .startRead) : Inv (opStep s i .startRead) := by
  unfold opStep
  cases hrun : s.isFreezeLoopRunning with
  | true =>
    exact ⟨h.locked.stay hpc rfl (fun _ => id) rfl nofun,
      h.fed.goto hpc rfl rfl nofun (fun _ => id) fun _ => .inl hrun,
      h.turn.goto rfl (at_place hpc rfl) nofun rfl rfl rfl⟩
  | false =>
    exact ⟨h.locked.stay hpc rfl (fun _ => id) rfl (at_place rfl nofun),
      h.fed.goto hpc rfl rfl (at_place rfl nofun) (fun _ => id) fun _ => .inr ⟨_, rfl, rfl⟩,
      h.turn.goto rfl (at_place hpc rfl) (at_place rfl rfl) rfl rfl rfl⟩

/-- A start writes the flag while no other is under way. -/
theorem Inv.startSet (h : Inv s) (hpc : s.ops i = some .startSet) (hno : Unswitched s)
    (hstop : s.isFreezeLoopRunning = false) : Inv (opStep s i .startSet) := by
  obtain ⟨hwho, hmid⟩ := h.turn.settled hno
  exact ⟨h.locked.stay hpc rfl (fun _ => id) rfl (at_place rfl nofun),
    h.fed.goto hpc rfl rfl (at_place rfl nofun) (fun _ _ => rfl) fun _ => .inl rfl,
    Turn.move hwho nofun rfl ⟨rfl, hmid.2 hstop⟩⟩

/-- The new loop is the only one. -/
theorem Inv.startLaunch (h : Inv s) (hpc : s.ops i = some .startLaunch) : Inv (opStep s i .startLaunch) := by
  obtain ⟨hwho, hrun, hno⟩ := h.turn.of_switches hpc rfl
  refine ⟨h.locked.stay hpc rfl (fun _ => collects_launch rfl) rfl (at_place rfl nofun),
    h.fed.goto hpc rfl rfl (at_place rfl nofun) (fun _ => id) nofun,
    Turn.move hwho mine_self rfl ⟨hrun, fun j' => ?_⟩⟩
  exact (live_launch rfl).trans (or_iff_right (hno j'))

/-- When no value is left the loop is stopped. -/
theorem Inv.unfreezeRemove {key : κ} (h : Inv s) (hpc : s.ops i = some (.unfreezeRemove key)) :
    Inv (opStep s i (.unfreezeRemove key)) := by
  cases hempty : (s.frozen.filter (·.1 ≠ key)).isEmpty with
  | true =>
    have heq : opStep s i (.unfreezeRemove key) =
        { s.goto i (some .stopSet) with frozen := s.frozen.filter (·.1 ≠ key) } := by
      simp only [opStep, hempty, if_true]
    rw [heq]
    refine ⟨h.locked.stay hpc rfl (fun _ => id) rfl (at_place rfl fun _ => rfl),
      h.fed.change h.locked hpc rfl rfl (at_place rfl fun _ => List.isEmpty_iff.mp hempty) rfl fun hne => ?_,
      h.turn.goto rfl (at_place hpc rfl) (at_place rfl rfl) rfl rfl rfl⟩
    exact absurd (List.isEmpty_iff.mp hempty) hne
  | false =>
    have heq : opStep s i (.unfreezeRemove key) =
        { s.goto i (some .unlock) with frozen := s.frozen.filter (·.1 ≠ key) } := by
      simp only [opStep, hempty, Bool.false_eq_true, if_false]
    rw [heq]
    refine ⟨h.locked.stay hpc rfl (fun _ => id) rfl (at_place rfl fun _ => rfl),
      h.fed.change h.locked hpc rfl rfl (at_place rfl nofun) rfl fun hne => .inl ⟨fun hnil => hne ?_, rfl⟩,
      h.turn.goto rfl (at_place hpc rfl) (at_place rfl rfl) rfl rfl rfl⟩
    rw [hnil]
    rfl

/-- A stop writes the flag while no other is under way. -/
theorem Inv.stopSet (h : Inv s) (hpc : s.ops i = some .stopSet) (hno : Unswitched s) : Inv (opStep s i .stopSet) := by
  obtain ⟨hwho, hmid⟩ := h.turn.settled hno
  have hempty := h.fed.stops i .stopSet hpc rfl
  refine ⟨h.locked.stay hpc rfl (fun _ => id) rfl (at_place rfl fun _ => rfl),
    h.fed.goto hpc rfl rfl (at_place rfl fun _ => hempty) (fun hne => absurd hempty hne) nofun,
    Turn.move hwho nofun rfl ⟨rfl, fun j hlive => ?_⟩⟩
  cases hrun : s.isFreezeLoopRunning with
  | true =>
    obtain ⟨j', hj', hone⟩ := hmid.1 hrun
    rw [(hone j).mp hlive]
    exact hj'
  | false => exact absurd hlive (hmid.2 hrun j)

/-- The loop that is cancelled was the only one. -/
theorem Inv.stopCancel (h : Inv s) (hpc : s.ops i = some .stopCancel) : Inv (opStep s i .stopCancel) := by
  obtain ⟨hwho, hstop, hone⟩ := h.turn.of_switches hpc rfl
  have hempty := h.fed.stops i .stopCancel hpc rfl
  have hops : (opStep s i .stopCancel).ops = Function.update s.ops i (some .stopDrop) := by
    rw [opStep, State.goto, cancel_ops]
  refine ⟨h.locked.stay hpc hops (fun _ => collects_cancel) cancel_freezeMutex (at_place rfl fun _ => rfl),
    h.fed.goto hpc hops cancel_frozen (at_place rfl fun _ => cancel_frozen.trans hempty)
      (fun hne => absurd (cancel_frozen.trans hempty) hne) nofun,
    Turn.move hwho mine_self hops ⟨cancel_isFreezeLoopRunning.trans hstop, fun j hlive => ?_⟩⟩
  obtain ⟨hbefore, hother⟩ := live_cancel.mp hlive
  exact hother (hone j hbefore)

end Positions

/-- An operation goes on. -/
theorem Inv.op [DecidableEq κ] (h : Inv s) {pc : Pc κ ν} (hpc : s.ops i = some pc) (hok : InTurn s (.op i)) :
    Inv (opStep s i pc) := by
  simp only [InTurn, hpc] at hok
  cases pc with
  | freezeLock key value => exact h.acquire hpc rfl rfl rfl rfl
  | unfreezeLock key => exact h.acquire hpc rfl rfl rfl rfl
  | clearLock => exact h.acquire hpc rfl rfl rfl rfl
  | freezePut key value =>
    refine ⟨h.locked.stay hpc rfl (fun _ => id) rfl (at_place rfl fun _ => rfl),
      h.fed.change h.locked hpc rfl rfl (at_place rfl nofun) rfl fun _ => .inr ⟨_, rfl, rfl⟩,
      h.turn.goto rfl (at_place hpc rfl) (at_place rfl rfl) rfl rfl rfl⟩
  | freezeUnlock =>
    refine ⟨h.locked.release hpc rfl rfl rfl (at_place rfl rfl),
      h.fed.goto hpc rfl rfl (at_place rfl nofun) (fun _ => id) fun _ => .inr ⟨_, rfl, rfl⟩,
      h.turn.goto rfl (at_place hpc rfl) (at_place rfl rfl) rfl rfl rfl⟩
  | startRead => exact h.startRead hpc
  | startSet => exact h.startSet hpc hok.1 hok.2
  | startLaunch => exact h.startLaunch hpc
  | startStore j =>
    obtain ⟨hwho, hrun, hone⟩ := h.turn.of_switches hpc rfl
    exact ⟨h.locked.stay hpc rfl (fun _ => id) rfl nofun,
      h.fed.goto hpc rfl rfl nofun (fun _ => id) nofun,
      Turn.move hwho mine_self rfl ⟨fun _ => ⟨j, rfl, hone⟩, fun hstop => absurd (hrun.symm.trans hstop) nofun⟩⟩
  | unfreezeRemove key => exact h.unfreezeRemove hpc
  | clearMap =>
    exact ⟨h.locked.stay hpc rfl (fun _ => id) rfl (at_place rfl fun _ => rfl),
      h.fed.change h.locked hpc rfl rfl (at_place rfl fun _ => rfl) rfl fun hne => absurd rfl hne,
      h.turn.goto rfl (at_place hpc rfl) (at_place rfl rfl) rfl rfl rfl⟩
  | stopSet => exact h.stopSet hpc hok
  | stopCancel => exact h.stopCancel hpc
  | stopDrop =>
    obtain ⟨hwho, hstop, hno⟩ := h.turn.of_switches hpc rfl
    exact ⟨h.locked.stay hpc rfl (fun _ => id) rfl (at_place rfl fun _ => rfl),
      h.fed.goto hpc rfl rfl (at_place rfl nofun) (fun _ => id) nofun,
      Turn.move hwho mine_self rfl ⟨fun hrun => absurd (hstop.symm.trans hrun) nofun, fun _ => hno⟩⟩
  | unlock =>
    exact ⟨h.locked.release hpc rfl rfl rfl nofun, h.fed.goto hpc rfl rfl nofun (fun _ => id) nofun,
      h.turn.goto rfl (at_place hpc rfl) nofun rfl rfl rfl⟩

/-- A call. -/
theorem Inv.call (h : Inv s) (hfree : s.ops i = none) (c : Call κ ν) : Inv (s.goto i (some c.start)) := by
  have hstart : c.start.holds = false ∧ c.start.stops = false ∧ c.start.switches = false := by
    cases c with
    | freeze | unfreeze | clearFrozen => exact ⟨rfl, rfl, rfl⟩
  obtain ⟨hholds, hstops, hsw⟩ := hstart
  have hidle : ∀ pc ∈ s.ops i, pc.switches = false := fun pc hpc => absurd (hfree.symm.trans hpc) nofun
  refine ⟨h.locked.goto rfl (fun _ => id) (fun _ _ => id) (at_place rfl fun hs => ?_), ⟨fun i' pc hpc hs => ?_, ?_⟩,
    h.turn.goto rfl hidle (at_place rfl hsw) rfl rfl rfl⟩
  · exact absurd (hholds.symm.trans hs) nofun
  · rcases goto_cases rfl hpc with ⟨-, hmoved⟩ | ⟨-, hold⟩
    · obtain rfl := Option.some.inj hmoved
      exact absurd (hstops.symm.trans hs) nofun
    · exact h.fed.stops i' pc hold hs
  · intro hne
    refine (h.fed.starts hne).imp_right ?_
    rintro ⟨i', pc, hold, hs⟩
    have hi : i' ≠ i := by
      rintro rfl
      exact absurd (hfree.symm.trans hold) nofun
    exact ⟨i', pc, (Function.update_of_ne hi _ _).trans hold, hs⟩

end Ops

section Jobs

variable {s s' : State κ ν} {j : Nat} {job job' : Job}

theorem setJob_getElem? (hjob : s.jobs[j]? = some job) (hjobs : s'.jobs = s.jobs.set j job') (i : Nat) :
    s'.jobs[i]? = if i = j then some job' else s.jobs[i]? := by
  obtain ⟨hlt, -⟩ := List.getElem?_eq_some_iff.mp hjob
  rw [hjobs, List.getElem?_set]
  by_cases heq : j = i
  · rw [if_pos heq, if_pos hlt, if_pos heq.symm]
  · rw [if_neg heq, if_neg (Ne.symm heq)]

/-- One loop goes on. It is not live if it was not, and it stays live as long as the flag is true; the lock it
takes is free, and the one that it gives back is its own. -/
theorem Inv.setJob (h : Inv s) (hjob : s.jobs[j]? = some job) (hjobs : s'.jobs = s.jobs.set j job')
    (hops : s'.ops = s.ops) (hfrozen : s'.frozen = s.frozen) (hfreeze : s'.freezeJob = s.freezeJob)
    (hflag : s'.isFreezeLoopRunning = s.isFreezeLoopRunning) (hless : job'.Live → job.Live)
    (hsame : s.isFreezeLoopRunning = true → job.Live → job'.Live)
    (hlock : ∀ o, o ≠ .job j → s.freezeMutex = some o → s'.freezeMutex = some o)
    (hcollect : job'.pc = .collect → s'.freezeMutex = some (.job j)) : Inv s' := by
  have hget := setJob_getElem? hjob hjobs
  refine ⟨⟨fun i pc hpc hholds => ?_, ?_⟩, ⟨fun i pc hpc hs => ?_, ?_⟩, ?_⟩
  · exact hlock _ nofun (h.locked.op i pc (hops ▸ hpc) hholds)
  · rintro i ⟨job₁, hjob₁, hpc⟩
    rw [hget] at hjob₁
    by_cases hi : i = j
    · rw [if_pos hi] at hjob₁
      obtain rfl := Option.some.inj hjob₁
      rw [hi]
      exact hcollect hpc
    · rw [if_neg hi] at hjob₁
      exact hlock _ (fun heq => hi (Owner.job.inj heq)) (h.locked.job i ⟨job₁, hjob₁, hpc⟩)
  · exact hfrozen.trans (h.fed.stops i pc (hops ▸ hpc) hs)
  · rw [hfrozen, hflag, hops]
    exact h.fed.starts
  · obtain ⟨w, hwho, hmid⟩ := h.turn
    refine ⟨w, fun i pc => by rw [hops]; exact hwho i pc, hmid.mono hflag hfreeze ?_ ?_⟩
    · rintro i ⟨job₁, hjob₁, hlive⟩
      rw [hget] at hjob₁
      by_cases hi : i = j
      · rw [if_pos hi] at hjob₁
        obtain rfl := Option.some.inj hjob₁
        exact ⟨job, hi ▸ hjob, hless hlive⟩
      · rw [if_neg hi] at hjob₁
        exact ⟨job₁, hjob₁, hlive⟩
    · rintro hrun i ⟨job₁, hjob₁, hlive⟩
      by_cases hi : i = j
      · rw [hi, hjob] at hjob₁
        obtain rfl := Option.some.inj hjob₁
        exact ⟨job', by rw [hget, if_pos hi], hsame hrun hlive⟩
      · exact ⟨job₁, by rw [hget, if_neg hi]; exact hjob₁, hlive⟩

/-- A loop goes on. -/
theorem Inv.loop (h : Inv s) (hjob : s.jobs[j]? = some job) (hok : job.pc = .leave → s.isFreezeLoopRunning = false) :
    Inv (jobStep s j job) := by
  obtain ⟨cancelled, pc⟩ := job
  cases pc with
  | dispatch =>
    refine h.setJob hjob rfl rfl rfl rfl rfl (fun hlive => ⟨hlive.1, nofun, nofun⟩) (fun _ hlive => ?_)
      (fun _ _ => id) ?_
    · obtain rfl : cancelled = false := hlive.1
      exact ⟨rfl, nofun, nofun⟩
    · cases cancelled <;> exact nofun
  | isActive =>
    refine h.setJob hjob rfl rfl rfl rfl rfl (fun hlive => ⟨hlive.1, nofun, nofun⟩) (fun _ hlive => ?_)
      (fun _ _ => id) ?_
    · obtain rfl : cancelled = false := hlive.1
      exact ⟨rfl, nofun, nofun⟩
    · cases cancelled <;> exact nofun
  | isRunning =>
    refine h.setJob hjob rfl rfl rfl rfl rfl (fun hlive => ⟨hlive.1, nofun, nofun⟩) (fun hrun hlive => ?_)
      (fun _ _ => id) ?_
    · rw [hrun]
      exact ⟨hlive.1, nofun, nofun⟩
    · cases s.isFreezeLoopRunning <;> exact nofun
  | lock =>
    simp only [jobStep, State.lock]
    split
    · rename_i hfree
      refine h.setJob hjob rfl rfl rfl rfl rfl (fun hlive => ⟨hlive.1, nofun, nofun⟩)
        (fun _ hlive => ⟨hlive.1, nofun, nofun⟩) (fun o _ ho => ?_) fun _ => rfl
      exact absurd (hfree.symm.trans ho) nofun
    · exact h
  | collect =>
    refine h.setJob hjob rfl rfl rfl rfl rfl (fun hlive => ⟨hlive.1, nofun, nofun⟩)
      (fun _ hlive => ⟨hlive.1, nofun, nofun⟩) (fun o ho hother => ?_) nofun
    rw [h.locked.job j ⟨_, hjob, rfl⟩] at hother
    exact absurd (Option.some.inj hother).symm ho
  | write =>
    exact h.setJob hjob rfl rfl rfl rfl rfl (fun hlive => ⟨hlive.1, nofun, nofun⟩)
      (fun _ hlive => ⟨hlive.1, nofun, nofun⟩) (fun _ _ => id) nofun
  | delay =>
    refine h.setJob hjob rfl rfl rfl rfl rfl (fun hlive => ⟨hlive.1, nofun, nofun⟩) (fun _ hlive => ?_)
      (fun _ _ => id) ?_
    · obtain rfl : cancelled = false := hlive.1
      exact ⟨rfl, nofun, nofun⟩
    · cases cancelled <;> exact nofun
  | leave =>
    exact h.setJob hjob rfl rfl rfl rfl (hok rfl).symm (fun hlive => absurd rfl hlive.2.2)
      (fun _ hlive => absurd rfl hlive.2.1) (fun _ _ => id) nofun
  | done => exact h

/-- A cancelled loop throws. -/
theorem Inv.throws (h : Inv s) (hjob : s.jobs[j]? = some job) (hcancelled : job.cancelled = true) :
    Inv (s.setJob j { job with pc := .done }) :=
  h.setJob hjob rfl rfl rfl rfl rfl (fun hlive => absurd rfl hlive.2.2)
    (fun _ hlive => absurd (hcancelled.symm.trans hlive.1) nofun) (fun _ _ => id) nofun

end Jobs

variable {s : State κ ν}

theorem Inv.step [DecidableEq κ] (h : Inv s) {a : Step κ ν} (hok : InTurn s a) : Inv (step s a) := by
  cases a with
  | call i c =>
    simp only [FreezeLoop.step]
    cases hops : s.ops i with
    | none => exact h.call hops c
    | some pc => exact h
  | op i =>
    simp only [FreezeLoop.step]
    cases hops : s.ops i with
    | none => exact h
    | some pc => exact h.op hops hok
  | job j =>
    simp only [FreezeLoop.step]
    cases hjob : s.jobs[j]? with
    | none => exact h
    | some job => exact h.loop hjob (hok job hjob)
  | jobThrows j =>
    simp only [FreezeLoop.step]
    cases hjob : s.jobs[j]? with
    | none => exact h
    | some job =>
      simp only
      split
      · rename_i hthrows
        exact h.throws hjob hthrows.1
      · exact h

/-- With no operation in progress, the flag says whether the one loop runs. -/
theorem Inv.runs (h : Inv s) : Runs s := by
  intro hidle hne
  have hrun : s.isFreezeLoopRunning = true := (h.fed.starts hne).resolve_right fun ⟨i, pc, hpc, _⟩ =>
    absurd ((hidle i).symm.trans hpc) nofun
  have hno : Unswitched s := fun i pc hpc => absurd ((hidle i).symm.trans hpc) nofun
  obtain ⟨j, -, hone⟩ := (h.turn.settled hno).2.1 hrun
  exact ⟨hrun, j, (hone j).mpr rfl, fun j' => (hone j').mp⟩

/-! ## Whether the loop runs -/

/-- **The freeze loop.** In a run in which no start or stop writes the flag while another has written it and has
not done with the job, and in which starts and loops that end find the flag false, one loop runs whenever
something is frozen and no operation is in progress. -/
theorem freeze_loop_runs [DecidableEq κ] (acts : List (Step κ ν)) (h : Along FreezeLoop.step InTurn State.init acts) :
    Along FreezeLoop.step (fun s a => Runs (FreezeLoop.step s a)) State.init acts :=
  Along.of_invariant Inv (fun _ _ hinv hok => ⟨hinv.step hok, (hinv.step hok).runs⟩) acts inv_init h

/-- A value is frozen and unfrozen again. -/
theorem freeze_loop_runs_once :
    Along FreezeLoop.step (fun s a => Runs (FreezeLoop.step s a)) (State.init : State Int64 (List UInt8))
      [.call 0 (.freeze 16 [1]), .op 0, .op 0, .op 0, .op 0, .op 0, .op 0, .op 0, .job 0,
        .call 0 (.unfreeze 16), .op 0, .op 0, .op 0, .op 0, .op 0, .op 0, .job 0, .job 0] := by
  refine freeze_loop_runs _ ⟨trivial, trivial, trivial, trivial, trivial, ⟨?_, rfl⟩, trivial, trivial, ?_, trivial,
    trivial, trivial, ?_, trivial, trivial, trivial, ?_, ?_, trivial⟩
  · rintro (_ | i) pc hpc
    · obtain rfl := Option.some.inj hpc
      rfl
    · exact absurd hpc nofun
  · rintro job ⟨⟩
    exact nofun
  · rintro (_ | i) pc hpc
    · obtain rfl := Option.some.inj hpc
      rfl
    · exact absurd hpc nofun
  · rintro job ⟨⟩
    exact nofun
  · rintro job ⟨⟩
    exact fun _ => rfl

/-- Two values are frozen at a time, and two loops run. -/
theorem two_freezes_two_loops : ¬ ∀ acts : List (Step Int64 (List UInt8)),
    Runs (acts.foldl FreezeLoop.step State.init) := by
  intro h
  obtain ⟨-, j, -, hone⟩ := h [.call 0 (.freeze 16 [1]), .op 0, .op 0, .op 0, .op 0,
    .call 1 (.freeze 32 [2]), .op 1, .op 1, .op 1, .op 1, .op 0, .op 0, .op 0, .op 1, .op 1, .op 1]
    (by rintro (_ | _ | i) <;> rfl) nofun
  have hfirst := hone 0 ⟨⟨false, .dispatch⟩, rfl, rfl, nofun, nofun⟩
  have hsecond := hone 1 ⟨⟨false, .dispatch⟩, rfl, rfl, nofun, nofun⟩
  exact absurd (hfirst.trans hsecond.symm) nofun

end FreezeLoop

end Ps5Debugger
